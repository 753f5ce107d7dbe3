import QueryTaint.Json.Basic
import QueryTaint.Project.FileTree

/-!
# Scanning projects

A project is a directory, or a single file, of a tree. Its programs are scanned together; classes
are found as the project's description says, and a description that cannot be read says nothing.

The description, `composer.json`, says in which directories the classes are whose names start in
some way. The rest of a class's name is then the path of its file.
-/

namespace QueryTaint

/-! ## Where classes are found -/

/-- The directories of classes by the start of their names, below a root. -/
structure Autoload where
  root : String
  dirs : Std.TreeMap String (List String) := {}

namespace Autoload

/-- The name without separators at its start. -/
def trimName (name : String) : String := (name.dropWhile '\\').toString

/-- The directories that a value names: one, or several. -/
def dirsOf? : Json → Option (List String)
  | .string dir => some [dir]
  | .array dirs => dirs.mapM Json.string?
  | _ => none

/-- Reads the directories by the start of names. Of two for the same start the later one counts, in
the order of how the starts are written. -/
def table? : Json → Option (Std.TreeMap String (List String))
  | .object fields => do
    let written ← fields.foldlM (fun (table : Std.TreeMap String (List String)) (start, value) =>
      return table.insert start (← dirsOf? value)) {}
    return written.foldl (fun table start dirs => table.insert (trimName start) dirs) {}
  | _ => none

/-- Reads the part of a project's description that is about classes; what is missing is empty. -/
def ofJson? (root : String) (j : Json) : Option Autoload := do
  match ← j.record? ["autoload"] with
  | [some autoload] =>
    match ← autoload.record? ["psr-4"] with
    | [some table] => return ⟨root, ← table? table⟩
    | _ => return ⟨root, {}⟩
  | _ => return ⟨root, {}⟩

/-- Reads a project's description. -/
def read (root text : String) : Except SettingsError Autoload :=
  match (Json.read? text).bind (ofJson? root) with
  | some autoload => .ok autoload
  | none => .error .malformedAutoload

/-- The description in the root directory of a project; a missing one is empty. -/
def load (t : FileTree) (root : String) : Except SettingsError Autoload :=
  match t.read? (joinPath root "composer.json") with
  | none => .ok ⟨root, {}⟩
  | some file =>
    match String.fromUTF8? file.bytes with
    | some text => read root text
    | none => .error .unreadable

/-- Whether no class can be found. -/
def isEmpty (a : Autoload) : Bool := a.dirs.isEmpty

/-- The longest start of a name for which there are directories, and these. -/
def startOf? (a : Autoload) (name : String) : Option (String × List String) :=
  (a.dirs.toList.filter fun (start, _) => name.startsWith start).foldl
    (fun best entry =>
      match best with
      | some (start, _) => if entry.1.length < start.length then best else some entry
      | none => some entry) none

/-- The path of the file of a class. -/
def fileOf? (a : Autoload) (t : FileTree) (cls : String) : Option String := do
  let name := trimName cls
  let (start, dirs) ← a.startOf? name
  let relative := ((name.drop start.length).toString).replace "\\" "/"
  if relative.isEmpty then none
  else
    (dirs.map fun dir => joinPath (joinPath a.root dir) (relative ++ ".php")).find?
      fun path => (t.read? path).isSome

end Autoload

/-! ## Projects -/

/-- A project that is to be scanned with some settings. -/
structure Project where
  tree : FileTree
  root : String
  settings : Settings
  dump : Bool := false

namespace Project

/-- Where the classes of the project are found. -/
def autoload (p : Project) : Autoload :=
  match Autoload.load p.tree p.root with
  | .ok autoload => autoload
  | .error _ => ⟨p.root, {}⟩

/-- The scanner of the project. -/
def scanner (p : Project) : Scanner := ⟨p.settings, p.dump, (p.autoload.fileOf? p.tree ·)⟩

/-- What is at a path, relative to the root: a file to scan, or the path of one that cannot be
read. -/
def fetch (p : Project) (path : String) : Except String ScanFile :=
  let full := joinPath p.root path
  match p.tree.read? full with
  | some file => .ok { file with path := normalizePath full }
  | none => .error (normalizePath full)

/-- Scans files that are given by their paths. -/
def scanPaths (p : Project) (paths : List String) : Except Error ScanOutcome :=
  let fetched := paths.map p.fetch
  p.scanner.scan (fetched.filterMap fun | .error path => some path | .ok _ => none)
    (fetched.filterMap fun | .ok file => some file | .error _ => none)

/-- The paths of the project's programs, none if its root is missing. -/
def discover? (p : Project) : Option (List String) := p.tree.discover? p.root

/-- Scans the project's programs; none if its root is missing. -/
def scan? (p : Project) : Option (Except Error ScanOutcome) := p.discover?.map p.scanPaths

end Project

end QueryTaint
