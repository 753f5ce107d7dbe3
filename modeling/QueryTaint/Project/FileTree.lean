import QueryTaint.Scan.Basic

/-!
# Trees of files

Files below a working directory, and what paths name in them. A path is followed name by name: all
but the last have to be directories, `..` goes up from where the names before it lead, and a
separator at the end asks for a directory.
-/

namespace QueryTaint

/-- Files by the names that lead to them from the root, and the working directory, which exists
even if it is empty. -/
structure FileTree where
  home : List String
  files : List (List String × ScanFile)

namespace FileTree

/-- Puts a file into the tree, in place of one with the same names. -/
def put (t : FileTree) (file : ScanFile) : FileTree :=
  let names := (Path.parse file.path).normal.parts
  { t with files := t.files.filter (·.1 ≠ names) ++ [(names, file)] }

/-- The tree of files below a directory, whose paths start there. -/
def ofFiles (home : String) (files : List ScanFile) : FileTree :=
  files.foldl (fun t f => t.put { f with path := joinPath home f.path })
    ⟨(Path.parse home).normal.parts, []⟩

/-- The file with some names. -/
def fileOf? (t : FileTree) (names : List String) : Option ScanFile :=
  (t.files.find? (·.1 == names)).map (·.2)

/-- Whether some names lead to a directory. -/
def isDirectory (t : FileTree) (names : List String) : Bool :=
  names.isPrefixOf t.home
    || t.files.any fun (file, _) => names.isPrefixOf file && names.length < file.length

/-- The names that a path leads to from a directory, if something is there. -/
def follow? (t : FileTree) (dir : List String) : List String → Option (List String)
  | [] => some dir
  | segment :: rest =>
    if segment = "" || segment = "." then t.follow? dir rest
    else if segment = ".." then t.follow? dir.dropLast rest
    else
      let names := dir ++ [segment]
      if t.isDirectory names then t.follow? names rest
      else if rest.isEmpty && (t.fileOf? names).isSome then some names
      else none

/-- The names that a path leads to, if something is there. -/
def find? (t : FileTree) (path : String) : Option (List String) :=
  if path.isEmpty then none
  else t.follow? (if path.startsWith "/" then [] else t.home) (path.splitOn "/")

/-- The file at a path. -/
def read? (t : FileTree) (path : String) : Option ScanFile := (t.find? path).bind t.fileOf?

/-- The text of the file at a path, if it is one. -/
def readText? (t : FileTree) (path : String) : Option String :=
  (t.read? path).bind fun file => String.fromUTF8? file.bytes

/-- The names at a path where a file can be written: there is no directory, and there is one for
the file to be in. -/
def writable? (t : FileTree) (path : String) : Option (List String) :=
  match (path.splitOn "/").getLast? with
  | none => none
  | some name =>
    if name = "" || name = "." || name = ".." then none
    else
      let dir := (path.dropEnd name.length).toString
      match t.find? (if dir.isEmpty then "." else dir) with
      | some names =>
        let target := names ++ [name]
        if t.isDirectory names && !t.isDirectory target then some target else none
      | none => none

/-- Writes a text to a file. -/
def write? (t : FileTree) (path text : String) : Option FileTree :=
  (t.writable? path).map fun names => t.put ⟨"/" ++ "/".intercalate names, text.toUTF8, none⟩

/-! ## Looking for files -/

/-- Directories that are passed over: those of dependencies, and hidden ones. -/
def isSkipped (name : String) : Bool :=
  name.startsWith "." || name ∈ ["vendor", "node_modules"]

/-- Whether the name of a file is that of a program: it ends in the extension, and there is
something before that. -/
def isProgram (name : String) : Bool :=
  match (name.splitOn ".").reverse with
  | extension :: before :: more => lowerAscii extension = "php" && (before ≠ "" || !more.isEmpty)
  | _ => false

/-- The names below a directory of the programs in it, in order. -/
def programsBelow (t : FileTree) (dir : List String) : List (List String) :=
  let below := (t.files.filter fun (names, _) => dir.isPrefixOf names).map
    fun (names, _) => names.drop dir.length
  let wanted := below.filter fun names =>
    !(names.dropLast.any isSkipped) && (names.getLast?.map isProgram).getD false
  wanted.mergeSort fun a b => (compare a b).isLE

/-- The paths of the programs at or below a path, none if nothing is there. -/
def discover? (t : FileTree) (root : String) : Option (List String) :=
  (t.find? root).map fun names =>
    match t.fileOf? names with
    | some _ => if (names.getLast?.map isProgram).getD false then [root] else []
    | none => (t.programsBelow names).map fun below => below.foldl joinPath root

end FileTree

end QueryTaint
