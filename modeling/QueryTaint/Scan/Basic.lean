import QueryTaint.Concrete.File
import QueryTaint.Ir.Print
import QueryTaint.Ir.Verify
import QueryTaint.Prepass.Basic
import QueryTaint.Report.Basic
import QueryTaint.Settings.Basic
import QueryTaint.Walk.Entry

/-!
# Scanning files

A scan reads files, lowers them into one program, walks through it, and reports the findings. A file
that fails is listed and left out; a program that breaks an invariant fails the scan.
-/

namespace QueryTaint

/-! ## Files -/

/-- A file to scan: its path, its bytes, and the concrete tree of its text. A file without a tree
holds no code. -/
structure ScanFile where
  path : String
  bytes : ByteArray
  tree : Option (Concrete.Tree Concrete.Label)

namespace ScanFile

/-- The text of a file; every byte keeps its offset. -/
def text (f : ScanFile) : String := (Utf8.decodeInPlace f.bytes).text

/-- The statements of a file. -/
def parse (f : ScanFile) : Except Error SourceFile :=
  match f.tree with
  | some tree => Concrete.parseFile f.path f.text tree
  | none => .ok ⟨f.path, f.text, []⟩

/-- The statements of a file after some passes, and the labels made. -/
def prepare (passes : List Prepass.Pass) (f : ScanFile) : Except Error (List Stmt × Labels) := do
  Prepass.runPasses f.path passes (← f.parse).stmts

end ScanFile

/-- Lowers one more file after some passes. -/
def Program.addFile (passes : List Prepass.Pass) (p : Program) (f : ScanFile) : Program :=
  p.add f.path (f.prepare passes)

/-! ## Classes that are loaded on demand -/

/-- The names of the classes that a script makes objects of or calls methods of, each once. -/
def Program.classesOf (p : Program) (s : Script) : List String :=
  let name? (op : OpId) : Option String :=
    match (p.arena.op op).kind with
    | .new cls .. | .staticCall cls .. => p.arena.stringOf? cls
    | _ => none
  (s.ordered.flatMap fun f => (p.arena.func f).blocks.flatMap fun b =>
    (p.arena.block b).ops.filterMap name?).foldl addNew []

/-- Lets a script include the files of its classes, as far as they are scripts of the program. -/
def Program.includeClasses (p : Program) (fileOf? : String → Option String) (s : Script) : Script :=
  (p.classesOf s).foldl (fun s cls =>
    match (fileOf? cls).map normalizePath with
    | some path =>
      if path ≠ s.path && p.scripts.any (·.path == path) then s.addInclude path else s
    | none => s) s

/-- Lets every script include the files of its classes. -/
def Program.autoload (p : Program) (fileOf? : String → Option String) : Program :=
  { p with scripts := p.scripts.map (p.includeClasses fileOf?) }

/-- How many files the scripts include. -/
def Program.includeCount (p : Program) : Nat := (p.scripts.flatMap (·.includes)).length

/-! ## Scans -/

/-- Why a file was left out. -/
inductive FileFault where
  | unreadable
  | analysis (error : Error)
deriving DecidableEq, Repr

/-- What a scan counted: files, files left out, functions, files included for their classes, walks,
walks given up, whether walks are missing, and findings. -/
structure ScanStats where
  files : Nat
  skipped : Nat
  functions : Nat
  autoloaded : Nat
  walks : Nat
  pruned : Nat
  truncated : Bool
  findings : Nat
deriving DecidableEq, Repr, Inhabited

/-- What a scan gave: the report, the files left out, the text of the program if it was asked for,
and the counts. -/
structure ScanOutcome where
  report : Report
  errors : List (String × FileFault)
  dump : Option String
  stats : ScanStats
deriving Inhabited

/-- What a scan is told: the settings, whether to give the program's text, and how to find the file
of a class. -/
structure Scanner where
  settings : Settings
  dump : Bool := false
  fileOf? : String → Option String := fun _ => none

namespace Scanner

/-- The program of files, simplified, and how many files were included for their classes. -/
def program (s : Scanner) (files : List ScanFile) : Nat × Program :=
  let lowered := files.foldl (Program.addFile [.all]) {}
  let loaded := lowered.autoload s.fileOf?
  (loaded.includeCount - lowered.includeCount, loaded.optimize.2.simplify.2)

/-- Scans files, after some paths could not be read. -/
def scan (s : Scanner) (unreadable : List String) (files : List ScanFile) :
    Except Error ScanOutcome := do
  let (autoloaded, program) := s.program files
  if s.settings.verify then program.arena.verifyScripts program.scripts
  let (found, walked) :=
    program.explore s.settings.limits (Taxonomy.readsInput s.settings.laravel)
  let taint := TaintOutcome.ofWalks s.settings.laravel walked.arena found.walks
  let errors := unreadable.map (·, .unreadable)
    ++ program.errors.map fun (path, error) => (path, .analysis error)
  return {
    report := .ofFindings walked.arena (files.map fun f => (f.path, f.bytes))
      (program.scripts.map (·.path)) taint.findings.toList
    errors
    dump := if s.dump then some (program.arena.scriptsText program.scripts) else none
    stats := {
      files := unreadable.length + files.length
      skipped := errors.length
      functions := program.funcs.length
      autoloaded
      walks := found.walks.length
      pruned := found.feasibility.pruned
      truncated := found.stats.truncated
      findings := taint.findings.size } }

end Scanner

end QueryTaint
