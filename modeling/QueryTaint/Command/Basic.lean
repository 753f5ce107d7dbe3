import QueryTaint.Command.Options
import QueryTaint.Project.Basic
import QueryTaint.Report.Basic
import QueryTaint.Settings.Basic

/-!
# The command

What the command does on a tree of files, given its arguments: the exit code, what it prints, and
the file it writes. The report goes to the output, and the program's text, if it is asked for, to
the messages.
-/

namespace QueryTaint.Command

/-- What a run of the command did; the file it wrote is in the tree. -/
structure Outcome where
  exit : Nat
  output : String := ""
  messages : String := ""
  written : Option (String × String) := none
  tree : FileTree

/-- The exit code of a run that failed. -/
def failed : Nat := 1

/-- The exit code of a command line that does not fit. -/
def misused : Nat := 2

/-- The text of the version. -/
def versionText : String := "sqlitaint 0.1.0\n"

/-- The text of the help. -/
def helpText : String := "\n".intercalate [
  "SQL injection taint analysis for PHP projects",
  "",
  "Usage: sqlitaint [OPTIONS] <DIR>",
  "",
  "Arguments:",
  "  <DIR>  Project root to scan",
  "",
  "Options:",
  "      --config <FILE>  YAML configuration file (v1)",
  "      --preset <NAME>  Preset used when no config file is given: fast, balanced, thorough, custom",
  "  -o, --output <FILE>  Write the report here instead of stdout",
  "      --solver <NAME>  Solver backend: lightweight or z3",
  "      --laravel        Treat Laravel routes as input sources",
  "      --dump-ir        Print the simplified IR of every file to stderr",
  "  -v, --verbose        Debug logging",
  "  -h, --help           Print help",
  "  -V, --version        Print version",
  ""]

/-- The settings that a file, or else a preset, gives. -/
def baseSettings (tree : FileTree) (o : Options) : Except SettingsError Settings :=
  match o.config, o.preset with
  | some path, _ =>
    match tree.readText? path with
    | some text => Settings.read text
    | none => .error .unreadable
  | none, some name => Settings.ofPreset <$> Preset.ofName? name
  | none, none => .ok .standard

/-- The settings of a run. -/
def settings (tree : FileTree) (o : Options) : Except SettingsError Settings := do
  let base ← baseSettings tree o
  let solver ← o.solver.mapM SolverKind.ofName?
  let settings := base.override { solver, laravel := if o.laravel then some true else none }
  settings.validate
  return settings

/-- A run that failed with a message. -/
def failure (tree : FileTree) (message : String) : Outcome :=
  { exit := failed, messages := message ++ "\n", tree }

/-- Gives the report of a scan away. -/
def deliver (tree : FileTree) (o : Options) (scan : ScanOutcome) : Outcome :=
  let messages := (scan.dump.map (· ++ "\n")).getD ""
  let text := scan.report.text
  match o.output with
  | none => { exit := 0, output := text ++ "\n", messages, tree }
  | some path =>
    match tree.write? path text with
    | some tree => { exit := 0, messages, written := some (path, text), tree }
    | none => { exit := failed, messages := messages ++ "cannot write " ++ path ++ "\n", tree }

/-- Scans a project. -/
def scan (tree : FileTree) (o : Options) : Outcome :=
  match settings tree o with
  | .error e => failure tree ("Configuration error: " ++ e.message)
  | .ok settings =>
    match (Project.mk tree o.dir settings o.dumpIr).scan? with
    | none => failure tree ("cannot read " ++ o.dir)
    | some (.error e) => failure tree e.message
    | some (.ok outcome) => deliver tree o outcome

/-- Runs the command. -/
def run (tree : FileTree) (args : List String) : Outcome :=
  match Options.parse args with
  | .error .help => { exit := 0, output := helpText, tree }
  | .error .version => { exit := 0, output := versionText, tree }
  | .error (.misuse fault) => { exit := misused, messages := fault.message ++ "\n", tree }
  | .ok o => scan tree o

end QueryTaint.Command
