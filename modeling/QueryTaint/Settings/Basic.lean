import QueryTaint.Syntax.Operator
import QueryTaint.Walk.Explore
import QueryTaint.Yaml.Basic

/-!
# Settings

What a run of the analysis can be told, the presets that settings start from, and the ranges they
have to keep.
-/

namespace QueryTaint

/-- A solver for the conditions of walks. -/
inductive SolverKind where
  | lightweight | z3
deriving DecidableEq, Repr, Inhabited

/-- The name of a solver. -/
def SolverKind.name : SolverKind → String
  | lightweight => "lightweight"
  | z3 => "z3"

/-- A set of settings to start from. -/
inductive Preset where
  | fast | balanced | thorough | custom
deriving DecidableEq, Repr, Inhabited

/-- The name of a preset. -/
def Preset.name : Preset → String
  | fast => "fast"
  | balanced => "balanced"
  | thorough => "thorough"
  | custom => "custom"

/-- Why settings cannot be used. -/
inductive SettingsError where
  | range (field : String) (value low high : Nat) (hint : String)
  | missingVersion
  | unsupportedVersion (found : Nat)
  | unknownPreset (name : String)
  | unknownSolver (name : String)
  | solverNotBuilt
  | unreadable
  | malformed
  | malformedAutoload
deriving DecidableEq, Repr

/-- The wording of an error. -/
def SettingsError.message : SettingsError → String
  | range field value low high hint =>
    "Invalid range for field '" ++ field ++ "': " ++ toString value ++ " not in " ++ toString low
      ++ "..=" ++ toString high ++ ". " ++ hint
  | missingVersion =>
    "Missing 'version' field in configuration file. Add 'version: 1' to the top of your YAML file."
  | unsupportedVersion found =>
    "Unsupported configuration version " ++ toString found ++ ". Supported versions: 1"
  | unknownPreset name =>
    "Unknown preset '" ++ name ++ "'. Valid presets: fast, balanced, thorough, custom"
  | unknownSolver name => "Unknown solver '" ++ name ++ "'. Valid solvers: lightweight, z3"
  | solverNotBuilt =>
    "Validation error: solver 'z3' requires building with the \x60z3\x60 feature"
  | unreadable => "IO error"
  | malformed => "YAML parsing error"
  | malformedAutoload => "Autoload configuration error"

/-- The word for the kind of an error. -/
def SettingsError.word : SettingsError → String
  | range .. => "Range"
  | missingVersion => "MissingVersion"
  | unsupportedVersion _ => "UnsupportedVersion"
  | unknownPreset _ => "UnknownPreset"
  | unknownSolver _ => "UnknownSolver"
  | solverNotBuilt => "Validation"
  | unreadable => "Io"
  | malformed => "Yaml"
  | malformedAutoload => "Autoload"

/-- The solver of a name, in either case. -/
def SolverKind.ofName? (name : String) : Except SettingsError SolverKind :=
  match [lightweight, z3].find? (·.name == lowerAscii name) with
  | some kind => .ok kind
  | none => .error (.unknownSolver name)

/-- The preset of a name, in either case. -/
def Preset.ofName? (name : String) : Except SettingsError Preset :=
  match [fast, balanced, thorough, custom].find? (·.name == lowerAscii name) with
  | some preset => .ok preset
  | none => .error (.unknownPreset name)

/-- The settings of a run: how deep calls are entered, how many walks are made, how long the solver
may take in milliseconds and which it is, whether route registrations are sources, whether programs
are checked, and whether files are read in parallel. -/
structure Settings where
  maxDepth : Nat
  maxPaths : Nat
  solverTimeout : Nat
  solver : SolverKind
  laravel : Bool
  verify : Bool
  parallel : Bool
deriving DecidableEq, Repr, Inhabited

namespace Settings

/-- The settings of a preset. -/
def ofPreset : Preset → Settings
  | .fast => ⟨5, 1000, 200, .lightweight, false, false, true⟩
  | .balanced | .custom => ⟨20, 10000, 1000, .lightweight, false, true, true⟩
  | .thorough => ⟨100, 200000, 10000, .lightweight, false, true, true⟩

/-- The settings of a run that was told nothing. -/
def standard : Settings := ofPreset .balanced

/-- The limits of exploring. -/
def limits (s : Settings) : Limits := ⟨s.maxDepth, s.maxPaths⟩

/-- Checks that a value keeps its range. -/
def checkRange (field : String) (value low high : Nat) (hint : String) :
    Except SettingsError Unit :=
  if low ≤ value ∧ value ≤ high then .ok () else .error (.range field value low high hint)

/-- Checks all ranges, and that the solver is there. -/
def validate (s : Settings) : Except SettingsError Unit := do
  checkRange "max_depth" s.maxDepth 1 1000 "Call depth must be at least 1"
  checkRange "max_paths" s.maxPaths 1 1000000 "Number of enumerated paths must be reasonable"
  checkRange "solver_timeout_ms" s.solverTimeout 1 600000
    "Solver timeout should be at most 10 minutes"
  if s.solver = .z3 then throw .solverNotBuilt

/-- What settings are called. -/
def title : String := "AnalysisConfig"

end Settings

/-- Settings that replace those of a preset. -/
structure Overriding where
  maxDepth : Option Nat := none
  maxPaths : Option Nat := none
  solverTimeout : Option Nat := none
  solver : Option SolverKind := none
  laravel : Option Bool := none
  verify : Option Bool := none
  parallel : Option Bool := none
deriving DecidableEq, Repr, Inhabited

/-- Replaces settings by those that are given. -/
def Settings.override (s : Settings) (o : Overriding) : Settings where
  maxDepth := o.maxDepth.getD s.maxDepth
  maxPaths := o.maxPaths.getD s.maxPaths
  solverTimeout := o.solverTimeout.getD s.solverTimeout
  solver := o.solver.getD s.solver
  laravel := o.laravel.getD s.laravel
  verify := o.verify.getD s.verify
  parallel := o.parallel.getD s.parallel

end QueryTaint

/-!
# Files of settings

Settings are kept in a YAML file that names the version of its form, a preset, and settings that
replace those of the preset. What is written can be read again.
-/

namespace QueryTaint

/-- The only version of the form. -/
def Settings.version : Nat := 1

/-- The version that a file is for. Versions have 32 bits. -/
def Settings.checkVersion (y : Yaml) : Except SettingsError Unit :=
  match (y.get? "version").bind Yaml.nat? with
  | none => .error .missingVersion
  | some n =>
    let found := n % Nat.pow 2 32
    if found = version then .ok () else .error (.unsupportedVersion found)

/-- The names of settings. -/
def Overriding.names : List String :=
  ["max_depth", "max_paths", "solver_timeout_ms", "solver", "laravel", "verify_ir", "parallel"]

/-- The solver of a name as it is written in files. -/
def SolverKind.ofYaml? : Yaml → Option SolverKind
  | .string "lightweight" => some .lightweight
  | .string "z3" => some .z3
  | _ => none

/-- Reads the settings that replace others. -/
def Overriding.ofYaml? (y : Yaml) : Option Overriding := do
  match ← y.record? names with
  | [depth, paths, timeout, solver, laravel, verify, parallel] =>
    return {
      maxDepth := ← Yaml.optional? Yaml.nat? depth
      maxPaths := ← Yaml.optional? Yaml.nat? paths
      solverTimeout := ← Yaml.optional? Yaml.nat? timeout
      solver := ← Yaml.optional? SolverKind.ofYaml? solver
      laravel := ← Yaml.optional? Yaml.bool? laravel
      verify := ← Yaml.optional? Yaml.bool? verify
      parallel := ← Yaml.optional? Yaml.bool? parallel }
  | _ => none

/-- Reads the name of the preset, and what replaces its settings. -/
def Settings.partsOf? (y : Yaml) : Option (String × Overriding) := do
  match ← y.record? ["version", "preset", "overrides"] with
  | [some found, some preset, overrides] =>
    if (← found.nat?) < Nat.pow 2 32 then
      return (← preset.string?, (← Yaml.optional? Overriding.ofYaml? overrides).getD {})
    else none
  | _ => none

/-- Reads settings, which have to keep their ranges. -/
def Settings.read (text : String) : Except SettingsError Settings := do
  match Yaml.read? text with
  | none => throw .malformed
  | some y =>
    checkVersion y
    match partsOf? y with
    | none => throw .malformed
    | some (preset, overriding) =>
      let settings := (ofPreset (← Preset.ofName? preset)).override overriding
      settings.validate
      return settings

/-- How a truth value is written. -/
def Settings.flagText (b : Bool) : String := if b then "true" else "false"

/-- The text of settings: all of them replace those of a preset. -/
def Settings.text (s : Settings) (preset : Preset) : String :=
  let fields := [toString s.maxDepth, toString s.maxPaths, toString s.solverTimeout, s.solver.name,
    flagText s.laravel, flagText s.verify, flagText s.parallel]
  "version: " ++ toString version ++ "\npreset: " ++ preset.name ++ "\noverrides:\n"
    ++ String.join ((Overriding.names.zip fields).map fun (name, field) =>
      "  " ++ name ++ ": " ++ field ++ "\n")

end QueryTaint
