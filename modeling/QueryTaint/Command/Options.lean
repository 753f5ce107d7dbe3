/-!
# The command line

The options of the command, read from left to right: the first word that asks for help or the
version, or that does not fit, decides.
-/

namespace QueryTaint.Command

/-- An option with a value. -/
inductive Setting where
  | config | preset | output | solver
deriving DecidableEq, Repr

/-- An option without a value. -/
inductive Flag where
  | laravel | dumpIr | verbose | help | version
deriving DecidableEq, Repr

/-- How an option is written. -/
def Setting.word : Setting → String
  | config => "--config"
  | preset => "--preset"
  | output => "--output"
  | solver => "--solver"

/-- How a flag is written. -/
def Flag.word : Flag → String
  | laravel => "--laravel"
  | dumpIr => "--dump-ir"
  | verbose => "--verbose"
  | help => "--help"
  | version => "--version"

/-- All options with values. -/
def Setting.all : List Setting := [config, preset, output, solver]

/-- All flags. -/
def Flag.all : List Flag := [laravel, dumpIr, verbose, help, version]

/-- The flag of a letter. -/
def Flag.ofLetter? : Char → Option Flag
  | 'v' => some verbose
  | 'h' => some help
  | 'V' => some version
  | _ => none

/-- Whether an option names a file, which needs a name. -/
def Setting.isPath : Setting → Bool
  | config | output => true
  | preset | solver => false

/-- What is wrong with a command line. -/
inductive Misuse where
  | unexpected (word : String)
  | missingValue (word : String)
  | unwantedValue (word : String)
  | repeated (word : String)
  | missingDir
deriving DecidableEq, Repr

/-- The wording of a misuse. -/
def Misuse.message : Misuse → String
  | unexpected word => "error: unexpected argument '" ++ word ++ "' found"
  | missingValue word => "error: a value is required for '" ++ word ++ "' but none was supplied"
  | unwantedValue word => "error: unexpected value for '" ++ word ++ "' found"
  | repeated word => "error: the argument '" ++ word ++ "' cannot be used multiple times"
  | missingDir => "error: the following required arguments were not provided:\n  <DIR>"

/-- Why reading a command line stops. -/
inductive Halt where
  | help
  | version
  | misuse (fault : Misuse)
deriving DecidableEq, Repr

/-- What has been read: the directory, options and flags, the option whose value comes next, and
whether only values follow. -/
structure Line where
  dir : Option String := none
  settings : List (Setting × String) := []
  flags : List Flag := []
  pending : Option Setting := none
  plain : Bool := false
deriving Inhabited

namespace Line

/-- Gives an option its value. -/
def set (l : Line) (s : Setting) (value : String) : Except Halt Line :=
  if l.settings.any (·.1 = s) then .error (.misuse (.repeated s.word))
  else if s.isPath && value.isEmpty then .error (.misuse (.missingValue s.word))
  else .ok { l with settings := l.settings ++ [(s, value)], pending := none }

/-- Sets a flag. -/
def raise (l : Line) (f : Flag) : Except Halt Line :=
  match f with
  | .help => .error .help
  | .version => .error .version
  | f =>
    if f ∈ l.flags then .error (.misuse (.repeated f.word))
    else .ok { l with flags := l.flags ++ [f] }

/-- Takes the directory. -/
def place (l : Line) (word : String) : Except Halt Line :=
  if l.dir.isSome then .error (.misuse (.unexpected word))
  else if word.isEmpty then .error (.misuse (.missingValue "<DIR>"))
  else .ok { l with dir := some word }

/-- Reads an option that is written out, with the value after an equals sign if there is one. -/
def long (l : Line) (word : String) (value : Option String) : Except Halt Line :=
  match Setting.all.find? (·.word == word), Flag.all.find? (·.word == word), value with
  | some s, _, some value => l.set s value
  | some s, _, none => .ok { l with pending := some s }
  | none, some f, none => l.raise f
  | none, some _, some _ => .error (.misuse (.unwantedValue word))
  | none, none, _ => .error (.misuse (.unexpected word))

/-- Reads letters after a dash; the one with a value takes what follows it. -/
def letters (l : Line) : List Char → Except Halt Line
  | [] => .ok l
  | 'o' :: [] => .ok { l with pending := some .output }
  | 'o' :: '=' :: rest => l.set .output (String.ofList rest)
  | 'o' :: rest => l.set .output (String.ofList rest)
  | c :: rest =>
    match Flag.ofLetter? c with
    | some f => do (← l.raise f).letters rest
    | none => .error (.misuse (.unexpected ("-" ++ c.toString)))

/-- Reads a word. -/
def step (l : Line) (word : String) : Except Halt Line :=
  match l.plain, l.pending, word.toList with
  | true, _, _ => l.place word
  | false, some s, '-' :: _ :: _ => .error (.misuse (.missingValue s.word))
  | false, some s, _ => l.set s word
  | false, none, ['-', '-'] => .ok { l with plain := true }
  | false, none, '-' :: '-' :: cs =>
    let name := cs.takeWhile (· ≠ '=')
    match cs.dropWhile (· ≠ '=') with
    | _ :: value => l.long ("--" ++ String.ofList name) (some (String.ofList value))
    | [] => l.long word none
  | false, none, '-' :: c :: rest => l.letters (c :: rest)
  | false, none, _ => l.place word

/-- The value of an option. -/
def value? (l : Line) (s : Setting) : Option String :=
  (l.settings.find? (·.1 = s)).map (·.2)

end Line

/-- What the command is told. -/
structure Options where
  dir : String
  config : Option String
  preset : Option String
  output : Option String
  solver : Option String
  laravel : Bool
  dumpIr : Bool
deriving DecidableEq, Repr, Inhabited

/-- Reads a command line. -/
def Options.parse (args : List String) : Except Halt Options := do
  let l ← args.foldlM Line.step {}
  match l.pending, l.dir with
  | some s, _ => throw (.misuse (.missingValue s.word))
  | none, none => throw (.misuse .missingDir)
  | none, some dir =>
    return {
      dir
      config := l.value? .config
      preset := l.value? .preset
      output := l.value? .output
      solver := l.value? .solver
      laravel := decide (.laravel ∈ l.flags)
      dumpIr := decide (.dumpIr ∈ l.flags) }

end QueryTaint.Command
