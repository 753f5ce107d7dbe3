import QueryTaint.Yaml.Text

/-!
# Tokens of a YAML text

Indentation is made explicit: a block starts and ends with a token of its own. What turns out to be
a key once its colon is seen gets the token of a key put before it; until then its place is kept.
Tags are not read.
-/

namespace QueryTaint.Yaml

/-- A token. -/
inductive Token where
  | directive | documentStart | documentEnd
  | sequenceStart | mappingStart | blockEnd
  | flowSequenceStart | flowSequenceEnd | flowMappingStart | flowMappingEnd
  | entry | flowEntry | key | value
  | scalar (plain : Bool) (text : String)
  | anchor (name : String)
  | reference (name : String)
deriving DecidableEq, Repr, Inhabited

/-- A token that may turn out to start a key, and whether it has to. -/
structure KeyPlace where
  token : Nat
  line : Nat
  column : Nat
  index : Nat
  required : Bool
deriving Inhabited

/-- What has been read: the tokens, the columns of the open blocks, whether a key may start here,
and the possible keys at each level of brackets, the innermost first. -/
structure Scan where
  cursor : Cursor
  tokens : List Token := []
  indents : List Nat := []
  keyAllowed : Bool := true
  keys : List (Option KeyPlace) := [none]
deriving Inhabited

namespace Scan

/-- Whether a bracket is open. -/
def inFlow (s : Scan) : Bool := 1 < s.keys.length

/-- The first column that is inside of the innermost block. -/
def inside (s : Scan) : Nat :=
  match s.indents with
  | [] => 0
  | column :: _ => column + 1

/-- Adds a token. -/
def push (s : Scan) (t : Token) : Scan := { s with tokens := s.tokens ++ [t] }

/-- Adds a token that some characters make. -/
def take (s : Scan) (t : Token) (n : Nat) : Scan :=
  { s.push t with cursor := s.cursor.skip n }

/-! ## Blocks -/

/-- Ends the blocks that are indented by more than some columns, or all of them. -/
def closeBlocks (s : Scan) (column : Option Nat) : Scan :=
  if s.inFlow then s
  else
    let isOpen (indent : Nat) : Bool :=
      match column with
      | some column => decide (column < indent)
      | none => true
    let closed := s.indents.takeWhile isOpen
    { s with
      indents := s.indents.dropWhile isOpen
      tokens := s.tokens ++ List.replicate closed.length Token.blockEnd }

/-- Starts a block at a column, unless it is that of the innermost block; the token is put before
one that was read already, or at the end. -/
def openBlock (s : Scan) (column : Nat) (at? : Option Nat) (t : Token) : Scan :=
  if s.inFlow || column < s.inside then s
  else
    let place := at?.getD s.tokens.length
    { s with
      indents := column :: s.indents
      tokens := s.tokens.take place ++ t :: s.tokens.drop place }

/-! ## Possible keys -/

/-- Gives up the possible keys that the cursor is too far from. -/
def dropStale? (s : Scan) : Option Scan :=
  let stale (k : KeyPlace) : Bool :=
    k.line < s.cursor.line || k.index + 1024 < s.cursor.index
  if s.keys.any fun k => (k.map fun k => stale k && k.required).getD false then none
  else some { s with keys := s.keys.map (·.filter (!stale ·)) }

/-- Gives up the possible key at the innermost level. -/
def dropKey? (s : Scan) : Option Scan :=
  match s.keys with
  | some k :: rest => if k.required then none else some { s with keys := none :: rest }
  | _ => some s

/-- Keeps the place of a possible key. -/
def keepKey? (s : Scan) : Option Scan :=
  if s.keyAllowed then do
    let s ← s.dropKey?
    let required := !s.inFlow && s.indents.head? = some s.cursor.column
    return { s with keys := some ⟨s.tokens.length, s.cursor.line, s.cursor.column, s.cursor.index,
      required⟩ :: s.keys.drop 1 }
  else some s

/-! ## Reading tokens -/

/-- Skips blanks, comments and ends of lines. -/
def skipBlanks : Nat → Scan → Scan
  | 0, s => s
  | steps + 1, s =>
    let blank (c : Char) : Bool := c = ' ' || (c = '\t' && (s.inFlow || !s.keyAllowed))
    let (_, c) := s.cursor.takeWhile blank
    let c := if c.sees '#' then (c.takeWhile (!isBreak ·)).2 else c
    if c.atBreak then
      skipBlanks steps { s with cursor := c.nextLine.2, keyAllowed := s.keyAllowed || !s.inFlow }
    else { s with cursor := c }

/-- Reads a mark of a document. -/
def mark? (s : Scan) (t : Token) : Option Scan := do
  let s ← (s.closeBlocks none).dropKey?
  return { s.take t 3 with keyAllowed := false }

/-- Reads a directive: the version of the format. -/
def directive? (s : Scan) : Option Scan := do
  let s ← (s.closeBlocks none).dropKey?
  let (line, c) := s.cursor.takeWhile (!isBreak ·)
  let words := ((String.ofList (line.takeWhile (· ≠ '#'))).splitOn " ").filter (· ≠ "")
  if words ∈ [["%YAML", "1.1"], ["%YAML", "1.2"]] then
    return { s.push .directive with cursor := c, keyAllowed := false }
  else none

/-- Reads an opening bracket. -/
def openFlow? (s : Scan) (t : Token) : Option Scan := do
  let s ← s.keepKey?
  return { s.take t 1 with keys := none :: s.keys, keyAllowed := true }

/-- Reads a closing bracket. -/
def closeFlow? (s : Scan) (t : Token) : Option Scan := do
  let s ← s.dropKey?
  return { s.take t 1 with
    keys := if s.inFlow then s.keys.drop 1 else s.keys
    keyAllowed := false }

/-- Reads a comma. -/
def flowEntry? (s : Scan) : Option Scan := do
  let s ← s.dropKey?
  return { s.take .flowEntry 1 with keyAllowed := true }

/-- Reads the dash of an entry. -/
def entry? (s : Scan) : Option Scan :=
  if !s.inFlow && !s.keyAllowed then none
  else do
    let s ← (s.openBlock s.cursor.column none .sequenceStart).dropKey?
    return { s.take .entry 1 with keyAllowed := true }

/-- Reads the question mark of a key. -/
def key? (s : Scan) : Option Scan :=
  if !s.inFlow && !s.keyAllowed then none
  else do
    let s ← (s.openBlock s.cursor.column none .mappingStart).dropKey?
    return { s.take .key 1 with keyAllowed := !s.inFlow }

/-- Reads the colon of a value. -/
def value? (s : Scan) : Option Scan :=
  match s.keys with
  | some k :: rest =>
    let s := { s with
      keys := none :: rest
      tokens := s.tokens.take k.token ++ Token.key :: s.tokens.drop k.token
      keyAllowed := false }
    some ((s.openBlock k.column (some k.token) .mappingStart).take .value 1)
  | _ =>
    if s.inFlow then some { s.take .value 1 with keyAllowed := false }
    else if !s.keyAllowed then none
    else some { (s.openBlock s.cursor.column none .mappingStart).take .value 1 with
      keyAllowed := true }

/-- Reads the name of an anchor or of a reference to one. -/
def name? (s : Scan) (token : String → Token) : Option Scan := do
  let s ← s.keepKey?
  let (name, c) := (s.cursor.skip 1).takeWhile fun c => c.isAlphanum || c = '_' || c = '-'
  let ends := c.endsAt 0 || c.seesAny 0 ['?', ':', ',', ']', '\x7d', '%', '@', '\x60']
  if name.isEmpty || !ends then none
  else return { s.push (token (String.ofList name)) with cursor := c, keyAllowed := false }

/-- Reads a block scalar. -/
def block? (s : Scan) (literal : Bool) : Option Scan := do
  let s ← s.dropKey?
  let (text, c) ← readBlock? literal s.inside (s.cursor.skip 1)
  return { s.push (.scalar false text) with cursor := c, keyAllowed := true }

/-- Reads a quoted scalar. -/
def quoted? (s : Scan) (quote : Char) : Option Scan := do
  let s ← s.keepKey?
  let (text, c) ← readQuoted? quote (s.cursor.rest.length + 1) [] (s.cursor.skip 1)
  return { s.push (.scalar false text) with cursor := c, keyAllowed := false }

/-- Reads a plain scalar. -/
def plain? (s : Scan) : Option Scan := do
  let s ← s.keepKey?
  let (text, ended, c) ←
    readPlain? s.inFlow s.inside (s.cursor.rest.length + 1) [] {} s.cursor
  return { s.push (.scalar true text) with cursor := c, keyAllowed := ended }

/-- Characters that start no plain scalar. -/
def indicators : List Char :=
  ['-', '?', ':', ',', '[', ']', '\x7b', '\x7d', '#', '&', '*', '!', '|', '>', '\'', '"', '%',
    '@', '\x60']

/-- Whether a plain scalar starts with a character at the cursor. -/
def startsPlain (s : Scan) (char : Char) : Bool :=
  let next := (s.cursor.at? 1).map isGap
  (!(isGap char || isBreak char) && !(indicators.contains char))
    || (char = '-' && next ≠ some true)
    || (!s.inFlow && (char = '?' || char = ':') && !s.cursor.endsAt 1)

/-- Reads the token that a character at the cursor starts. -/
def token? (s : Scan) (char : Char) : Option Scan :=
  let spaced := s.cursor.endsAt 1
  if s.cursor.column = 0 && char = '%' then s.directive?
  else if s.cursor.atMark then s.mark? (if char = '-' then .documentStart else .documentEnd)
  else if char = '[' then s.openFlow? .flowSequenceStart
  else if char = '\x7b' then s.openFlow? .flowMappingStart
  else if char = ']' then s.closeFlow? .flowSequenceEnd
  else if char = '\x7d' then s.closeFlow? .flowMappingEnd
  else if char = ',' then s.flowEntry?
  else if char = '-' && spaced then s.entry?
  else if char = '?' && (s.inFlow || spaced) then s.key?
  else if char = ':' && (s.inFlow || spaced) then s.value?
  else if char = '*' then s.name? .reference
  else if char = '&' then s.name? .anchor
  else if char = '|' && !s.inFlow then s.block? true
  else if char = '>' && !s.inFlow then s.block? false
  else if char = '\'' || char = '"' then s.quoted? char
  else if s.startsPlain char then s.plain?
  else none

/-- Reads tokens to the end of the text. -/
def all? : Nat → Scan → Option (List Token)
  | 0, _ => none
  | steps + 1, s => do
    let s ← (skipBlanks (s.cursor.rest.length + 1) s).dropStale?
    match s.cursor.peek? with
    | none => return (← (s.closeBlocks none).dropKey?).tokens
    | some char => all? steps (← (s.closeBlocks (some s.cursor.column)).token? char)

end Scan

/-- The tokens of a text. -/
def tokens? (text : String) : Option (List Token) :=
  let chars := match text.toList with
    | '\ufeff' :: rest => rest
    | chars => chars
  if chars.all isPrintable then Scan.all? (chars.length + 1) { cursor := { rest := chars } }
  else none

end QueryTaint.Yaml
