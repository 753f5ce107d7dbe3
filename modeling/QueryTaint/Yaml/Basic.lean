import QueryTaint.Number.Numeric
import QueryTaint.Yaml.Token

/-!
# YAML

The value of a YAML text that holds one document. A plain scalar is null, a truth value or a number
if it is written like one; a mapping has each key once.
-/

namespace QueryTaint

/-- A YAML value. A number that is no integer is only known by its text. -/
inductive Yaml where
  | null
  | bool (b : Bool)
  | int (n : Int)
  | float (text : String)
  | string (s : String)
  | sequence (items : List Yaml)
  | mapping (entries : List (Yaml × Yaml))
deriving Repr, Inhabited

namespace Yaml

/-! ## Equality -/

mutual

/-- Whether two values are equal. -/
def same : Yaml → Yaml → Bool
  | null, null => true
  | bool a, bool b => a == b
  | int a, int b => a == b
  | float a, float b => a == b
  | string a, string b => a == b
  | sequence a, sequence b => sameItems a b
  | mapping a, mapping b => sameEntries a b
  | _, _ => false

/-- Whether two lists of items are equal. -/
def sameItems : List Yaml → List Yaml → Bool
  | [], [] => true
  | a :: as, b :: bs => same a b && sameItems as bs
  | _, _ => false

/-- Whether two lists of entries are equal. -/
def sameEntries : List (Yaml × Yaml) → List (Yaml × Yaml) → Bool
  | [], [] => true
  | (k, v) :: as, (l, w) :: bs => same k l && same v w && sameEntries as bs
  | _, _ => false

end

/-! ## Plain scalars -/

/-- Whether a scalar is digits after a zero, which is no number. -/
def isPadded (cs : List Char) : Bool :=
  match (readSign cs).2 with
  | '0' :: c :: rest => (c :: rest).all Char.isDigit
  | _ => false

/-- The digits of an integer without its sign, with the base that its start announces. -/
def readMagnitude? : List Char → Option Nat
  | '0' :: 'x' :: rest => readBase? 16 rest
  | '0' :: 'o' :: rest => readBase? 8 rest
  | '0' :: 'b' :: rest => readBase? 2 rest
  | cs => readBase? 10 cs

/-- The integer that a scalar is. -/
def readInt? (cs : List Char) : Option Int :=
  if isPadded cs then none
  else
    let (negative, digits) := readSign cs
    (readMagnitude? digits).map fun n => if negative then -(n : Int) else n

/-- Whether a scalar is a number with a fraction or an exponent, or one of the special numbers. -/
def isFloat (text : String) : Bool :=
  !isPadded text.toList &&
    (text ∈ [".inf", ".Inf", ".INF", "+.inf", "+.Inf", "+.INF", "-.inf", "-.Inf", "-.INF", ".nan",
        ".NaN", ".NAN"]
      || match readDecimal? text with
        | some x => x.isFinite
        | none => false)

/-- Whether an integer is in the range of words: one with a sign if it is negative, and one without
otherwise. -/
def isWithin (signed unsigned : Nat) : Int → Bool
  | .ofNat n => n < Nat.pow 2 unsigned
  | .negSucc n => n < Nat.pow 2 signed

/-- The value of a plain scalar. Integers have 64 bits; those that have more but not over 128 are
refused, and larger ones are other numbers. -/
def ofPlain? (text : String) : Option Yaml :=
  if text ∈ ["", "~", "null", "Null", "NULL"] then some null
  else if text ∈ ["true", "True", "TRUE"] then some (bool true)
  else if text ∈ ["false", "False", "FALSE"] then some (bool false)
  else
    match readInt? text.toList with
    | some n =>
      if isWithin 63 64 n then some (int n)
      else if isWithin 127 128 n then none
      else if isFloat text then some (float text)
      else some (string text)
    | none => some (if isFloat text then float text else string text)

/-! ## Documents -/

/-- What is left to read, and the values that have names. -/
structure Reader where
  tokens : List Token
  anchors : List (String × Yaml) := []

/-- Reading from tokens, which can fail. -/
abbrev Reading (α : Type) := StateT Reader Option α

/-- The next token. -/
def peek : Reading (Option Token) := return (← get).tokens.head?

/-- Passes over the next token. -/
def advance : Reading Unit := modify fun r => { r with tokens := r.tokens.drop 1 }

/-- Passes over a token that has to be next. -/
def expect (t : Token) : Reading Unit := do
  if (← peek) = some t then advance else failure

/-- Whether one of these tokens is next. -/
def isNext (ts : List Token) : Reading Bool := do
  match ← peek with
  | some t => return decide (t ∈ ts)
  | none => return false

/-- The entries of a mapping, if no key is there twice. -/
def distinct? : List (Yaml × Yaml) → Option (List (Yaml × Yaml))
  | [] => some []
  | (key, value) :: rest => do
    if rest.any (·.1.same key) then none
    else return (key, value) :: (← distinct? rest)

/-- The name that an anchor gives to the value after it. -/
def anchor : Reading (Option String) := do
  match ← peek with
  | some (.anchor name) => advance; return some name
  | _ => return none

/-- The value of nothing, which needs a name. -/
def empty (named : Bool) : Reading Yaml := if named then return null else failure

mutual

/-- Reads a value. Blocks are only read outside of brackets, and a sequence without indentation
only in a mapping. -/
def node (block inMapping : Bool) : Nat → Reading Yaml
  | 0 => failure
  | steps + 1 => do
    match ← peek with
    | some (.reference name) =>
      advance
      (((← get).anchors.find? (·.1 == name)).map (·.2) : Option Yaml)
    | _ =>
      let name ← anchor
      let value ← content block inMapping name.isSome steps
      match name with
      | some name => modify fun r => { r with anchors := (name, value) :: r.anchors }
      | none => pure ()
      return value

/-- Reads what a value consists of; a value with a name may consist of nothing. -/
def content (block inMapping named : Bool) : Nat → Reading Yaml
  | 0 => failure
  | steps + 1 => do
    match ← peek with
    | some (.scalar plain text) =>
      advance
      if plain then (ofPlain? text : Option Yaml) else return string text
    | some .flowSequenceStart => advance; return sequence (← flowItems true steps)
    | some .flowMappingStart => advance; return mapping (← distinct? (← flowFields true steps))
    | some .sequenceStart =>
      if block then
        advance
        let items ← items [.entry, .blockEnd] steps
        expect .blockEnd
        return sequence items
      else empty named
    | some .mappingStart =>
      if block then advance; return mapping (← distinct? (← fields steps)) else empty named
    | some .entry =>
      if inMapping then return sequence (← items [.entry, .key, .value, .blockEnd] steps)
      else empty named
    | _ => empty named

/-- Reads a value, or nothing before one of some tokens. -/
def nodeUnless (stops : List Token) (block inMapping : Bool) : Nat → Reading Yaml
  | 0 => failure
  | steps + 1 => do
    if ← isNext stops then return null else node block inMapping steps

/-- Reads the items of a block sequence. -/
def items (stops : List Token) : Nat → Reading (List Yaml)
  | 0 => failure
  | steps + 1 => do
    if ← isNext [.entry] then
      advance
      let item ← nodeUnless stops true false steps
      return item :: (← items stops steps)
    else return []

/-- Reads the fields of a block mapping. -/
def fields : Nat → Reading (List (Yaml × Yaml))
  | 0 => failure
  | steps + 1 => do
    if ← isNext [.key] then
      advance
      let stops : List Token := [.key, .value, .blockEnd]
      let key ← nodeUnless stops true true steps
      let value ← if ← isNext [.value] then
          advance
          nodeUnless stops true true steps
        else pure null
      return (key, value) :: (← fields steps)
    else
      expect .blockEnd
      return []

/-- Reads the items between brackets. -/
def flowItems (first : Bool) : Nat → Reading (List Yaml)
  | 0 => failure
  | steps + 1 => do
    if ← isNext [.flowSequenceEnd] then advance; return []
    else
      if !first then expect .flowEntry
      if ← isNext [.flowSequenceEnd] then advance; return []
      else
        let item ← if ← isNext [.key] then
            pure (mapping [← flowPair [.flowSequenceEnd] steps])
          else node false false steps
        return item :: (← flowItems false steps)

/-- Reads a key and its value between brackets. -/
def flowPair (closing : List Token) : Nat → Reading (Yaml × Yaml)
  | 0 => failure
  | steps + 1 => do
    expect .key
    let key ← nodeUnless (.value :: .flowEntry :: closing) false false steps
    let value ← if ← isNext [.value] then
        advance
        nodeUnless (.flowEntry :: closing) false false steps
      else pure null
    return (key, value)

/-- Reads the fields between braces; a key may have no value. -/
def flowFields (first : Bool) : Nat → Reading (List (Yaml × Yaml))
  | 0 => failure
  | steps + 1 => do
    if ← isNext [.flowMappingEnd] then advance; return []
    else
      if !first then expect .flowEntry
      if ← isNext [.flowMappingEnd] then advance; return []
      else
        let field ← if ← isNext [.key] then flowPair [.flowMappingEnd] steps
          else do
            let key ← node false false steps
            pure (key, null)
        return field :: (← flowFields false steps)

end

/-- Reads the only document of a text; one that is empty is null. -/
def document (steps : Nat) : Reading Yaml := do
  let directive ← isNext [.directive]
  if directive then advance
  let value ← if ← isNext [.documentStart] then do
      advance
      match ← peek with
      | none => pure null
      | some _ => nodeUnless [.directive, .documentStart, .documentEnd] true false steps
    else if directive then failure
    else
      match ← peek with
      | none => pure null
      | some _ => node true false steps
  modify fun r => { r with tokens := r.tokens.dropWhile (· = .documentEnd) }
  match ← peek with
  | none => return value
  | some _ => failure

/-- Reads a text that holds one document. -/
def read? (text : String) : Option Yaml := do
  let tokens ← tokens? text
  ((document (4 * tokens.length + 4)).run { tokens }).map (·.1)

/-! ## Taking values apart -/

/-- The value of a key of a mapping. -/
def get? (y : Yaml) (key : String) : Option Yaml :=
  match y with
  | mapping entries => (entries.find? (·.1.same (string key))).map (·.2)
  | _ => none

/-- The natural number that a value is. -/
def nat? : Yaml → Option Nat
  | int n => if 0 ≤ n then some n.toNat else none
  | _ => none

/-- The string that a value is. -/
def string? : Yaml → Option String
  | string s => some s
  | _ => none

/-- The truth value that a value is. -/
def bool? : Yaml → Option Bool
  | bool b => some b
  | _ => none

/-- The fields of a record, given by their names: a mapping that has no other keys, or a sequence
of all fields in order. -/
def record? (names : List String) : Yaml → Option (List (Option Yaml))
  | y@(mapping entries) =>
    if entries.all fun (key, _) => (key.string?.map names.contains).getD false then
      some (names.map y.get?)
    else none
  | sequence items => if items.length = names.length then some (items.map some) else none
  | _ => none

/-- A value that may be missing or null. -/
def optional? {α : Type} (f : Yaml → Option α) : Option Yaml → Option (Option α)
  | none => some none
  | some null => some none
  | some y => (f y).map some

end Yaml

end QueryTaint
