import QueryTaint.Number.Numeric
import QueryTaint.Text.Character

/-!
# JSON

JSON values, how they are written with indentation, and how they are read. An object keeps its
fields in order and with repetitions; who takes an object apart decides what a repetition means.
-/

namespace QueryTaint

/-- A JSON value. Only integers of 64 bits are kept as such; any other number is only known to be
one. So is a string in which half of a surrogate pair stands alone, since it is no text. -/
inductive Json where
  | null
  | bool (b : Bool)
  | int (n : Int)
  | float
  | string (s : String)
  | unpaired
  | array (items : List Json)
  | object (fields : List (String × Json))
deriving Repr, Inhabited

namespace Json

/-! ## Writing -/

/-- How a character is written within a string. -/
def escapeChar (c : Char) : String :=
  match c with
  | '"' => "\\\""
  | '\\' => "\\\\"
  | '\n' => "\\n"
  | '\r' => "\\r"
  | '\t' => "\\t"
  | '\x08' => "\\b"
  | '\x0c' => "\\f"
  | c => if c.toNat < 32 then "\\u" ++ hexDigits 4 c.toNat else c.toString

/-- How a string is written. -/
def stringText (s : String) : String := "\"" ++ String.join (s.toList.map escapeChar) ++ "\""

/-- A line break and the indentation of a level. -/
def newline (level : Nat) : String := "\n" ++ String.ofList (List.replicate (2 * level) ' ')

/-- Parts between two brackets, each on a line of its own. -/
def bracketed (opening closing : String) (level : Nat) (parts : List String) : String :=
  if parts.isEmpty then opening ++ closing
  else
    opening ++ newline (level + 1) ++ ("," ++ newline (level + 1)).intercalate parts
      ++ newline level ++ closing

mutual

/-- How a value is written at a level of indentation. -/
def textAt (level : Nat) : Json → String
  | null => "null"
  | bool b => if b then "true" else "false"
  | int n => toString n
  | float => "0.0"
  | string s => stringText s
  | unpaired => "\"\\ufffd\""
  | array items => bracketed "[" "]" level (itemTexts (level + 1) items)
  | object fields => bracketed "\x7b" "\x7d" level (fieldTexts (level + 1) fields)

/-- How items are written. -/
def itemTexts (level : Nat) : List Json → List String
  | [] => []
  | item :: rest => textAt level item :: itemTexts level rest

/-- How fields are written. -/
def fieldTexts (level : Nat) : List (String × Json) → List String
  | [] => []
  | (name, value) :: rest =>
    (stringText name ++ ": " ++ textAt level value) :: fieldTexts level rest

end

/-- How a value is written. -/
def text (j : Json) : String := j.textAt 0

/-! ## Reading -/

/-- What follows the blanks at the start. -/
def skipBlanks (cs : List Char) : List Char :=
  cs.dropWhile fun c => c = ' ' || c = '\n' || c = '\t' || c = '\r'

/-- What follows a word at the start. -/
def word? : List Char → List Char → Option (List Char)
  | [], cs => some cs
  | w :: ws, c :: cs => if w = c then word? ws cs else none
  | _ :: _, [] => none

/-- The number that four hexadecimal digits spell, and what follows them. -/
def hex4? (cs : List Char) : Option (Nat × List Char) := do
  if (cs.take 4).length < 4 then none
  else return (← readBase? 16 (cs.take 4), cs.drop 4)

/-- Reads a code point after the start of its escape. Two halves of a pair are one; a half that
stands alone is none. -/
def codePoint? (cs : List Char) : Option (Option Char × List Char) := do
  let (n, rest) ← hex4? cs
  if 0xd800 ≤ n && n < 0xdc00 then
    match rest with
    | '\\' :: 'u' :: more =>
      let (low, after) ← hex4? more
      if 0xdc00 ≤ low && low < 0xe000 then
        some (some (Char.ofNat (0x10000 + (n - 0xd800) * 0x400 + (low - 0xdc00))), after)
      else some (none, rest)
    | _ => some (none, rest)
  else if 0xdc00 ≤ n && n < 0xe000 then some (none, rest)
  else some (some (Char.ofNat n), rest)

/-- The character that an escape letter stands for. -/
def escaped? : Char → Option Char
  | '"' => some '"'
  | '\\' => some '\\'
  | '/' => some '/'
  | 'b' => some '\x08'
  | 'f' => some '\x0c'
  | 'n' => some '\n'
  | 'r' => some '\r'
  | 't' => some '\t'
  | _ => none

/-- Reads a string up to its closing quote; what was read before is given, the last first, unless
half of a pair was in it. -/
def readString? (before : Option (List Char)) : Nat → List Char → Option (Option String × List Char)
  | 0, _ => none
  | _ + 1, [] => none
  | _ + 1, '"' :: rest => some (before.map (String.ofList ·.reverse), rest)
  | steps + 1, '\\' :: 'u' :: rest => do
    let (c, rest) ← codePoint? rest
    readString? (c.bind fun c => before.map (c :: ·)) steps rest
  | steps + 1, '\\' :: c :: rest => do
    let c ← escaped? c
    readString? (before.map (c :: ·)) steps rest
  | steps + 1, c :: rest =>
    if c.toNat < 32 then none else readString? (before.map (c :: ·)) steps rest

/-- Reads the fraction of a number: whether there is one, and what follows it. -/
def readFraction? : List Char → Option (Bool × List Char)
  | '.' :: rest =>
    let (ds, rest) := spanDigits rest
    if ds.isEmpty then none else some (true, rest)
  | rest => some (false, rest)

/-- Reads the exponent of a number: whether there is one, and what follows it. -/
def readExponent? : List Char → Option (Bool × List Char)
  | e :: rest =>
    if e = 'e' || e = 'E' then
      let (ds, rest) := spanDigits (readSign rest).2
      if ds.isEmpty then none else some (true, rest)
    else some (false, e :: rest)
  | [] => some (false, [])

/-- The number of some digits after a sign. -/
def integer (negative : Bool) (ds : List Char) : Json :=
  let n := digitsValue ds
  if negative then if 0 < n ∧ n ≤ Nat.pow 2 63 then int (-n) else float
  else if n < Nat.pow 2 64 then int n else float

/-- Reads a number. -/
def readNumber? (cs : List Char) : Option (Json × List Char) := do
  let (negative, cs) := match cs with
    | '-' :: rest => (true, rest)
    | rest => (false, rest)
  let (ds, rest) := spanDigits cs
  if ds.isEmpty || (1 < ds.length && ds.head? = some '0') then none
  else
    let (fraction, rest) ← readFraction? rest
    let (exponent, rest) ← readExponent? rest
    return (if fraction || exponent then float else integer negative ds, rest)

mutual

/-- Reads a value, in at most some steps. -/
def readValue? : Nat → List Char → Option (Json × List Char)
  | 0, _ => none
  | steps + 1, cs =>
    match skipBlanks cs with
    | '"' :: rest => do
      let (s, rest) ← readString? (some []) (rest.length + 1) rest
      return ((s.map string).getD unpaired, rest)
    | '[' :: rest =>
      match skipBlanks rest with
      | ']' :: rest => some (array [], rest)
      | rest => do
        let (items, rest) ← readItems? steps rest
        return (array items, rest)
    | '{' :: rest =>
      match skipBlanks rest with
      | '}' :: rest => some (object [], rest)
      | rest => do
        let (fields, rest) ← readFields? steps rest
        return (object fields, rest)
    | 'n' :: rest => do return (null, ← word? ['u', 'l', 'l'] rest)
    | 't' :: rest => do return (bool true, ← word? ['r', 'u', 'e'] rest)
    | 'f' :: rest => do return (bool false, ← word? ['a', 'l', 's', 'e'] rest)
    | cs => readNumber? cs

/-- Reads items up to the closing bracket. -/
def readItems? : Nat → List Char → Option (List Json × List Char)
  | 0, _ => none
  | steps + 1, cs => do
    let (item, rest) ← readValue? steps cs
    match skipBlanks rest with
    | ',' :: rest => do
      let (items, rest) ← readItems? steps rest
      return (item :: items, rest)
    | ']' :: rest => some ([item], rest)
    | _ => none

/-- Reads fields up to the closing brace. -/
def readFields? : Nat → List Char → Option (List (String × Json) × List Char)
  | 0, _ => none
  | steps + 1, cs =>
    match skipBlanks cs with
    | '"' :: rest => do
      let (name, rest) ← readString? (some []) (rest.length + 1) rest
      let name ← name
      match skipBlanks rest with
      | ':' :: rest =>
        let (value, rest) ← readValue? steps rest
        match skipBlanks rest with
        | ',' :: rest => do
          let (fields, rest) ← readFields? steps rest
          return ((name, value) :: fields, rest)
        | '}' :: rest => some ([(name, value)], rest)
        | _ => none
      | _ => none
    | _ => none

end

/-- Reads a text that holds one value. -/
def read? (text : String) : Option Json :=
  match readValue? (2 * text.length + 2) text.toList with
  | some (j, rest) => if (skipBlanks rest).isEmpty then some j else none
  | none => none

/-! ## Taking values apart -/

/-- The fields of a record, given by their names. A record is an object with each field once, or an
array of the fields in order; a field that is missing has none. -/
def record? (names : List String) : Json → Option (List (Option Json))
  | object fields =>
    if names.any fun name => 1 < (fields.filter (·.1 == name)).length then none
    else some (names.map fun name => (fields.find? (·.1 == name)).map (·.2))
  | array items =>
    if items.length ≤ names.length then
      some (items.map some ++ List.replicate (names.length - items.length) none)
    else none
  | _ => none

/-- The string that a value is. -/
def string? : Json → Option String
  | string s => some s
  | _ => none

/-- The natural number below a bound that a value is. -/
def nat? (bound : Nat) : Json → Option Nat
  | int n => if 0 ≤ n ∧ n < bound then some n.toNat else none
  | _ => none

/-- The items of an array. -/
def items? : Json → Option (List Json)
  | array items => some items
  | _ => none

end Json

end QueryTaint
