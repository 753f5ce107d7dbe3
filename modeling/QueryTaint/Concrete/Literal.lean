import QueryTaint.Number.Numeric
import QueryTaint.Syntax.Tree
import QueryTaint.Text.Character

/-!
# Literals

Values of integer, float and string literals from their text.
-/

namespace QueryTaint.Concrete

/-- A float literal, zero when the text is none. -/
def floatValue (digits : String) : Float := (readDecimal? digits).getD 0.0

/-- The text without digit separators. -/
def withoutSeparators (text : String) : String := String.ofList (text.toList.filter (· ≠ '_'))

/-- The base that an integer literal's first characters announce, and its digits. -/
def announcedBase : List Char → Nat × List Char
  | '0' :: 'x' :: rest => (16, rest)
  | '0' :: 'b' :: rest => (2, rest)
  | '0' :: 'o' :: rest => (8, rest)
  | '0' :: c :: rest => (8, c :: rest)
  | cs => (10, cs)

/-- An integer literal. Where the digits make no integer of 64 bits, the text is read as a decimal
number instead. -/
def intLiteral (text : String) : Literal :=
  let clean := withoutSeparators text
  let (base, digits) := announcedBase (lowerAscii clean).toList
  match readBase? base digits with
  | some n => if n < Nat.pow 2 63 then .int (Int64.ofNat n) else .float (floatValue clean)
  | none => .float (floatValue clean)

/-- The characters that a single-quoted body denotes: a backslash before a backslash or a quote
stands for that character, and any other backslash for itself. -/
def unescapeSingle : List Char → List Char
  | '\\' :: '\\' :: rest => '\\' :: unescapeSingle rest
  | '\\' :: '\'' :: rest => '\'' :: unescapeSingle rest
  | c :: rest => c :: unescapeSingle rest
  | [] => []

/-- The characters between two single quotes, or all of them when they are not quoted so. -/
def betweenQuotes (cs : List Char) : List Char :=
  match cs with
  | '\'' :: body =>
    match body.getLast? with
    | some '\'' => body.dropLast
    | _ => cs
  | _ => cs

/-- The value of a single-quoted literal, which a `b` may precede. -/
def unquoteSingle (text : String) : String :=
  let body := match text.toList with
    | 'b' :: rest => rest
    | 'B' :: rest => rest
    | cs => cs
  String.ofList (unescapeSingle (betweenQuotes body))

/-- The character of a code that one byte holds. -/
def charOfByte? (n : Nat) : Option Char := if n < 256 then some (Char.ofNat n) else none

/-- The character that the part of an escape after the backslash denotes. -/
def escapedChar? : List Char → Option Char
  | ['n'] => some '\n'
  | ['t'] => some '\t'
  | ['r'] => some '\r'
  | ['v'] => some '\x0b'
  | ['e'] => some '\x1b'
  | ['f'] => some '\x0c'
  | ['\\'] => some '\\'
  | ['$'] => some '$'
  | ['"'] => some '"'
  | 'x' :: digits => (readBase? 16 digits).bind charOfByte?
  | 'u' :: '\x7b' :: rest =>
    match rest.getLast? with
    | some '\x7d' => (readBase? 16 rest.dropLast).bind charOfCode?
    | _ => none
  | digits => (readBase? 8 digits).bind charOfByte?

/-- The text that an escape sequence denotes; an unknown one denotes itself. -/
def unescape (sequence : String) : String :=
  match sequence.toList with
  | '\\' :: rest =>
    match escapedChar? rest with
    | some c => c.toString
    | none => sequence
  | _ => sequence

end QueryTaint.Concrete
