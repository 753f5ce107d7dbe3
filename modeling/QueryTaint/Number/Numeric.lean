import QueryTaint.Number.Basic
import QueryTaint.Number.Binary64
import QueryTaint.Text.Character

/-!
# Numeric strings

How the analysed language turns strings into numbers and numbers into strings.
-/

namespace QueryTaint

/-- Splits off the longest run of decimal digits. -/
def spanDigits (cs : List Char) : List Char × List Char :=
  (cs.takeWhile Char.isDigit, cs.dropWhile Char.isDigit)

/-- The value of decimal digits. -/
def digitsValue (cs : List Char) : Nat :=
  cs.foldl (fun n c => n * 10 + (c.toNat - '0'.toNat)) 0

/-- Reads an optional sign; the answer is whether it was a minus. -/
def readSign : List Char → Bool × List Char
  | '-' :: rest => (true, rest)
  | '+' :: rest => (false, rest)
  | cs => (false, cs)

/-- Reads an exponent to the end of the text, zero when nothing is left. -/
def readExponent? : List Char → Option Int
  | [] => some 0
  | e :: rest =>
    if e = 'e' ∨ e = 'E' then
      let (negative, rest) := readSign rest
      let (digits, rest) := spanDigits rest
      if digits.isEmpty || !rest.isEmpty then none
      else some (if negative then -(digitsValue digits) else digitsValue digits)
    else none

/-- Reads a decimal number: digits with an optional point among or beside them, and an optional
exponent. The number is the nearest one of binary64. -/
def readDecimal? (text : String) : Option Float :=
  let (negative, cs) := readSign text.toList
  let (whole, cs) := spanDigits cs
  let (fraction, cs) := match cs with
    | '.' :: rest => spanDigits rest
    | _ => ([], cs)
  if whole.isEmpty && fraction.isEmpty then none
  else (readExponent? cs).map fun exponent =>
    Binary64.ofDecimal negative (digitsValue (whole ++ fraction)) (exponent - fraction.length)

/-- Whether a character can stand in a numeric string. -/
def isNumericChar (c : Char) : Bool :=
  c.isDigit || c == '.' || c == 'e' || c == 'E' || c == '+' || c == '-'

/-- The number that a numeric string denotes; blanks around it are allowed. -/
def numericString? (s : String) : Option Float :=
  let body := trim s
  if body.isEmpty || !body.all isNumericChar then none else readDecimal? body

/-- The magnitude from which an integer is no longer written as one. -/
def integerLimit : Nat := Nat.pow 10 15

/-- A number as a string of the analysed language: small integers without a fraction or sign of
zero, everything else with the fewest digits that read back. -/
def plainNumber (x : Float) : String :=
  match Binary64.view x with
  | .nan => "NAN"
  | .infinite negative => if negative then "-INF" else "INF"
  | .finite .. =>
    match Binary64.truncate? x with
    | some n =>
      if Binary64.isIntegral x && n.natAbs < integerLimit then toString n else Shortest.text x
    | none => Shortest.text x

instance : NumeralText Float where
  zero := 0.0
  one := 1.0
  add := (· + ·)
  sub := (· - ·)
  mul := (· * ·)
  div := (· / ·)
  neg := (- ·)
  eq := (· == ·)
  lt a b := decide (a < b)
  le a b := decide (a ≤ b)
  text := Shortest.text
  plain := plainNumber
  read? := numericString?

end QueryTaint
