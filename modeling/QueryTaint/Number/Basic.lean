/-!
# Numbers

`Numeral` is the arithmetic that scalar values and solver terms are built over, and `NumeralText`
adds how numbers are written and read. The analyses run at binary64; the laws of scalars and terms
hold over any ordered field that gives these operations their usual meaning.
-/

namespace QueryTaint

/-- Numbers with arithmetic and decidable comparisons. -/
class Numeral (ν : Type) where
  zero : ν
  one : ν
  add : ν → ν → ν
  sub : ν → ν → ν
  mul : ν → ν → ν
  div : ν → ν → ν
  neg : ν → ν
  eq : ν → ν → Bool
  lt : ν → ν → Bool
  le : ν → ν → Bool

/-- Numbers that can be written and read. -/
class NumeralText (ν : Type) extends Numeral ν where
  /-- Every number as the fewest digits that read back. -/
  text : ν → String
  /-- A number as a string value of the analysed language. -/
  plain : ν → String
  /-- The number that a numeric string denotes. -/
  read? : String → Option ν

namespace Numeral

variable {ν : Type} [Numeral ν]

/-- Two, as the sum of ones. -/
def two : ν := add one one

/-- The order of two numbers, none when they cannot be compared. -/
def order? (a b : ν) : Option Ordering :=
  if lt a b then some .lt
  else if eq a b then some .eq
  else if lt b a then some .gt
  else none

end Numeral

end QueryTaint
