import QueryTaint.Number.Numeric

/-!
# Scalar values

The four kinds of scalar value of the analysed language, and how they convert into each other and
compare. Main definitions: `Scalar.truthy`, `Scalar.looseEq` for `==`, `Scalar.strictEq` for `===`
and `Scalar.compare?` for the order relations. An operation that the language would refuse gives
no answer.
-/

namespace QueryTaint

/-- A scalar value over numbers of type `ν`. -/
inductive Scalar (ν : Type) where
  | null
  | bool (b : Bool)
  | number (n : ν)
  | string (s : String)
deriving Repr, Inhabited

/-- Whether a string counts as true: all but the empty string and `0` do. -/
def stringTruthy (s : String) : Bool := !(s.isEmpty || s == "0")

namespace Scalar

variable {ν : Type}

/-- Whether two scalars are of one kind. -/
def sameKind : Scalar ν → Scalar ν → Bool
  | null, null => true
  | bool _, bool _ => true
  | number _, number _ => true
  | string _, string _ => true
  | _, _ => false

/-- Whether a scalar counts as true. -/
def truthy [Numeral ν] : Scalar ν → Bool
  | null => false
  | bool b => b
  | number n => !Numeral.eq n Numeral.zero
  | string s => stringTruthy s

/-- The numeric value of a scalar, none for a string that is not numeric. -/
def toNumber? [NumeralText ν] : Scalar ν → Option ν
  | null => some Numeral.zero
  | bool b => some (if b then Numeral.one else Numeral.zero)
  | number n => some n
  | string s => NumeralText.read? s

/-- The string value of a scalar. -/
def toText [NumeralText ν] : Scalar ν → String
  | null => ""
  | bool b => if b then "1" else ""
  | number n => NumeralText.plain n
  | string s => s

/-- Equality of kind and value. -/
def strictEq [Numeral ν] : Scalar ν → Scalar ν → Bool
  | null, null => true
  | bool a, bool b => a == b
  | number a, number b => Numeral.eq a b
  | string a, string b => a == b
  | _, _ => false

/-- A number and a string are equal when the string denotes the number, or spells it if it
denotes none. -/
def numberEqString [NumeralText ν] (n : ν) (s : String) : Bool :=
  match NumeralText.read? s with
  | some m => Numeral.eq n m
  | none => NumeralText.plain n == s

/-- Two strings are equal when both denote the same number, or spell the same text. -/
def stringEqString (ν : Type) [NumeralText ν] (a b : String) : Bool :=
  match (NumeralText.read? a : Option ν), (NumeralText.read? b : Option ν) with
  | some x, some y => Numeral.eq x y
  | _, _ => a == b

/-- Equality after conversion to a common kind. -/
def looseEq [NumeralText ν] : Scalar ν → Scalar ν → Bool
  | null, null => true
  | bool a, b => a == b.truthy
  | a, bool b => b == a.truthy
  | null, string s => s.isEmpty
  | string s, null => s.isEmpty
  | null, b => !b.truthy
  | a, null => !a.truthy
  | number a, number b => Numeral.eq a b
  | number n, string s => numberEqString n s
  | string s, number n => numberEqString n s
  | string a, string b => stringEqString ν a b

/-- The order of truth values, false first. -/
def orderTruth (a b : Bool) : Ordering :=
  match a, b with
  | false, true => .lt
  | true, false => .gt
  | _, _ => .eq

/-- The order of two scalars' numeric values. -/
def compareNumbers? [NumeralText ν] (a b : Scalar ν) : Option Ordering :=
  match a.toNumber?, b.toNumber? with
  | some x, some y => Numeral.order? x y
  | _, _ => none

/-- The order of two scalars: of strings that are not both numeric by their characters, of
values one of which is null or a truth value by their truth, of all others by their numbers. -/
def compare? [NumeralText ν] : Scalar ν → Scalar ν → Option Ordering
  | string a, string b =>
    if (NumeralText.read? a : Option ν).isNone || (NumeralText.read? b : Option ν).isNone
    then some (compare a b)
    else compareNumbers? (string a : Scalar ν) (string b)
  | bool a, b => some (orderTruth a b.truthy)
  | a, bool b => some (orderTruth a.truthy b)
  | null, b => some (orderTruth false b.truthy)
  | a, null => some (orderTruth a.truthy false)
  | a, b => compareNumbers? a b

end Scalar

end QueryTaint
