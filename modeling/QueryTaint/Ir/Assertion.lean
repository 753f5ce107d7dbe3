import QueryTaint.Ir.Id

/-!
# Assertions

What a condition says of a variable's type: that it has a type, or some or all of several such
statements. Negation is a flag at every level.
-/

namespace QueryTaint

/-- How the parts of a composite assertion are joined. -/
inductive AssertionMode where
  | intersect | union
deriving DecidableEq, Repr, Inhabited

/-- A statement on a type. The type is named by an operand. -/
inductive Assertion where
  | type (value : OperandId) (negated : Bool)
  | composite (children : List Assertion) (mode : AssertionMode) (negated : Bool)
deriving Repr, Inhabited

namespace Assertion

mutual

/-- Whether two assertions are the same. -/
def same : Assertion → Assertion → Bool
  | type v n, type v' n' => v = v' && n == n'
  | composite c m n, composite c' m' n' => sameAll c c' && m = m' && n == n'
  | _, _ => false

/-- Whether two lists of assertions are the same. -/
def sameAll : List Assertion → List Assertion → Bool
  | [], [] => true
  | a :: as, b :: bs => same a b && sameAll as bs
  | _, _ => false

end

/-- Whether the assertion is negated. -/
def isNegated : Assertion → Bool
  | type _ negated => negated
  | composite _ _ negated => negated

/-- The assertion with its negation flipped. -/
def negation : Assertion → Assertion
  | type value negated => type value !negated
  | composite children mode negated => composite children mode !negated

mutual

/-- The operands that name types in an assertion. -/
def operands : Assertion → List OperandId
  | type value _ => [value]
  | composite children _ _ => operandsAll children

/-- The operands that name types in assertions. -/
def operandsAll : List Assertion → List OperandId
  | [] => []
  | a :: rest => operands a ++ operandsAll rest

end

/-- The conjunction of an assertion with one more. -/
def conjoin (previous further : Assertion) : Assertion :=
  match previous with
  | composite children .intersect false => composite (children ++ [further]) .intersect false
  | _ => composite [previous, further] .intersect false

/-- The types whose values are never strings that carry text of their own. -/
def nonStringTypes : List String :=
  ["int", "integer", "long", "float", "double", "real", "bool", "boolean", "null", "numeric"]

mutual

/-- Whether every value that satisfies the assertion, negated by its surroundings if `outer`
holds, has one of the types for which `rigid` holds. -/
def excludes (rigid : OperandId → Bool) (outer : Bool) : Assertion → Bool
  | type value negated => (outer == negated) && rigid value
  | composite children mode negated =>
    let negated := outer != negated
    match mode, negated with
    | .intersect, false | .union, true => excludesSome rigid negated children
    | _, _ => !children.isEmpty && excludesEvery rigid negated children

/-- Whether one of the assertions excludes strings. -/
def excludesSome (rigid : OperandId → Bool) (outer : Bool) : List Assertion → Bool
  | [] => false
  | a :: rest => excludes rigid outer a || excludesSome rigid outer rest

/-- Whether all assertions exclude strings. -/
def excludesEvery (rigid : OperandId → Bool) (outer : Bool) : List Assertion → Bool
  | [] => true
  | a :: rest => excludes rigid outer a && excludesEvery rigid outer rest

end

end Assertion

/-- An assertion and the variable it speaks of. -/
structure VarAssertion where
  var : OperandId
  assertion : Assertion
deriving Repr, Inhabited

end QueryTaint
