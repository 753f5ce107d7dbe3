import QueryTaint.Scalar.Basic
import QueryTaint.Syntax.Operator

/-!
# Evaluating operators on scalars

Values of binary and unary operators and casts at binary64. Where the language would raise an
error, or the value is no scalar, there is none.
-/

namespace QueryTaint

namespace Scalar

/-- The longest start of a text that a sign and digits make up, read as an integer of 64 bits;
zero when there is none or it is too large. -/
def leadingInt (s : String) : Int64 :=
  let (negative, rest) := readSign (trimStart s).toList
  let (digits, _) := spanDigits rest
  if digits.isEmpty then 0
  else
    let value : Int := if negative then -(digitsValue digits) else digitsValue digits
    if -(Nat.pow 2 63 : Nat) ≤ value ∧ value < (Nat.pow 2 63 : Nat) then Int64.ofInt value else 0

/-- The integer value of a scalar: a fraction is cut off, and what is out of range becomes the
nearest integer in range. Numbers that are not finite have none. -/
def toInt? : Scalar Float → Option Int64
  | string s => some (leadingInt s)
  | other => do
    let n ← other.toNumber?
    let whole ← Binary64.truncate? n
    return Binary64.clampInt64 whole

/-- The number of an integer of 64 bits. -/
def ofInt64 (n : Int64) : Scalar Float := number (Binary64.ofInt n.toInt)

/-- The remainder of integers, with the sign of the dividend; none for a divisor zero and for
the quotient that does not fit. -/
def remainder? (a b : Int64) : Option Int64 :=
  if b = 0 ∨ (a = Int64.minValue ∧ b = -1) then none else some (a % b)

/-- The amount of a shift: none unless it is less than the width. -/
def shiftAmount? (b : Int64) : Option Int64 :=
  if 0 ≤ b.toInt ∧ b.toInt < 64 then some b else none

/-- A bitwise operator on integers. -/
def bitwise? (op : BinaryOp) (a b : Int64) : Option Int64 :=
  match op with
  | .bitwiseAnd => some (a &&& b)
  | .bitwiseOr => some (a ||| b)
  | .bitwiseXor => some (a ^^^ b)
  | .shiftLeft => (shiftAmount? b).map (a <<< ·)
  | .shiftRight => (shiftAmount? b).map (a >>> ·)
  | _ => none

/-- An arithmetic operator on the operands' numbers. -/
def arithmetic? (f : Float → Float → Float) (a b : Scalar Float) : Option (Scalar Float) := do
  return number (f (← a.toNumber?) (← b.toNumber?))

/-- The truth of an order relation. -/
def ordered? (accept : Ordering → Bool) (a b : Scalar Float) : Option (Scalar Float) :=
  (a.compare? b).map (bool ∘ accept)

/-- The value of a binary operator. -/
def binary? (op : BinaryOp) (a b : Scalar Float) : Option (Scalar Float) :=
  match op with
  | .plus => arithmetic? (· + ·) a b
  | .minus => arithmetic? (· - ·) a b
  | .mul => arithmetic? (· * ·) a b
  | .div => do
    let divisor ← b.toNumber?
    if divisor == 0.0 then none else arithmetic? (· / ·) a b
  | .mod => do
    let divisor ← b.toInt?
    if divisor = 0 then none else return ofInt64 (← remainder? (← a.toInt?) divisor)
  | .pow => arithmetic? Float.pow a b
  | .concat => some (string (a.toText ++ b.toText))
  | .equal => some (bool (a.looseEq b))
  | .notEqual => some (bool !(a.looseEq b))
  | .identical => some (bool (a.strictEq b))
  | .notIdentical => some (bool !(a.strictEq b))
  | .smaller => ordered? (· == .lt) a b
  | .smallerOrEqual => ordered? (· != .gt) a b
  | .greater => ordered? (· == .gt) a b
  | .greaterOrEqual => ordered? (· != .lt) a b
  | .spaceship => (a.compare? b).map fun o =>
    number (match o with | .lt => -1.0 | .eq => 0.0 | .gt => 1.0)
  | .logicalAnd => some (bool (a.truthy && b.truthy))
  | .logicalOr => some (bool (a.truthy || b.truthy))
  | .logicalXor => some (bool (a.truthy != b.truthy))
  | .bitwiseAnd | .bitwiseOr | .bitwiseXor | .shiftLeft | .shiftRight =>
    match a, b with
    | string _, string _ => none
    | _, _ => do return ofInt64 (← bitwise? op (← a.toInt?) (← b.toInt?))
  | .coalesce => match a with
    | null => some b
    | other => some other

/-- The value of a unary operator. -/
def unary? (op : UnaryOp) (a : Scalar Float) : Option (Scalar Float) :=
  match op with
  | .booleanNot => some (bool !a.truthy)
  | .unaryMinus => a.toNumber?.map fun n => number (-n)
  | .unaryPlus => a.toNumber?.map number
  | .bitwiseNot => match a with
    | number _ => a.toInt?.map fun n => ofInt64 (~~~n)
    | _ => none
  | _ => none

/-- The value of a cast. -/
def cast? (kind : CastKind) (a : Scalar Float) : Option (Scalar Float) :=
  match kind with
  | .int => a.toInt?.map ofInt64
  | .double => a.toNumber?.map number
  | .bool => some (bool a.truthy)
  | .string => some (string a.toText)
  | .unset => some null
  | .array | .object => none

end Scalar

end QueryTaint
