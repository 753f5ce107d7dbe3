import QueryTaint.Ir.Arena
import QueryTaint.Number.Numeric
import QueryTaint.Scalar.Evaluate
import QueryTaint.Term.Basic
import QueryTaint.Walk.Basic

/-!
# The terms of conditions

The condition of a branch as a term for the solver. An operand is looked up through the overrides
of the walk, and then through its known value or the operation that wrote it. One that cannot be
modelled becomes a variable of its own, named by its number, so that meeting it twice on a walk
gives the same variable.
-/

namespace QueryTaint

/-- A result, and whether an operand without a model was met on the way to it. -/
structure Modeled (α : Type) where
  value : α
  unknown : Bool := false
deriving Repr, Inhabited

instance : Monad Modeled where
  pure a := ⟨a, false⟩
  bind x f :=
    let y := f x.value
    ⟨y.value, x.unknown || y.unknown⟩

/-- What is known of an operand: its scalar, the input that it is, or a term. An input is a truth
value or a number depending on its use. -/
inductive Meaning where
  | concrete (value : Scalar Float)
  | input (key : String)
  | term (t : Term Float)
deriving Inhabited

namespace Meaning

/-- The meaning as a truth value. -/
def toBool : Meaning → Term Float
  | concrete s => .bool s.truthy
  | input key => .boolVar (key ++ ":bool")
  | term t => t.toBool

/-- The meaning as a number. -/
def toNumber? : Meaning → Option (Term Float)
  | concrete s => s.toNumber?.map .number
  | input key => some (.numVar (key ++ ":num"))
  | term t => if t.sort = .number then some t else none

/-- The name of an operand without a model. -/
def unknownKey (id : OperandId) : String := "u" ++ toString id.index

/-- An operand without a model. -/
def unknown (id : OperandId) : Modeled Meaning := ⟨.input (unknownKey id), true⟩

/-- A truth value without a model. -/
def unknownBool (id : OperandId) : Modeled (Term Float) :=
  ⟨.boolVar (unknownKey id ++ ":bool"), true⟩

/-- A term that may be missing, in whose place an operand has no model. -/
def termOr (id : OperandId) : Option (Term Float) → Modeled Meaning
  | some t => pure (.term t)
  | none => unknown id

/-- The equation of two numbers that may be missing. -/
def numberEquation (at_ : OperandId) : Option (Term Float) → Option (Term Float) →
    Modeled (Term Float)
  | some x, some y => pure (.compare .eq x y)
  | _, _ => unknownBool at_

/-- The loose equation of two meanings, at the operand that holds it. -/
def equality (at_ : OperandId) : Meaning → Meaning → Modeled (Term Float)
  | concrete a, concrete b => pure (.bool (a.looseEq b))
  | concrete (.bool b), other | other, concrete (.bool b) => pure (.iff other.toBool (.bool b))
  | concrete .null, other | other, concrete .null => pure other.toBool.not
  | concrete c, other | other, concrete c =>
    numberEquation at_ other.toNumber? (c.toNumber?.map .number)
  | term a, term b =>
    if a.sort = .bool && b.sort = .bool then pure (.iff a b)
    else numberEquation at_ (term a).toNumber? (term b).toNumber?
  | l, r => numberEquation at_ l.toNumber? r.toNumber?

/-- The strict equation of two meanings, at the operand that holds it. A term of one kind is never
identical to a scalar of another. -/
def identity (at_ : OperandId) : Meaning → Meaning → Modeled (Term Float)
  | concrete a, concrete b => pure (.bool (a.sameKind b && a.strictEq b))
  | concrete (.bool b), term t | term t, concrete (.bool b) =>
    pure (if t.sort = .bool then .iff t (.bool b) else .bool false)
  | concrete (.number n), term t | term t, concrete (.number n) =>
    pure (if t.sort = .number then .compare .eq t (.number n) else .bool false)
  | l, r => equality at_ l r

/-- The operation on numbers that an operator is. -/
def arithOp? : BinaryOp → Option ArithOp
  | .plus => some .add
  | .minus => some .sub
  | .mul => some .mul
  | .div => some .div
  | _ => none

/-- The comparison of numbers that an operator is. -/
def compareOp? : BinaryOp → Option CompareOp
  | .smaller => some .lt
  | .smallerOrEqual => some .le
  | .greater => some .gt
  | .greaterOrEqual => some .ge
  | _ => none

/-- The term of an operator on numbers. -/
def numberTerm? (op : BinaryOp) (x y : Term Float) : Option (Term Float) :=
  ((arithOp? op).map fun a => .arith a x y).or ((compareOp? op).map fun c => .compare c x y)

/-- The scalar that an operator gives on known scalars. -/
def folded? (op : BinaryOp) : Meaning → Meaning → Option (Scalar Float)
  | concrete a, concrete b => Scalar.binary? op a b
  | _, _ => none

/-- The meaning of a binary operator, at its result. -/
def binary (at_ : OperandId) (op : BinaryOp) (l r : Meaning) : Modeled Meaning :=
  match folded? op l r with
  | some s => pure (.concrete s)
  | none =>
    match op with
    | .equal => do return .term (← equality at_ l r)
    | .notEqual => do return .term (← equality at_ l r).not
    | .identical => do return .term (← identity at_ l r)
    | .notIdentical => do return .term (← identity at_ l r).not
    | .logicalAnd => pure (.term (.and [l.toBool, r.toBool]))
    | .logicalOr => pure (.term (.or [l.toBool, r.toBool]))
    | .logicalXor => pure (.term (.xor l.toBool r.toBool))
    | _ => termOr at_ do numberTerm? op (← l.toNumber?) (← r.toNumber?)

/-- The scalar that an operator gives on a known scalar. -/
def foldedUnary? (op : UnaryOp) : Meaning → Option (Scalar Float)
  | concrete a => Scalar.unary? op a
  | _ => none

/-- The meaning of a unary operator, at its result. -/
def unary (at_ : OperandId) (op : UnaryOp) (arg : Meaning) : Modeled Meaning :=
  match foldedUnary? op arg with
  | some s => pure (.concrete s)
  | none =>
    match op with
    | .booleanNot => pure (.term arg.toBool.not)
    | .unaryMinus => termOr at_ (arg.toNumber?.map .neg)
    | .unaryPlus => termOr at_ arg.toNumber?
    | _ => unknown at_

/-- The meaning of a cast, at its result. -/
def cast (at_ : OperandId) : CastKind → Meaning → Modeled Meaning
  | .bool, arg => pure (.term arg.toBool)
  | .int, concrete s | .double, concrete s =>
    match s.toNumber? with
    | some n => pure (.concrete (.number n))
    | none => unknown at_
  | .int, arg | .double, arg => termOr at_ arg.toNumber?
  | _, _ => unknown at_

end Meaning

/-- A program at some point of a walk. -/
structure Moment where
  arena : Arena
  overrides : Overrides
deriving Inhabited

namespace Moment

/-- How many operations deep a term may be. -/
def maxDepth : Nat := 64

/-- The longest chain of overrides that is followed. -/
def maxChain : Nat := 64

/-- What is known of an operand without the operation that wrote it. -/
def known? (m : Moment) (id : OperandId) : Option Meaning :=
  match m.arena.literalOf? id with
  | some s => some (.concrete s)
  | none =>
    if m.arena.isSymbolic id then some (.input ("in" ++ toString (m.arena.valueOf id).index))
    else none

/-- The operation that wrote an operand. -/
def definition? (m : Moment) (id : OperandId) : Option OpKind :=
  (m.arena.operand id).defs.head?.map fun op => (m.arena.op op).kind

/-- The meaning of an operand, through at most some operations. -/
def meaning (m : Moment) : Nat → OperandId → Modeled Meaning
  | 0, id =>
    let id := m.overrides.follow maxChain id
    match m.known? id with
    | some known => pure known
    | none => Meaning.unknown id
  | depth + 1, id =>
    let id := m.overrides.follow maxChain id
    match m.known? id with
    | some known => pure known
    | none =>
      match m.definition? id with
      | some (.binary op left right _) => do
        let l ← m.meaning depth left
        let r ← m.meaning depth right
        Meaning.binary id op l r
      | some (.unary op expr _) => do Meaning.unary id op (← m.meaning depth expr)
      | some (.assign _ expr _) => m.meaning depth expr
      | some (.cast kind expr _) => do Meaning.cast id kind (← m.meaning depth expr)
      | _ => Meaning.unknown id

/-- The term of a branch's condition. -/
def condition (m : Moment) (cond : OperandId) : Modeled (Term Float) := do
  return (← m.meaning maxDepth cond).toBool

/-- The term of the equation between the subject and a case of a switch. -/
def caseEquality (m : Moment) (subject case : OperandId) : Modeled (Term Float) := do
  let l ← m.meaning maxDepth subject
  let r ← m.meaning maxDepth case
  Meaning.equality subject l r

end Moment

end QueryTaint
