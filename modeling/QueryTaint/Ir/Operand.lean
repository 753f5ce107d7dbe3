import QueryTaint.Ir.Assertion
import QueryTaint.Scalar.Basic

/-!
# Operands

An operand is a value that operations read and write: a constant, an input, a variable or one
version of a variable. It knows the operations that write and read it.
-/

namespace QueryTaint

/-- Where a bound variable lives. -/
inductive VarScope where
  | global | locals | object | function
deriving DecidableEq, Repr, Inhabited

/-- The word for where a variable lives. -/
def VarScope.word : VarScope → String
  | global => "Global"
  | locals => "Local"
  | object => "Object"
  | function => "Function"

/-- What an operand is. A variable's name is an operand too, a string unless the name is computed;
a temporary points back to the variable that it is a version of. -/
inductive OperandKind where
  | scalar (value : Scalar Float)
  | object (cls : String)
  | symbolic (tag : String)
  | variable (name : OperandId) (value : Option OperandId)
  | bound (name : OperandId) (value : Option OperandId) (byRef : Bool) (scope : VarScope)
  | temporary (owner : Option OperandId)
deriving Repr, Inhabited

namespace OperandKind

/-- The operand of a string. -/
def string (s : String) : OperandKind := .scalar (.string s)

/-- The operand of null. -/
def null : OperandKind := .scalar .null

/-- The scalar that an operand is. -/
def scalar? : OperandKind → Option (Scalar Float)
  | .scalar value => some value
  | _ => none

/-- The string that an operand is. -/
def string? : OperandKind → Option String
  | .scalar (.string s) => some s
  | _ => none

/-- Whether an operand needs no operation that writes it. -/
def isConstantLike : OperandKind → Bool
  | .scalar _ | .object _ | .symbolic _ => true
  | _ => false

/-- Whether an operand is a version of a variable or an intermediate value. -/
def isTemporary : OperandKind → Bool
  | .temporary _ => true
  | _ => false

/-- The word for the kind of an operand. -/
def word : OperandKind → String
  | .scalar .null => "null"
  | .scalar (.bool _) => "bool"
  | .scalar (.number _) => "number"
  | .scalar (.string _) => "string"
  | .object _ => "object"
  | .symbolic _ => "symbolic"
  | .variable .. => "variable"
  | .bound .. => "bound"
  | .temporary _ => "temporary"

end OperandKind

/-- An operand with the operations that write it (`defs`) and read it (`usages`), what is asserted
of variables where it is true, and the blocks that are guarded by it. -/
structure Operand where
  kind : OperandKind
  defs : List OpId := []
  usages : List OpId := []
  assertions : List VarAssertion := []
  condUsages : List BlockId := []
  tainted : Bool := false
deriving Repr, Inhabited

namespace Operand

/-- Records an operation that reads the operand. -/
def addUsage (o : Operand) (op : OpId) : Operand := { o with usages := addNew o.usages op }

/-- Records an operation that writes the operand. -/
def addDef (o : Operand) (op : OpId) : Operand := { o with defs := addNew o.defs op }

/-- Records a block that the operand guards. -/
def addCondUsage (o : Operand) (block : BlockId) : Operand :=
  { o with condUsages := addNew o.condUsages block }

/-- Forgets an operation that read the operand. -/
def removeUsage (o : Operand) (op : OpId) : Operand :=
  { o with usages := o.usages.filter (· ≠ op) }

/-- Forgets an operation that wrote the operand. -/
def removeDef (o : Operand) (op : OpId) : Operand := { o with defs := o.defs.filter (· ≠ op) }

/-- The first assertion on a variable joined with a further one, unless they are the same. -/
def joinAssertion (var : OperandId) (a : Assertion) : List VarAssertion → List VarAssertion
  | [] => [⟨var, a⟩]
  | known :: rest =>
    if known.var = var then
      (if known.assertion.same a then known else ⟨var, known.assertion.conjoin a⟩) :: rest
    else known :: joinAssertion var a rest

/-- Asserts something of a variable where the operand is true. -/
def addAssertion (o : Operand) (var : OperandId) (a : Assertion) : Operand :=
  { o with assertions := joinAssertion var a o.assertions }

end Operand

end QueryTaint
