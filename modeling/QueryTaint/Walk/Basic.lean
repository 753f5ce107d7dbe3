import QueryTaint.Ir.Func
import Std.Data.TreeSet

/-!
# Walks

A walk through a program is recorded as the events on it: operations that ran, and values that
flowed into parameters, results and φs. The overrides say which operand each bound one stands for
at the moment.

Invocations are numbered by natural numbers. It is assumed that there are fewer than 2³² while a
program is explored, so that numbers of 32 bits tell them apart as well.
-/

namespace QueryTaint

/-- What happens on a walk: an operation runs, or an operand takes the value of another one. The
operation that a value flows through is the parameter of an argument and the return of a result;
a φ and a captured variable have none. -/
inductive Event where
  | op (id : OpId)
  | bind (via : Option OpId) (target : OperandId) (source : Option OperandId)
deriving DecidableEq, Repr, Inhabited

/-- A decision on a walk: how a branch went, which case of a switch matched, or that none did. -/
inductive Choice where
  | branch (cond : OperandId) (taken : Bool)
  | case (subject value : OperandId)
  | default (subject : OperandId)
deriving DecidableEq, Repr, Inhabited

/-- A call that has not returned: who was called and by which operation, and where the caller goes
on. Every invocation of a function has a number of its own, assumed to be less than 2³². -/
structure Frame where
  func : FuncId
  invocation : Nat
  call : OpId
  resumeBlock : BlockId
  resumeIndex : Nat
  callerInvocation : Nat
  callerFunc : FuncId
deriving DecidableEq, Repr, Inhabited

/-- Which operand stands for which. -/
abbrev Overrides := Std.TreeMap OperandId OperandId

namespace Overrides

/-- What an operand stands for, in one step. -/
def resolve (o : Overrides) (id : OperandId) : OperandId := (o.get? id).getD id

/-- What an operand stands for, followed for some steps. -/
def follow (o : Overrides) : Nat → OperandId → OperandId
  | 0, id => id
  | steps + 1, id =>
    match o.get? id with
    | some next => if next = id then id else o.follow steps next
    | none => id

/-- Makes an operand stand for what another one stands for now. One that would stand for itself
has no override. -/
def bind (o : Overrides) (target : OperandId) (source : Option OperandId) : Overrides :=
  match source.map o.resolve with
  | some resolved => if resolved = target then o.erase target else o.insert target resolved
  | none => o.erase target

end Overrides

/-- A walk: the running function and its invocation, what happened and was decided, the overrides
in force, the operands that were written, the value of the last return from a call, and the open
calls, the innermost first. The number of the invocation is assumed to be less than 2³². -/
structure Walk where
  func : FuncId
  invocation : Nat
  events : Array Event := #[]
  choices : Array Choice := #[]
  overrides : Overrides := {}
  known : Std.TreeSet OperandId := {}
  returned : Option OperandId := none
  frames : List Frame := []
deriving Inhabited

namespace Walk

/-- Runs an operation. -/
def pushOp (w : Walk) (op : OpId) (result : Option OperandId) : Walk :=
  { w with
    events := w.events.push (.op op)
    known := match result with
      | some result => w.known.insert result
      | none => w.known }

/-- Lets a value flow into an operand. -/
def bind (w : Walk) (via : Option OpId) (target : OperandId) (source : Option OperandId) : Walk :=
  { w with
    events := w.events.push (.bind via target source)
    overrides := w.overrides.bind target source
    known := w.known.insert target }

/-- Records a decision. -/
def choose (w : Walk) (choice : Choice) : Walk := { w with choices := w.choices.push choice }

/-- How many calls are open. -/
def depth (w : Walk) : Nat := w.frames.length

/-- Whether a function is running or has an open call. -/
def isActive (w : Walk) (func : FuncId) : Bool :=
  w.func = func || w.frames.any (·.func = func)

end Walk

end QueryTaint
