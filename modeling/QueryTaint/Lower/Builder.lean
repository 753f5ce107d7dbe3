import QueryTaint.Error
import QueryTaint.Ir.Arena
import QueryTaint.Text.Label

/-!
# The builder

The state of lowering a file: the arena that is being filled, the script, and, for the function
whose body is being lowered, the versions of its variables block by block. `Build` steps cannot
fail; `Lowering` steps may, and keep what was built until then.
-/

namespace QueryTaint.Lower

/-- A φ whose operands are added once all predecessors of its block are known. -/
structure PendingPhi where
  block : BlockId
  name : String
  phi : OpId
deriving DecidableEq, Repr, Inhabited

/-- A read of a variable: the block and the place in it where it stands, and the version that it
took. -/
structure Reading where
  block : BlockId
  index : Nat
  name : String
  operand : OperandId
deriving DecidableEq, Repr, Inhabited

/-- What is known inside one function: whether its blocks are all there, its labels, the versions
of variables by block and name, φs to be completed in the order of their making, jumps to labels
that are not met yet, and the conditions around the current statement, the innermost first. -/
structure Scope where
  complete : Bool := false
  labels : Std.TreeMap String BlockId := {}
  versions : Std.TreeMap Nat (Std.TreeMap String OperandId) := {}
  pending : Array PendingPhi := #[]
  gotos : List (String × BlockId) := []
  conditions : List OperandId := []
deriving Inhabited

namespace Scope

/-- The version of a variable in a block. -/
def lookup (s : Scope) (block : BlockId) (name : String) : Option OperandId :=
  (s.versions.getD block.index {}).get? name

/-- Makes an operand the version of a variable in a block. -/
def bind (s : Scope) (block : BlockId) (name : String) (value : OperandId) : Scope :=
  { s with versions :=
      s.versions.insert block.index ((s.versions.getD block.index {}).insert name value) }

/-- Whether a variable has a version in some block. -/
def wasWritten (s : Scope) (name : String) : Bool :=
  s.versions.any fun _ names => names.contains name

end Scope

/-- The state of lowering a file: what is built, the function and block that are being filled,
the enclosing class, the constants that the top level of the file defined, and the reads of
variables so far. -/
structure Builder where
  arena : Arena
  script : Script
  labels : Labels
  scope : Scope := {}
  func : FuncId
  block : BlockId
  cls : Option String := none
  consts : Std.TreeMap String OperandId := {}
  reads : Array Reading := #[]

/-- A step of lowering that cannot fail. -/
abbrev Build := StateM Builder

/-- A step of lowering that may fail. -/
abbrev Lowering := ExceptT Error Build

/-! ## The arena -/

/-- Builds something in the arena. -/
def build {α : Type} (f : Arena → α × Arena) : Build α :=
  modifyGet fun b =>
    let (made, arena) := f b.arena
    (made, { b with arena })

/-- Changes the arena. -/
def change (f : Arena → Arena) : Build Unit := modify fun b => { b with arena := f b.arena }

/-- Looks something up in the arena. -/
def look {m : Type → Type} [Monad m] [MonadStateOf Builder m] {α : Type} (f : Arena → α) : m α := do
  return f (← get).arena

/-- Changes what is known inside the function. -/
def changeScope (f : Scope → Scope) : Build Unit := modify fun b => { b with scope := f b.scope }

/-- Makes an operand. -/
def newOperand (kind : OperandKind) : Build OperandId := build (·.newOperand kind)

/-- Makes the operand of a string. -/
def newString (s : String) : Build OperandId := newOperand (.string s)

/-- Makes the operand of a number. -/
def newNumber (x : Float) : Build OperandId := newOperand (.scalar (.number x))

/-- Makes a temporary, a version of a variable if one is given. -/
def newTemporary (owner : Option OperandId) : Build OperandId :=
  newOperand (.temporary owner)

/-- Makes the operand of a variable that is named by a string. -/
def newVariable (name : String) : Build OperandId := do
  newOperand (.variable (← newString name) none)

/-- Makes a block of the current function. -/
def newBlock : Build BlockId := do
  let func := (← get).func
  build (·.newBlock (some func))

/-- Goes on in another block. -/
def goTo (block : BlockId) : Build Unit := modify fun b => { b with block }

/-- Goes on in a new block that nothing leads to. -/
def goDead : Build Unit := do
  let block ← newBlock
  change (·.modifyBlock block fun b => { b with dead := true })
  goTo block

/-- Whether a block is dead. -/
def isDead (block : BlockId) : Build Bool := look fun a => (a.block block).dead

/-- Changes the record of the current function. -/
def changeFunc (f : Func → Func) : Build Unit :=
  modify fun b => { b with arena := b.arena.modifyFunc b.func f }

/-! ## Operations -/

/-- Makes an operation outside of all blocks. -/
def detached (kind : OpKind) (span : Span) : Build OpId := build (·.addOp kind span)

/-- Makes an operation at the end of the current block. One that reads an input is among the
sources of the function. -/
def emit (kind : OpKind) (span : Span) : Build OpId := do
  let op ← detached kind span
  let block := (← get).block
  change (·.append block op)
  if ← look fun a => kind.reads.any fun id => (a.operand id).tainted then
    changeFunc fun f => { f with sources := f.sources ++ [op] }
  return op

/-- Makes an operation at the end of the current block, with a new temporary as its result. -/
def emitValue (span : Span) (make : OperandId → OpKind) : Build OperandId := do
  let result ← newTemporary none
  let _ ← emit (make result) span
  return result

/-- Makes a call at the end of the current block. -/
def emitCall (span : Span) (make : OperandId → OpKind) : Build OperandId := do
  let result ← newTemporary none
  let op ← emit (make result) span
  changeFunc fun f => { f with calls := f.calls ++ [op] }
  return result

/-- Jumps from the current block. -/
def jump (target : BlockId) (span : Span) : Build Unit := do
  let _ ← emit (.jump target) span
  let block := (← get).block
  change (·.link block target)

/-- Branches from the current block. -/
def jumpIf (cond : OperandId) (ifTarget elseTarget : BlockId) (span : Span) : Build Unit := do
  let _ ← emit (.jumpIf cond ifTarget elseTarget) span
  let block := (← get).block
  change fun a =>
    ((a.modifyBlock block fun b => { b with guarded := true }).link block ifTarget).link block
      elseTarget

/-- The negation of a condition, made only to guard blocks. -/
def negate (cond : OperandId) : Build OperandId := do
  let result ← newTemporary none
  let _ ← detached (.unary .booleanNot cond result) .none
  return result

/-- Guards a block by all conditions around the current statement. -/
def guardBlock (block : BlockId) : Build Unit := do
  let conditions := (← get).scope.conditions
  change fun a => conditions.reverse.foldl (fun a cond => a.addGuard block cond) a

/-- Runs a step under one more condition. -/
def under {α : Type} (cond : OperandId) (step : Lowering α) : Lowering α := do
  changeScope fun s => { s with conditions := cond :: s.conditions }
  let result ← step
  changeScope fun s => { s with conditions := s.conditions.tail }
  return result

/-- Runs a step in another block, and comes back. -/
def inBlock {α : Type} (block : BlockId) (step : Lowering α) : Lowering α := do
  let here := (← get).block
  goTo block
  let result ← step
  goTo here
  return result

end QueryTaint.Lower
