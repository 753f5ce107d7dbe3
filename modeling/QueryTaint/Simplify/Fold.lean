import QueryTaint.Ir.Arena
import QueryTaint.Scalar.Evaluate

/-!
# Constant folding

Operators, casts and concatenations of known scalars are evaluated: what reads the result reads the
value instead, and the operation is removed. Folding a function goes on until a round changes
nothing.
-/

namespace QueryTaint.Arena

/-- The concatenation of known scalars. -/
def concatOf? (a : Arena) (ids : List OperandId) : Option (Scalar Float) := do
  let parts ← ids.mapM a.literalOf?
  return .string (String.join (parts.map (·.toText)))

/-- The value of an operation on known scalars. -/
def evaluate? (a : Arena) : OpKind → Option (Scalar Float)
  | .binary op left right _ => do Scalar.binary? op (← a.literalOf? left) (← a.literalOf? right)
  | .unary op expr _ => do Scalar.unary? op (← a.literalOf? expr)
  | .cast kind expr _ => do Scalar.cast? kind (← a.literalOf? expr)
  | .concatList list _ => a.concatOf? list
  | _ => none

/-- Folds one operation, none when its value is not known. -/
def foldOp? (a : Arena) (op : OpId) : Option Arena := do
  let kind := (a.op op).kind
  let value ← a.evaluate? kind
  let result ← kind.result?
  let (constant, a) := a.newOperand (.scalar value)
  return (a.replaceUses result constant).removeOp op

/-- The operations in the live blocks of a function. -/
def liveOps (a : Arena) (func : FuncId) : List OpId :=
  ((a.func func).blocks.filter fun b => !(a.block b).dead).flatMap fun b => (a.block b).ops

/-- Folds what can be folded among some operations, and counts it. -/
def foldOps (a : Arena) (count : Nat) : List OpId → Nat × Arena
  | [] => (count, a)
  | op :: rest =>
    match a.foldOp? op with
    | some a => foldOps a (count + 1) rest
    | none => foldOps a count rest

/-- How many operations stand in blocks. -/
def placedOps (a : Arena) : Nat := a.ops.countP (·.block.isSome)

/-- Folds a function until nothing changes, and counts the folded operations. Every round but the
last takes operations out of blocks. -/
def fold (a : Arena) (func : FuncId) : Nat × Arena :=
  let (count, folded) := a.foldOps 0 (a.liveOps func)
  if count = 0 then (0, folded)
  else if folded.placedOps < a.placedOps then
    let (more, a) := folded.fold func
    (count + more, a)
  else (count, folded)
termination_by a.placedOps

/-- What folding a function did: the operations that learned their place, and those folded. -/
structure OptimizeStats where
  installed : Nat
  folded : Nat
deriving DecidableEq, Repr, Inhabited

/-- Tells an operation its block and file. -/
def installOp (file : Option String) (block : BlockId) (a : Arena) (op : OpId) : Arena :=
  a.modifyOp op fun o => { o with block := some block, file }

/-- Tells the operations of a function their blocks and their file. -/
def install (a : Arena) (func : FuncId) : Nat × Arena :=
  let file := (a.func func).file
  (a.func func).blocks.foldl (fun (count, a) block =>
    let ops := (a.block block).phis ++ (a.block block).ops
    (count + ops.length, ops.foldl (installOp file block) a)) (0, a)

/-- Tells the operations of a function their places, and folds it. -/
def optimize (a : Arena) (func : FuncId) : OptimizeStats × Arena :=
  let (installed, a) := a.install func
  let (folded, a) := a.fold func
  (⟨installed, folded⟩, a)

end QueryTaint.Arena
