import QueryTaint.Ir.Arena
import QueryTaint.Simplify.Fold

/-!
# Trivial φ operations

A φ operation that merges at most one value besides its own result is trivial: its result is that
value, or undefined if there is none. Removing one can make others trivial, which are then looked at
again.
-/

namespace QueryTaint.Arena

/-- The operands of a φ operation other than its result, each once. -/
def merged (vars : List OperandId) (result : OperandId) : List OperandId :=
  (vars.filter (· ≠ result)).eraseDups

/-- The value and the result of a trivial φ operation. -/
def trivialPhi? (a : Arena) (phi : OpId) : Option (Option OperandId × OperandId) :=
  match (a.op phi).kind with
  | .phi vars result =>
    match merged vars result with
    | [] => some (none, result)
    | [value] => some (some value, result)
    | _ => none
  | _ => none

/-- Whether an operation is a φ operation. -/
def isPhi (a : Arena) (op : OpId) : Bool :=
  match (a.op op).kind with
  | .phi .. => true
  | _ => false

/-- The other φ operations that read an operand. -/
def phiUsers (a : Arena) (phi : OpId) (result : OperandId) : List OpId :=
  (a.operand result).usages.filter fun u => u ≠ phi && a.isPhi u

/-- Removes a trivial φ operation in favour of its value. -/
def removePhi (a : Arena) (phi : OpId) (value : Option OperandId) (result : OperandId) : Arena :=
  let a := a.removeOp phi
  match value with
  | some value => a.replaceUses result value
  | none => a

/-- Removes trivial φ operations from a worklist, and counts them. A removed operation leaves its
block, and adds those that read its result to the worklist. -/
def removePhis (a : Arena) (count : Nat) (worklist : List OpId) : Nat × Arena :=
  match worklist with
  | [] => (count, a)
  | phi :: rest =>
    match (a.op phi).block, a.trivialPhi? phi with
    | some _, some (value, result) =>
      let users := a.phiUsers phi result
      let next := a.removePhi phi value result
      let waiting := users.filter fun u => (next.op u).block.isSome
      if next.placedOps < a.placedOps then
        removePhis next (count + 1) (waiting.foldl addNew rest)
      else (count + 1, next)
    | _, _ => removePhis a count rest
termination_by (a.placedOps, worklist.length)

/-- The φ operations of a function. -/
def phisOf (a : Arena) (func : FuncId) : List OpId :=
  (a.func func).blocks.flatMap fun b => (a.block b).phis

/-- How many φ operations a function had, and how many of them were removed. -/
structure PhiStats where
  total : Nat
  removed : Nat
deriving DecidableEq, Repr, Inhabited

/-- The share of φ operations that were removed. -/
def PhiStats.ratio (s : PhiStats) : Float :=
  if s.total = 0 then 0.0 else Binary64.nearest false s.removed s.total

/-- Removes the trivial φ operations of a function. -/
def eliminatePhis (a : Arena) (func : FuncId) : PhiStats × Arena :=
  let phis := a.phisOf func
  let (removed, a) := a.removePhis 0 phis
  (⟨phis.length, removed⟩, a)

end QueryTaint.Arena

/-!
# Blocks that only jump

A block whose only operation is a jump is bypassed: its predecessor leads to the jump's target
instead, and takes the block's place among the target's predecessors, so that the operands of φ
operations there keep belonging to the same edges.
-/

namespace QueryTaint.Arena

/-- Where a live block without φ operations jumps that does nothing else. -/
def jumpOnly? (a : Arena) (block : BlockId) : Option BlockId :=
  let b := a.block block
  match b.dead, b.phis, b.ops with
  | false, [], [op] =>
    match (a.op op).kind with
    | .jump target => some target
    | _ => none
  | _, _, _ => none

/-- The predecessor and its terminator, if a block that jumps to `target` can be bypassed. The
predecessor must not lead to the target already: one block would then stand for two edges. -/
def bypassable? (a : Arena) (block target : BlockId) : Option (BlockId × OpId) :=
  match a.livePreds block with
  | [pred] => do
    if pred = block || pred ∈ (a.block target).preds then none
    else
      let terminator ← a.terminator? pred
      if block ∈ (a.op terminator).kind.successors then some (pred, terminator) else none
  | _ => none

/-- Replaces one element by another. -/
def swap (old new : BlockId) (id : BlockId) : BlockId := if id = old then new else id

/-- Bypasses a block. -/
def bypass (a : Arena) (block target pred : BlockId) (terminator : OpId) : Arena :=
  let a := a.modifyOp terminator fun o => { o with kind := o.kind.mapBlocks (swap block target) }
  let a := a.modifyBlock target fun b => { b with preds := b.preds.map (swap block pred) }
  let a := match (a.block block).ops.getLast? with
    | some jump => a.removeOp jump
    | none => a
  a.modifyBlock block fun b => { b with dead := true, preds := b.preds.filter (· ≠ pred) }

/-- How many blocks were bypassed, and which ones jump to themselves. -/
structure JumpState where
  coalesced : Nat := 0
  loops : List BlockId := []

/-- Bypasses a block if that is possible. -/
def tryBypass (s : JumpState) (a : Arena) (block : BlockId) : JumpState × Arena :=
  match a.jumpOnly? block with
  | none => (s, a)
  | some target =>
    if target = block then ({ s with loops := addNew s.loops block }, a)
    else match a.bypassable? block target with
      | none => (s, a)
      | some (pred, terminator) =>
        ({ s with coalesced := s.coalesced + 1 }, a.bypass block target pred terminator)

/-- How many blocks are not dead. -/
def liveBlocks (a : Arena) : Nat := a.blocks.countP (!·.dead)

/-- Bypasses blocks in rounds until one changes nothing. Every bypassed block is dead after it. -/
def coalesceFrom (func : FuncId) (s : JumpState) (a : Arena) : JumpState × Arena :=
  let f := a.func func
  let (next, changed) := (f.blocks.filter (· ≠ f.entry)).foldl
    (fun (s, a) block => tryBypass s a block) (s, a)
  if next.coalesced = s.coalesced then (next, changed)
  else if changed.liveBlocks < a.liveBlocks then coalesceFrom func next changed
  else (next, changed)
termination_by a.liveBlocks

/-- Bypasses the blocks of a function that only jump. -/
def coalesce (a : Arena) (func : FuncId) : JumpState × Arena := coalesceFrom func {} a

end QueryTaint.Arena

/-!
# Simplifying functions

Trivial φ operations are removed first, and then blocks that only jump.
-/

namespace QueryTaint.Arena

/-- What simplifying a function did. -/
structure SimplifyStats where
  phis : Nat
  coalesced : Nat
  loops : Nat
deriving DecidableEq, Repr, Inhabited

/-- Simplifies a function. -/
def simplify (a : Arena) (func : FuncId) : SimplifyStats × Arena :=
  let (phis, a) := a.eliminatePhis func
  let (jumps, a) := a.coalesce func
  (⟨phis.removed, jumps.coalesced, jumps.loops.length⟩, a)

/-- Does something to functions one after the other, and collects what was done. -/
def forFuncs {σ : Type} (step : Arena → FuncId → σ × Arena) (a : Arena) :
    List FuncId → List σ × Arena
  | [] => ([], a)
  | func :: rest =>
    let (stats, a) := step a func
    let (more, a) := forFuncs step a rest
    (stats :: more, a)

/-- Folds functions one after the other. -/
def optimizeAll (a : Arena) (funcs : List FuncId) : List OptimizeStats × Arena :=
  forFuncs optimize a funcs

/-- Simplifies functions one after the other. -/
def simplifyAll (a : Arena) (funcs : List FuncId) : List SimplifyStats × Arena :=
  forFuncs simplify a funcs

end QueryTaint.Arena
