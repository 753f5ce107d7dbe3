import QueryTaint.Error
import QueryTaint.Ir.Arena

/-!
# Checking programs

The invariants that every program of the intermediate language keeps: the lists of writers and
readers agree with the operations' fields, every input is tainted, and every function's blocks and
φ operations fit together. A check fails with the first violation.
-/

namespace QueryTaint.Arena

/-- The first violation among the slots of an operation in a block. -/
def slotFault? (a : Arena) (op : OpId) : Option Error :=
  let kind := (a.op op).kind
  kind.slots.findSome? fun (slot, id) =>
    let o := a.operand id
    if kind.writes slot then
      if op ∈ o.defs then none
      else some (.invariant op.text id.text
        ("written at `" ++ slot.field.text ++ "` but not in defs"))
    else if op ∈ o.usages then none
    else some (.invariant op.text id.text
      ("read at `" ++ slot.field.text ++ "` but not in usages"))

/-- The first violation among the lists of an operand. -/
def operandFault? (a : Arena) (id : OperandId) : Option Error :=
  let o := a.operand id
  let stray := (o.usages ++ o.defs).find? fun op =>
    !((a.op op).kind.slots.any fun (_, used) => used = id)
  match stray, o.kind.isTemporary, o.defs with
  | some op, _, _ =>
    some (.invariant op.text id.text "operand lists op that does not reference it")
  | none, true, _ :: second :: _ =>
    some (.invariant second.text id.text
      ("temporary has " ++ toString o.defs.length ++ " defining ops"))
  | _, _, _ => none

/-- The numbers of a table's entries. -/
def indices {α : Type} (table : Array α) : List Nat := List.range table.size

/-- The check that writers and readers agree with the operations in blocks. -/
def verifyDefUse (a : Arena) : Except Error Unit := do
  let placed := (indices a.ops).filter fun i => (a.op ⟨i⟩).block.isSome
  if let some e := placed.findSome? fun i => a.slotFault? ⟨i⟩ then throw e
  if let some e := (indices a.operands).findSome? fun i => a.operandFault? ⟨i⟩ then throw e

/-- The check that every input is tainted. -/
def verifyTaint (a : Arena) : Except Error Unit := do
  let clean := (indices a.operands).find? fun i =>
    match (a.operand ⟨i⟩).kind with
    | .symbolic _ => !(a.operand ⟨i⟩).tainted
    | _ => false
  if let some i := clean then
    throw (.invariant "-" (OperandId.text ⟨i⟩) "symbolic operand without taint bit")

/-- The first violation in a block of a function. -/
def blockFault? (a : Arena) (blocks : List BlockId) (id : BlockId) : Option Error :=
  let b := a.block id
  match b.ops.dropLast.find? fun op => (a.op op).kind.isTerminator with
  | some op => some (.invariant op.text "-" ("terminator in the middle of " ++ id.text))
  | none =>
    if b.dead then
      let live := b.preds.find? fun p =>
        p ∈ blocks && !(a.block p).dead && id ∈ a.successors p
      live.map fun p =>
        .invariant ((a.terminator? p).map (·.text) |>.getD "-") id.text
          ("dead block is targeted by live " ++ p.text)
    else
      let arity := (a.livePreds id).length
      b.phis.findSome? fun phi =>
        match (a.op phi).kind with
        | .phi vars result =>
          if vars.length = arity then none
          else some (.invariant phi.text result.text
            ("phi has " ++ toString vars.length ++ " operands but " ++ id.text ++ " has "
              ++ toString arity ++ " live predecessors"))
        | _ => none

/-- The check of a function's blocks. -/
def verifyFunc (a : Arena) (id : FuncId) : Except Error Unit :=
  let blocks := (a.func id).blocks
  match blocks.findSome? (a.blockFault? blocks) with
  | some e => .error e
  | none => .ok ()

/-- All checks on all functions. -/
def verify (a : Arena) : Except Error Unit := do
  a.verifyDefUse
  a.verifyTaint
  (indices a.funcs).forM fun i => a.verifyFunc ⟨i⟩

/-- All checks, those of blocks on the functions of some scripts only. -/
def verifyScripts (a : Arena) (scripts : List Script) : Except Error Unit := do
  a.verifyDefUse
  a.verifyTaint
  scripts.forM fun s => s.ordered.forM a.verifyFunc

end QueryTaint.Arena
