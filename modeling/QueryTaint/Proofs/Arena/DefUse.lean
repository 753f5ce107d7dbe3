import QueryTaint.Proofs.Arena.Access

/-!
# Writers and readers

Every operand lists the operations that write it, those that read it and the blocks that it guards.
`Arena.DefUse` says that these lists are exact: they hold the operations that mention the operand in
a slot of the right sort and were not removed, each of them once, and the blocks whose guards
mention it. It holds of the empty arena, and each operation on arenas keeps it, given that what the
operation mentions exists.
-/

namespace QueryTaint

namespace Operand

/-- The operations that write the operand, or those that read it. -/
def listed (o : Operand) : Bool → List OpId
  | true => o.defs
  | false => o.usages

/-- Records an operation that writes or reads the operand, or does both. -/
def note (o : Operand) (op : OpId) (wrote read : Bool) : Operand :=
  let o := if wrote then o.addDef op else o
  if read then o.addUsage op else o

/-- Forgets an operation that wrote or read the operand. -/
def forget (o : Operand) (op : OpId) : Operand := (o.removeUsage op).removeDef op

theorem mem_listed_note {o : Operand} {op other : OpId} {wrote read sort : Bool} :
    other ∈ (o.note op wrote read).listed sort ↔
      other ∈ o.listed sort ∨ (bif sort then wrote else read) = true ∧ other = op := by
  cases wrote <;> cases read <;> cases sort <;>
    simp [note, listed, addDef, addUsage, mem_addNew]

theorem nodup_listed_note {o : Operand} {sort : Bool} (h : (o.listed sort).Nodup) (op : OpId)
    (wrote read : Bool) : ((o.note op wrote read).listed sort).Nodup := by
  cases wrote <;> cases read <;> cases sort <;>
    simp_all [note, listed, addDef, addUsage, nodup_addNew]

@[simp] theorem condUsages_note (o : Operand) (op : OpId) (wrote read : Bool) :
    (o.note op wrote read).condUsages = o.condUsages := by
  cases wrote <;> cases read <;> rfl

@[simp] theorem kind_note (o : Operand) (op : OpId) (wrote read : Bool) :
    (o.note op wrote read).kind = o.kind := by
  cases wrote <;> cases read <;> rfl

theorem note_addUsage (o : Operand) (op : OpId) (wrote read : Bool) :
    (o.addUsage op).note op wrote read = o.note op wrote true := by
  cases wrote <;> cases read <;>
    simp [note, addUsage, addDef, addNew_of_mem (mem_addNew.2 (.inr rfl))]

theorem note_addDef (o : Operand) (op : OpId) (wrote read : Bool) :
    (o.addDef op).note op wrote read = o.note op true read := by
  cases wrote <;> cases read <;>
    simp [note, addUsage, addDef, addNew_of_mem (mem_addNew.2 (.inr rfl))]

theorem mem_listed_forget {o : Operand} {op other : OpId} {sort : Bool} :
    other ∈ (o.forget op).listed sort ↔ other ∈ o.listed sort ∧ other ≠ op := by
  cases sort <;> simp [forget, listed, removeUsage, removeDef]

theorem mem_usages_forget {o : Operand} {op other : OpId} :
    other ∈ (o.forget op).usages ↔ other ∈ o.usages ∧ other ≠ op :=
  @mem_listed_forget o op other false

theorem nodup_listed_forget {o : Operand} {sort : Bool} (h : (o.listed sort).Nodup) (op : OpId) :
    ((o.forget op).listed sort).Nodup := by
  cases sort <;> exact h.filter _

end Operand

namespace Arena

/-- Whether an operation was made and not removed. -/
def Kept (a : Arena) (removed : List OpId) (op : OpId) : Prop :=
  op.index < a.ops.size ∧ op ∉ removed

/-- The lists of all operands are exact, where `removed` are the operations that were removed. -/
structure DefUse (a : Arena) (removed : List OpId) : Prop where
  listed (sort : Bool) (id : OperandId) (op : OpId) :
    op ∈ (a.operand id).listed sort ↔ a.Kept removed op ∧ id ∈ (a.op op).kind.mentioned sort
  nodup (sort : Bool) (id : OperandId) : ((a.operand id).listed sort).Nodup
  guards (id : OperandId) (block : BlockId) :
    block ∈ (a.operand id).condUsages ↔ id ∈ (a.block block).guards
  removed_lt : ∀ op ∈ removed, op.index < a.ops.size

variable {a : Arena} {removed : List OpId}

namespace DefUse

theorem operand_lt (h : a.DefUse removed) {op : OpId} (hk : a.Kept removed op) {sort : Bool}
    {id : OperandId} (hm : id ∈ (a.op op).kind.mentioned sort) :
    id.index < a.operands.size := by
  refine Nat.lt_of_not_le fun hn => ?_
  have hl := (h.listed sort id op).2 ⟨hk, hm⟩
  rw [operand_of_le a hn] at hl
  cases sort <;> cases hl

theorem guard_lt (h : a.DefUse removed) {id : OperandId} {block : BlockId}
    (hm : id ∈ (a.block block).guards) : id.index < a.operands.size := by
  refine Nat.lt_of_not_le fun hn => ?_
  have hl := (h.guards id block).2 hm
  rw [operand_of_le a hn] at hl
  cases hl

theorem guarded_lt (h : a.DefUse removed) {id : OperandId} {block : BlockId}
    (hm : block ∈ (a.operand id).condUsages) : block.index < a.blocks.size := by
  refine Nat.lt_of_not_le fun hn => ?_
  have hg := (h.guards id block).1 hm
  rw [block_of_le a hn] at hg
  cases hg

/-- The lists depend on the operations' kinds and the blocks' guards only. -/
theorem congr (h : a.DefUse removed) {a' : Arena} (hops : a'.ops.size = a.ops.size)
    (hkind : ∀ op, (a'.op op).kind = (a.op op).kind)
    (hoperand : ∀ id, a'.operand id = a.operand id)
    (hguards : ∀ b, (a'.block b).guards = (a.block b).guards) : a'.DefUse removed where
  listed sort id op := by
    rw [hoperand, h.listed, hkind]
    simp only [Kept, hops]
  nodup sort id := by rw [hoperand]; exact h.nodup sort id
  guards id b := by rw [hoperand, hguards]; exact h.guards id b
  removed_lt op hop := by rw [hops]; exact h.removed_lt op hop

end DefUse

/-! ## Making entries -/

theorem empty_defUse : ({} : Arena).DefUse [] where
  listed sort id op := by
    constructor
    · intro hl
      cases sort <;> cases hl
    · rintro ⟨⟨hlt, -⟩, -⟩
      cases hlt
  nodup sort id := by cases sort <;> exact List.nodup_nil
  guards id b := ⟨nofun, nofun⟩
  removed_lt := nofun

theorem operand_newOperand (a : Arena) (kind : OperandKind) (id : OperandId) :
    (a.newOperand kind).2.operand id =
      if id.index = a.operands.size then { kind } else a.operand id := by
  simp only [newOperand, operand, getD_push]

/-- A new operand is mentioned nowhere. -/
theorem newOperand_defUse (h : a.DefUse removed) (kind : OperandKind) :
    (a.newOperand kind).2.DefUse removed where
  listed sort id op := by
    rw [operand_newOperand]
    split
    · rename_i hid
      constructor
      · intro hl
        cases sort <;> cases hl
      · rintro ⟨hk, hm⟩
        exact absurd (h.operand_lt hk hm) (by omega)
    · exact h.listed sort id op
  nodup sort id := by
    rw [operand_newOperand]
    split
    · cases sort <;> exact List.nodup_nil
    · exact h.nodup sort id
  guards id b := by
    rw [operand_newOperand]
    split
    · rename_i hid
      exact ⟨nofun, fun hm => absurd (h.guard_lt hm) (by omega)⟩
    · exact h.guards id b
  removed_lt := h.removed_lt

theorem guards_push (a : Arena) (b : Block) (hb : b.guards = []) (id : BlockId) :
    (({ a with blocks := a.blocks.push b } : Arena).block id).guards = (a.block id).guards := by
  simp only [block, getD_push]
  split
  · rename_i hid
    simp [hb, hid]
    rfl
  · rfl

theorem newBlock_defUse (h : a.DefUse removed) (func : Option FuncId) :
    (a.newBlock func).2.DefUse removed := by
  have hg := guards_push a { func } rfl
  cases func <;> exact h.congr rfl (fun _ => rfl) (fun _ => rfl) hg

theorem newFunc_defUse (h : a.DefUse removed) (name : String) :
    (a.newFunc name).2.DefUse removed :=
  h.congr rfl (fun _ => rfl) (fun _ => rfl) (guards_push a { func := some ⟨a.funcs.size⟩ } rfl)

/-- What recording an operation in the operands of some slots does to one operand. -/
theorem getD_foldl_recordSlot (kind : OpKind) (op : OpId) (entries : List (Slot × OperandId))
    (operands : Array Operand) (j : OperandId) (hj : j.index < operands.size) :
    (entries.foldl (recordSlot kind op) operands).getD j.index default =
      (operands.getD j.index default).note op
        (entries.any fun e => e.2 = j && kind.writes e.1)
        (entries.any fun e => e.2 = j && !kind.writes e.1) := by
  induction entries generalizing operands with
  | nil => rfl
  | cons e entries ih =>
    rw [List.foldl_cons, ih _ (by simpa [recordSlot] using hj), recordSlot, getD_modify]
    simp only [OperandId.ext_iff', hj, and_true, List.any_cons]
    by_cases he : e.2 = j
    · cases hw : kind.writes e.1 <;>
        simp only [he, if_true, decide_true, Bool.true_and, Bool.not_true, Bool.not_false,
          Bool.true_or, Bool.false_or, Bool.false_eq_true, if_false]
      · rw [Operand.note_addUsage]
      · rw [Operand.note_addDef]
    · simp [he]

theorem size_foldl_recordSlot (kind : OpKind) (op : OpId) (entries : List (Slot × OperandId))
    (operands : Array Operand) :
    (entries.foldl (recordSlot kind op) operands).size = operands.size := by
  induction entries generalizing operands with
  | nil => rfl
  | cons e entries ih => rw [List.foldl_cons, ih, recordSlot, Array.size_modify]

theorem any_slots_iff {kind : OpKind} {id : OperandId} {sort : Bool} :
    (kind.slots.any fun e => e.2 = id && (kind.writes e.1 == sort)) = true ↔
      id ∈ kind.mentioned sort := by
  simp only [List.any_eq_true, Bool.and_eq_true, decide_eq_true_eq, beq_iff_eq,
    OpKind.mem_mentioned, Prod.exists]
  constructor
  · rintro ⟨slot, _, hm, rfl, hw⟩
    exact ⟨slot, hm, hw⟩
  · rintro ⟨slot, hm, hw⟩
    exact ⟨slot, id, hm, rfl, hw⟩

/-- What recording an operation does to its operands. -/
theorem operand_addOp (a : Arena) (kind : OpKind) (span : Span) (file : Option String)
    {id : OperandId} (hid : id.index < a.operands.size) :
    (a.addOp kind span file).2.operand id =
      (a.operand id).note ⟨a.ops.size⟩
        (kind.slots.any fun e => e.2 = id && (kind.writes e.1 == true))
        (kind.slots.any fun e => e.2 = id && (kind.writes e.1 == false)) := by
  simp only [addOp, operand]
  rw [getD_foldl_recordSlot _ _ _ _ _ hid]
  simp

theorem op_addOp (a : Arena) (kind : OpKind) (span : Span) (file : Option String) (op : OpId) :
    (a.addOp kind span file).2.op op =
      if op.index = a.ops.size then { kind, span, file } else a.op op := by
  simp only [addOp, Arena.op, getD_push]

theorem kept_addOp (h : a.DefUse removed) (kind : OpKind) (span : Span) (file : Option String)
    (op : OpId) :
    (a.addOp kind span file).2.Kept removed op ↔ a.Kept removed op ∨ op = ⟨a.ops.size⟩ := by
  have hsize : (a.addOp kind span file).2.ops.size = a.ops.size + 1 := by simp [addOp]
  simp only [Kept, hsize, ← OpId.ext_iff']
  constructor
  · rintro ⟨hlt, hr⟩
    rcases Nat.lt_succ_iff_lt_or_eq.1 hlt with hlt | heq
    · exact .inl ⟨hlt, hr⟩
    · exact .inr heq
  · rintro (⟨hlt, hr⟩ | heq)
    · exact ⟨by omega, hr⟩
    · refine ⟨by omega, fun hr => ?_⟩
      have hlt := h.removed_lt op hr
      omega

/-- An operation is recorded with the operands it mentions. -/
theorem addOp_defUse (h : a.DefUse removed) (kind : OpKind) (span : Span) (file : Option String)
    (hin : ∀ sort, ∀ id ∈ kind.mentioned sort, id.index < a.operands.size) :
    (a.addOp kind span file).2.DefUse removed := by
  have hout : ∀ id : OperandId, ¬ id.index < a.operands.size →
      (a.addOp kind span file).2.operand id = default := fun id hid =>
    operand_of_le _ (by simp only [addOp, size_foldl_recordSlot]; omega)
  constructor
  · intro sort id op
    rw [kept_addOp h, op_addOp]
    by_cases hid : id.index < a.operands.size
    · have hsort : (bif sort then kind.slots.any fun e => e.2 = id && (kind.writes e.1 == true)
          else kind.slots.any fun e => e.2 = id && (kind.writes e.1 == false)) = true ↔
            id ∈ kind.mentioned sort := by
        cases sort <;> exact any_slots_iff
      rw [operand_addOp a kind span file hid, Operand.mem_listed_note, hsort, h.listed]
      by_cases hop : op = ⟨a.ops.size⟩
      · subst hop
        simp [Kept]
      · have hne : op.index ≠ a.ops.size := fun he => hop (OpId.ext_iff'.1 he)
        simp [hop, hne]
    · rw [hout id hid]
      constructor
      · intro hl
        cases sort <;> cases hl
      · rintro ⟨hk, hm⟩
        rcases hk with hk | rfl
        · rw [if_neg (Nat.ne_of_lt hk.1)] at hm
          exact absurd (h.operand_lt hk hm) hid
        · rw [if_pos rfl] at hm
          exact absurd (hin sort id hm) hid
  · intro sort id
    by_cases hid : id.index < a.operands.size
    · rw [operand_addOp a kind span file hid]
      exact Operand.nodup_listed_note (h.nodup sort id) _ _ _
    · rw [hout id hid]
      cases sort <;> exact List.nodup_nil
  · intro id b
    by_cases hid : id.index < a.operands.size
    · rw [operand_addOp a kind span file hid, Operand.condUsages_note]
      exact h.guards id b
    · rw [hout id hid]
      exact ⟨nofun, fun hm => absurd (h.guard_lt hm) hid⟩
  · intro op hop
    have hlt := h.removed_lt op hop
    simp only [addOp, Array.size_push]
    omega

/-! ## Placing operations -/

theorem append_defUse (h : a.DefUse removed) (block : BlockId) (op : OpId) :
    (a.append block op).DefUse removed :=
  h.congr (by simp [append]) (fun _ => op_modifyOp_keep _ Op.kind _ _ fun _ => rfl) (fun _ => rfl)
    fun _ => block_modifyBlock_keep _ Block.guards _ _ fun _ => rfl

theorem attachPhi_defUse (h : a.DefUse removed) (block : BlockId) (phi : OpId) :
    (a.attachPhi block phi).DefUse removed :=
  h.congr (by simp [attachPhi]) (fun _ => op_modifyOp_keep _ Op.kind _ _ fun _ => rfl)
    (fun _ => rfl) fun _ => block_modifyBlock_keep _ Block.guards _ _ fun _ => rfl

theorem link_defUse (h : a.DefUse removed) (source target : BlockId) :
    (a.link source target).DefUse removed :=
  h.congr rfl (fun _ => rfl) (fun _ => rfl)
    fun _ => block_modifyBlock_keep _ Block.guards _ _ fun _ => rfl

/-- Changing what one operation mentions keeps the lists exact if every operand's lists change with
it. -/
theorem DefUse.recast (h : a.DefUse removed) {a' : Arena} {op : OpId} (kind : OpKind)
    (hop : a.Kept removed op) (hsize : a'.ops.size = a.ops.size)
    (hkind : ∀ o, (a'.op o).kind = if o = op then kind else (a.op o).kind)
    (hlisted : ∀ sort id o, o ∈ (a'.operand id).listed sort ↔
      if o = op then id ∈ kind.mentioned sort else o ∈ (a.operand id).listed sort)
    (hnodup : ∀ sort id, ((a'.operand id).listed sort).Nodup)
    (hcond : ∀ id, (a'.operand id).condUsages = (a.operand id).condUsages)
    (hguards : ∀ b, (a'.block b).guards = (a.block b).guards) : a'.DefUse removed where
  listed sort id o := by
    rw [hlisted, hkind]
    by_cases ho : o = op
    · subst ho
      simp only [if_true, Kept, hsize]
      exact ⟨fun hm => ⟨hop, hm⟩, And.right⟩
    · simp only [if_neg ho, Kept, hsize]
      exact h.listed sort id o
  nodup := hnodup
  guards id b := by rw [hcond, hguards]; exact h.guards id b
  removed_lt o ho := by rw [hsize]; exact h.removed_lt o ho

/-- A φ operation that merges one more operand is a reader of it. -/
theorem addPhiOperand_defUse (h : a.DefUse removed) {phi : OpId} {id : OperandId}
    (hphi : a.Kept removed phi) (hid : id.index < a.operands.size) :
    (a.addPhiOperand phi id).DefUse removed := by
  unfold addPhiOperand
  split
  · rename_i vars result hk
    have hoperand : ∀ j, ((a.modifyOp phi fun o =>
        { o with kind := .phi (vars ++ [id]) result }).modifyOperand id (·.addUsage phi)).operand j =
          if j = id then (a.operand j).note phi false true else a.operand j :=
      operand_modifyOperand_of_lt (a := a.modifyOp phi _) hid _
    have hself : ∀ sort j, phi ∈ (a.operand j).listed sort ↔
        j ∈ (OpKind.phi vars result).mentioned sort := by
      intro sort j
      rw [h.listed, hk]
      exact ⟨And.right, fun hm => ⟨hphi, hm⟩⟩
    refine h.recast (.phi (vars ++ [id]) result) hphi (by simp) (fun o => ?_)
      (fun sort j o => ?_) (fun sort j => ?_) (fun j => ?_) (fun _ => rfl)
    · rw [op_modifyOperand, op_modifyOp_of_lt hphi.1]
      by_cases ho : o = phi
      · simp [ho]
      · simp [ho]
    · rw [hoperand]
      by_cases ho : o = phi
      · subst ho
        by_cases hj : j = id
        · cases sort <;> simp [hj, Operand.mem_listed_note, hself, OpKind.mentioned_phi_false,
            OpKind.mentioned_phi_true]
        · cases sort <;> simp [hj, hself, OpKind.mentioned_phi_false, OpKind.mentioned_phi_true]
      · by_cases hj : j = id
        · simp [hj, ho, Operand.mem_listed_note]
        · simp [hj, ho]
    · rw [hoperand]
      split
      · exact Operand.nodup_listed_note (h.nodup sort j) _ _ _
      · exact h.nodup sort j
    · rw [hoperand]
      split
      · exact Operand.condUsages_note _ _ _ _
      · rfl
  · exact h

/-- A block that is guarded by one more operand is among the blocks that the operand guards. -/
theorem addGuard_defUse (h : a.DefUse removed) {block : BlockId} {cond : OperandId}
    (hblock : block.index < a.blocks.size) (hcond : cond.index < a.operands.size) :
    (a.addGuard block cond).DefUse removed := by
  have hoperand : ∀ id, (a.addGuard block cond).operand id =
      if id = cond then (a.operand id).addCondUsage block else a.operand id :=
    operand_modifyOperand_of_lt (a := a.modifyBlock block _) hcond _
  have hlisted : ∀ sort id, ((a.addGuard block cond).operand id).listed sort =
      (a.operand id).listed sort := by
    intro sort id
    rw [hoperand]
    split
    · cases sort <;> rfl
    · rfl
  constructor
  · intro sort id op
    rw [hlisted]
    exact h.listed sort id op
  · intro sort id
    rw [hlisted]
    exact h.nodup sort id
  · intro id b
    rw [hoperand, addGuard, block_modifyOperand, block_modifyBlock_of_lt hblock]
    by_cases hid : id = cond <;> by_cases hb : b = block <;>
      simp [hid, hb, Operand.addCondUsage, mem_addNew, h.guards]
  · exact h.removed_lt

/-! ## Replacing and removing -/

theorem mem_mentioned_replace {kind : OpKind} {old new id : OperandId} {sort : Bool}
    (hne : old ≠ new) :
    id ∈ (kind.mapOperands fun i => if i = old then new else i).mentioned sort ↔
      id ≠ old ∧ (id ∈ kind.mentioned sort ∨ id = new ∧ old ∈ kind.mentioned sort) := by
  rw [OpKind.mentioned_mapOperands, mem_map_replace hne]

/-- The slots of an operation that hold an operand, by whether they are written. -/
theorem any_filter_slots {kind : OpKind} {id : OperandId} {sort : Bool} :
    ((kind.slots.filter fun (_, i) => i = id).any fun (slot, _) => kind.writes slot == sort) = true ↔
      id ∈ kind.mentioned sort := by
  rw [← any_slots_iff, List.any_filter]

theorem replaceInOp_ops_size (a : Arena) (op : OpId) (old new : OperandId) :
    (a.replaceInOp op old new).ops.size = a.ops.size := by
  unfold replaceInOp
  split
  · rfl
  · simp

/-- An operation in which an operand is replaced is no longer a reader or writer of it, and is one
of the operand that replaces it. -/
theorem replaceInOp_defUse (h : a.DefUse removed) {op : OpId} {old new : OperandId}
    (hop : a.Kept removed op) (hold : old.index < a.operands.size)
    (hnew : new.index < a.operands.size) : (a.replaceInOp op old new).DefUse removed := by
  by_cases hne : old = new
  · rw [replaceInOp, if_pos hne]
    exact h
  let kind := (a.op op).kind.mapOperands fun i => if i = old then new else i
  let wrote := (kind.slots.filter fun (_, i) => i = new).any fun (slot, _) => kind.writes slot
  let read := (kind.slots.filter fun (_, i) => i = new).any fun (slot, _) => !kind.writes slot
  have heq : a.replaceInOp op old new = ((a.modifyOp op fun o => { o with kind }).modifyOperand old
      (·.forget op)).modifyOperand new (·.note op wrote read) := by
    rw [replaceInOp, if_neg hne]
    rfl
  have hsort : ∀ sort, (bif sort then wrote else read) = true ↔ new ∈ kind.mentioned sort := by
    intro sort
    rw [← any_filter_slots]
    cases sort <;> simp [wrote, read]
  have hself : ∀ sort j, op ∈ (a.operand j).listed sort ↔ j ∈ (a.op op).kind.mentioned sort := by
    intro sort j
    rw [h.listed]
    exact ⟨And.right, fun hm => ⟨hop, hm⟩⟩
  have hoperand : ∀ j, (a.replaceInOp op old new).operand j =
      if j = new then (a.operand j).note op wrote read
      else if j = old then (a.operand j).forget op else a.operand j := by
    intro j
    rw [heq, operand_modifyOperand_of_lt (by simpa using hnew),
      operand_modifyOperand_of_lt (by simpa using hold), operand_modifyOp]
    by_cases hj : j = new
    · simp [hj, Ne.symm hne]
    · simp [hj]
  refine h.recast kind hop (replaceInOp_ops_size a op old new) (fun o => ?_)
    (fun sort j o => ?_) (fun sort j => ?_) (fun j => ?_) (fun b => ?_)
  · rw [heq, op_modifyOperand, op_modifyOperand, op_modifyOp_of_lt hop.1]
    by_cases ho : o = op
    · simp [ho]
    · simp [ho]
  · rw [hoperand]
    by_cases ho : o = op
    · subst ho
      rw [if_pos rfl, mem_mentioned_replace hne]
      by_cases hj : j = new
      · subst hj
        rw [if_pos rfl, Operand.mem_listed_note, hsort, hself, mem_mentioned_replace hne]
        simp [Ne.symm hne]
      · rw [if_neg hj]
        by_cases hjo : j = old
        · simp [hjo, Operand.mem_listed_forget]
        · simp [hjo, hj, hself]
    · rw [if_neg ho]
      split
      · simp [Operand.mem_listed_note, ho]
      · split
        · simp [Operand.mem_listed_forget, ho]
        · rfl
  · rw [hoperand]
    split
    · exact Operand.nodup_listed_note (h.nodup sort j) _ _ _
    · split
      · exact Operand.nodup_listed_forget (h.nodup sort j) op
      · exact h.nodup sort j
  · rw [hoperand]
    split
    · exact Operand.condUsages_note _ _ _ _
    · split <;> rfl
  · rw [heq]
    rfl

theorem replaceInOp_operands_size (a : Arena) (op : OpId) (old new : OperandId) :
    (a.replaceInOp op old new).operands.size = a.operands.size := by
  unfold replaceInOp
  split
  · rfl
  · simp

theorem foldl_replaceInOp_defUse {old new : OperandId} (ops : List OpId) (h : a.DefUse removed)
    (hops : ∀ op ∈ ops, a.Kept removed op) (hold : old.index < a.operands.size)
    (hnew : new.index < a.operands.size) :
    (ops.foldl (fun a op => a.replaceInOp op old new) a).DefUse removed ∧
      (ops.foldl (fun a op => a.replaceInOp op old new) a).operands.size = a.operands.size := by
  induction ops generalizing a with
  | nil => exact ⟨h, rfl⟩
  | cons op ops ih =>
    have hsize := replaceInOp_operands_size a op old new
    have hrest := ih (replaceInOp_defUse h (hops op (List.mem_cons_self ..)) hold hnew)
      (fun o ho => by
        simp only [Kept, replaceInOp_ops_size]
        exact hops o (List.mem_cons_of_mem _ ho))
      (by rw [hsize]; exact hold) (by rw [hsize]; exact hnew)
    exact ⟨hrest.1, hrest.2.trans hsize⟩

/-- What replacing a guard of some blocks does to the tables. -/
theorem foldl_replaceGuard {old new : OperandId} (blocks : List BlockId) (a : Arena)
    (hne : old ≠ new) (hblocks : ∀ b ∈ blocks, b.index < a.blocks.size)
    (hnew : new.index < a.operands.size) :
    let a' := blocks.foldl (replaceGuard old new) a
    a'.ops = a.ops ∧
      (∀ id sort, (a'.operand id).listed sort = (a.operand id).listed sort) ∧
      (∀ id b, b ∈ (a'.operand id).condUsages ↔
        b ∈ (a.operand id).condUsages ∨ id = new ∧ b ∈ blocks) ∧
      ∀ id b, id ∈ (a'.block b).guards ↔
        if b ∈ blocks then id ≠ old ∧ (id ∈ (a.block b).guards ∨ id = new ∧ old ∈ (a.block b).guards)
        else id ∈ (a.block b).guards := by
  induction blocks generalizing a with
  | nil => simp
  | cons c blocks ih =>
    have hc : c.index < a.blocks.size := hblocks c (List.mem_cons_self ..)
    obtain ⟨hops, hlisted, hcond, hguards⟩ := ih (replaceGuard old new a c)
      (fun b hb => by simpa [replaceGuard] using hblocks b (List.mem_cons_of_mem _ hb))
      (by simpa [replaceGuard] using hnew)
    have hoperand : ∀ id, (replaceGuard old new a c).operand id =
        if id = new then (a.operand id).addCondUsage c else a.operand id :=
      operand_modifyOperand_of_lt (a := a.modifyBlock c _) hnew _
    have hblock : ∀ b, ((replaceGuard old new a c).block b).guards =
        if b = c then (a.block b).guards.map fun id => if id = old then new else id
        else (a.block b).guards := by
      intro b
      rw [replaceGuard, block_modifyOperand, block_modifyBlock_of_lt hc]
      split <;> rfl
    refine ⟨hops, fun id sort => ?_, fun id b => ?_, fun id b => ?_⟩
    · rw [List.foldl_cons, hlisted, hoperand]
      split
      · cases sort <;> rfl
      · rfl
    · rw [List.foldl_cons, hcond, hoperand]
      by_cases hid : id = new
      · simp only [hid, if_true, Operand.addCondUsage, mem_addNew, true_and, List.mem_cons]
        rw [or_assoc]
      · simp [hid]
    · rw [List.foldl_cons, hguards, hblock]
      by_cases hbc : b = c
      · simp only [hbc, if_true, List.mem_cons, true_or]
        rw [mem_map_replace hne, mem_map_replace hne]
        by_cases hmem : c ∈ blocks
        · rw [if_pos hmem]
          simp only [ne_eq, not_true_eq_false, false_and, and_false, or_false]
          exact ⟨fun h => h.2, fun h => ⟨h.1, h⟩⟩
        · rw [if_neg hmem]
      · simp only [hbc, if_false, List.mem_cons, false_or]

/-- After replacing an operand where it is read, its readers and the blocks it guards are those of
the operand that replaces it. -/
theorem replaceUses_defUse (h : a.DefUse removed) {old new : OperandId}
    (hold : old.index < a.operands.size) (hnew : new.index < a.operands.size) :
    (a.replaceUses old new).DefUse removed := by
  by_cases hne : old = new
  · rw [replaceUses, if_pos hne]
    exact h
  rw [replaceUses, if_neg hne]
  obtain ⟨h₁, hsize⟩ := foldl_replaceInOp_defUse (a.operand old).usages h
    (fun op hop => ((h.listed false old op).1 hop).1) hold hnew
  revert h₁ hsize
  generalize (a.operand old).usages.foldl (fun a op => a.replaceInOp op old new) a = a₁
  intro h₁ hsize
  have hold₁ : old.index < a₁.operands.size := hsize ▸ hold
  have hclear : ∀ id, (a₁.modifyOperand old fun o => { o with condUsages := [] }).operand id =
      if id = old then { a₁.operand id with condUsages := [] } else a₁.operand id :=
    operand_modifyOperand_of_lt hold₁ _
  obtain ⟨hops, hlisted, hcond, hguards⟩ := foldl_replaceGuard (a₁.operand old).condUsages
    (a₁.modifyOperand old fun o => { o with condUsages := [] }) hne
    (fun b hb => h₁.guarded_lt hb) (by simpa [hsize] using hnew)
  have hlists : ∀ id sort, ((a₁.modifyOperand old fun o => { o with condUsages := [] }).operand
      id).listed sort = (a₁.operand id).listed sort := by
    intro id sort
    rw [hclear]
    split
    · cases sort <;> rfl
    · rfl
  constructor
  · intro sort id op
    rw [hlisted, hlists, h₁.listed]
    simp only [Kept, Arena.op, hops, ops_modifyOperand]
  · intro sort id
    rw [hlisted, hlists]
    exact h₁.nodup sort id
  · intro id b
    rw [hcond, hguards, hclear]
    simp only [block_modifyOperand, h₁.guards]
    by_cases hid : id = old
    · subst hid
      by_cases hb : id ∈ (a₁.block b).guards
      · simp [hb, hne]
      · simp [hb, hne]
    · by_cases hb : old ∈ (a₁.block b).guards
      · simp [hb, hid, h₁.guards]
      · simp [hb, hid, h₁.guards]
  · intro op hop
    rw [hops, ops_modifyOperand]
    exact h₁.removed_lt op hop

theorem operand_modifyOperand_forget (a : Arena) (i j : OperandId) (op : OpId) :
    (a.modifyOperand i (·.forget op)).operand j =
      if j = i then (a.operand j).forget op else a.operand j := by
  rcases Nat.lt_or_ge i.index a.operands.size with hi | hi
  · exact operand_modifyOperand_of_lt hi _ _
  · rw [operand_modifyOperand, if_neg (fun hc => by have := hc.1 ▸ hc.2; omega)]
    split
    · rename_i hj
      subst hj
      rw [operand_of_le a hi]
      rfl
    · rfl

/-- What forgetting an operation in the operands of some slots does to the tables. -/
theorem foldl_forget (op : OpId) (entries : List (Slot × OperandId)) (a : Arena) :
    let a' := entries.foldl (fun a e => a.modifyOperand e.2 fun o =>
      (o.removeUsage op).removeDef op) a
    a'.ops = a.ops ∧ a'.blocks = a.blocks ∧ ∀ id, a'.operand id =
      if id ∈ entries.map (·.2) then (a.operand id).forget op else a.operand id := by
  induction entries generalizing a with
  | nil => simp
  | cons e entries ih =>
    obtain ⟨hops, hblocks, hoperand⟩ := ih (a.modifyOperand e.2 (·.forget op))
    refine ⟨hops, hblocks, fun id => ?_⟩
    refine (hoperand id).trans ?_
    rw [operand_modifyOperand_forget]
    by_cases hid : id = e.2
    · by_cases hm : id ∈ entries.map (·.2)
      · have hm' : e.2 ∈ entries.map (·.2) := hid ▸ hm
        simp [hid, hm', Operand.forget, Operand.removeUsage, Operand.removeDef]
      · have hm' : e.2 ∉ entries.map (·.2) := hid ▸ hm
        simp only [hid, if_true, List.map_cons, List.mem_cons, true_or, if_neg hm']
    · simp only [List.map_cons, List.mem_cons, hid, false_or, if_false]

/-- A removed operation is in no list. -/
theorem removeOp_defUse (h : a.DefUse removed) {op : OpId} (hop : op.index < a.ops.size) :
    (a.removeOp op).DefUse (op :: removed) := by
  have hplaced : ∃ a₁ : Arena, a₁.DefUse removed ∧ (∀ o, (a₁.op o).kind = (a.op o).kind) ∧
      a₁.ops.size = a.ops.size ∧
      a.removeOp op = (a₁.op op).kind.slots.foldl (fun a e => a.modifyOperand e.2 fun o =>
        (o.removeUsage op).removeDef op) a₁ := by
    unfold removeOp
    split
    · refine ⟨_, ?_, fun o => ?_, by simp, rfl⟩
      · exact h.congr (by simp) (fun _ => op_modifyOp_keep _ Op.kind _ _ fun _ => rfl)
          (fun _ => rfl) fun _ => block_modifyBlock_keep _ Block.guards _ _ fun _ => rfl
      · exact op_modifyOp_keep _ Op.kind _ _ fun _ => rfl
    · exact ⟨a, h, fun _ => rfl, rfl, rfl⟩
  obtain ⟨a₁, h₁, -, hsize, heq⟩ := hplaced
  rw [heq]
  have hforget := foldl_forget op (a₁.op op).kind.slots a₁
  revert hforget
  generalize (a₁.op op).kind.slots.foldl (fun a e => a.modifyOperand e.2 fun o =>
    (o.removeUsage op).removeDef op) a₁ = a'
  rintro ⟨hops, hblocks, hoperand⟩
  have hmem : ∀ sort id o, o ∈ (a'.operand id).listed sort ↔
      o ∈ (a₁.operand id).listed sort ∧ o ≠ op := by
    intro sort id o
    rw [hoperand]
    split
    · exact Operand.mem_listed_forget
    · rename_i hid
      refine ⟨fun ho => ⟨ho, ?_⟩, And.left⟩
      rintro rfl
      obtain ⟨slot, hslot, -⟩ := OpKind.mem_mentioned.1 ((h₁.listed sort id o).1 ho).2
      exact hid (List.mem_map.2 ⟨_, hslot, rfl⟩)
  constructor
  · intro sort id o
    rw [hmem, h₁.listed]
    simp only [Kept, Arena.op, hops, List.mem_cons, not_or]
    constructor
    · rintro ⟨⟨⟨hlt, hr⟩, hm⟩, hne⟩
      exact ⟨⟨hlt, hne, hr⟩, hm⟩
    · rintro ⟨⟨hlt, hne, hr⟩, hm⟩
      exact ⟨⟨⟨hlt, hr⟩, hm⟩, hne⟩
  · intro sort id
    rw [hoperand]
    split
    · exact Operand.nodup_listed_forget (h₁.nodup sort id) op
    · exact h₁.nodup sort id
  · intro id b
    have hcond : (a'.operand id).condUsages = (a₁.operand id).condUsages := by
      rw [hoperand]
      split <;> rfl
    rw [hcond, h₁.guards]
    simp only [Arena.block, hblocks]
  · intro o ho
    rw [hops]
    rcases List.mem_cons.1 ho with rfl | ho
    · exact hsize ▸ hop
    · exact h₁.removed_lt o ho

end Arena

end QueryTaint
