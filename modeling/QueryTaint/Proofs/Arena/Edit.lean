import QueryTaint.Proofs.Arena.DefUse

/-!
# Editing an arena

An `Edit` is one of the ways to change an arena, and it is legal if it mentions only what was made
and no operation that was removed. A legal edit keeps the lists of the operands exact
(`Edit.apply_defUse`), so they are exact after any legal edits (`Edit.lists_exact_of_allLegal`).
-/

namespace QueryTaint

/-- A change of an arena through its own operations. -/
inductive Edit where
  | operand (kind : OperandKind)
  | block (func : Option FuncId)
  | func (name : String)
  | op (kind : OpKind) (span : Span) (file : Option String)
  | append (block : BlockId) (op : OpId)
  | attachPhi (block : BlockId) (phi : OpId)
  | phiOperand (phi : OpId) (id : OperandId)
  | guard (block : BlockId) (cond : OperandId)
  | link (source target : BlockId)
  | replaceInOp (op : OpId) (old new : OperandId)
  | replaceUses (old new : OperandId)
  | remove (op : OpId)

/-- An arena that is being edited, and the operations that were removed from it. -/
structure Draft where
  arena : Arena := {}
  removed : List OpId := []

namespace Draft

/-- Whether an operand was made. -/
def hasOperand (d : Draft) (id : OperandId) : Bool := id.index < d.arena.operands.size

/-- Whether a block was made. -/
def hasBlock (d : Draft) (id : BlockId) : Bool := id.index < d.arena.blocks.size

/-- Whether an operation was made and not removed. -/
def hasOp (d : Draft) (id : OpId) : Bool := id.index < d.arena.ops.size && id ∉ d.removed

/-- The lists of the operands are exact. -/
def Exact (d : Draft) : Prop := d.arena.DefUse d.removed

end Draft

namespace Edit

/-- What an edit makes of a draft. -/
def apply (d : Draft) : Edit → Draft
  | .operand kind => { d with arena := (d.arena.newOperand kind).2 }
  | .block f => { d with arena := (d.arena.newBlock f).2 }
  | .func name => { d with arena := (d.arena.newFunc name).2 }
  | .op kind span file => { d with arena := (d.arena.addOp kind span file).2 }
  | .append b o => { d with arena := d.arena.append b o }
  | .attachPhi b phi => { d with arena := d.arena.attachPhi b phi }
  | .phiOperand phi id => { d with arena := d.arena.addPhiOperand phi id }
  | .guard b cond => { d with arena := d.arena.addGuard b cond }
  | .link source target => { d with arena := d.arena.link source target }
  | .replaceInOp o old new => { d with arena := d.arena.replaceInOp o old new }
  | .replaceUses old new => { d with arena := d.arena.replaceUses old new }
  | .remove o => ⟨d.arena.removeOp o, o :: d.removed⟩

/-- Whether an edit mentions only what was made, and no operation that was removed. -/
def legal (d : Draft) : Edit → Bool
  | .operand _ | .block _ | .func _ => true
  | .op kind _ _ => kind.slots.all fun (_, id) => d.hasOperand id
  | .append b o | .attachPhi b o => d.hasBlock b && d.hasOp o
  | .phiOperand phi id => d.hasOp phi && d.hasOperand id
  | .guard b cond => d.hasBlock b && d.hasOperand cond
  | .link source target => d.hasBlock source && d.hasBlock target
  | .replaceInOp o old new => d.hasOp o && d.hasOperand old && d.hasOperand new
  | .replaceUses old new => d.hasOperand old && d.hasOperand new
  | .remove o => d.hasOp o

/-- Whether edits are legal when they are made one after the other. -/
def allLegal (d : Draft) : List Edit → Bool
  | [] => true
  | e :: rest => e.legal d && allLegal (e.apply d) rest

/-- What edits make of a draft one after the other. -/
def applyAll (d : Draft) (edits : List Edit) : Draft := edits.foldl apply d

theorem kept_of_hasOp {d : Draft} {op : OpId} (h : d.hasOp op = true) :
    d.arena.Kept d.removed op := by
  simp only [Draft.hasOp, Bool.and_eq_true, decide_eq_true_eq] at h
  exact h

/-- A legal edit keeps the lists exact. -/
theorem apply_defUse {d : Draft} (h : d.Exact) {e : Edit} (he : e.legal d = true) :
    (e.apply d).Exact := by
  cases e with
  | operand kind => exact Arena.newOperand_defUse h kind
  | block func => exact Arena.newBlock_defUse h func
  | func name => exact Arena.newFunc_defUse h name
  | op kind span file =>
    refine Arena.addOp_defUse h kind span file fun sort id hm => ?_
    obtain ⟨slot, hslot, -⟩ := OpKind.mem_mentioned.1 hm
    simpa [Draft.hasOperand] using List.all_eq_true.1 he _ hslot
  | append block op => exact Arena.append_defUse h block op
  | attachPhi block phi => exact Arena.attachPhi_defUse h block phi
  | phiOperand phi id =>
    simp only [legal, Bool.and_eq_true] at he
    exact Arena.addPhiOperand_defUse h (kept_of_hasOp he.1) (of_decide_eq_true he.2)
  | guard block cond =>
    simp only [legal, Bool.and_eq_true] at he
    exact Arena.addGuard_defUse h (of_decide_eq_true he.1) (of_decide_eq_true he.2)
  | link source target => exact Arena.link_defUse h source target
  | replaceInOp op old new =>
    simp only [legal, Bool.and_eq_true] at he
    exact Arena.replaceInOp_defUse h (kept_of_hasOp he.1.1) (of_decide_eq_true he.1.2)
      (of_decide_eq_true he.2)
  | replaceUses old new =>
    simp only [legal, Bool.and_eq_true] at he
    exact Arena.replaceUses_defUse h (of_decide_eq_true he.1) (of_decide_eq_true he.2)
  | remove op => exact Arena.removeOp_defUse h (kept_of_hasOp he).1

/-- Legal edits keep the lists exact. -/
theorem applyAll_defUse {d : Draft} (h : d.Exact) {edits : List Edit}
    (he : allLegal d edits = true) : (applyAll d edits).Exact := by
  induction edits generalizing d with
  | nil => exact h
  | cons e rest ih =>
    simp only [allLegal, Bool.and_eq_true] at he
    exact ih (apply_defUse h he.1) he.2

/-- After any legal edits of the empty arena, the operations that an operand lists as its readers
are those that read it and were not removed, the operations that it lists as its writers are those
that write it and were not removed, neither list repeats an operation, and the blocks that it is
listed to guard are those whose guards mention it. -/
theorem lists_exact_of_allLegal (edits : List Edit) (he : allLegal {} edits = true) :
    let d := applyAll {} edits
    ∀ id : OperandId,
      (∀ op, op ∈ (d.arena.operand id).usages ↔
        (op.index < d.arena.ops.size ∧ op ∉ d.removed) ∧ id ∈ (d.arena.op op).kind.reads) ∧
      (∀ op, op ∈ (d.arena.operand id).defs ↔
        (op.index < d.arena.ops.size ∧ op ∉ d.removed) ∧
          ∃ slot, (slot, id) ∈ (d.arena.op op).kind.slots ∧
            (d.arena.op op).kind.writes slot = true) ∧
      (d.arena.operand id).usages.Nodup ∧ (d.arena.operand id).defs.Nodup ∧
      ∀ block, block ∈ (d.arena.operand id).condUsages ↔ id ∈ (d.arena.block block).guards := by
  intro d id
  have h : d.Exact := applyAll_defUse (d := {}) Arena.empty_defUse he
  refine ⟨fun op => ?_, fun op => ?_, h.nodup false id, h.nodup true id, h.guards id⟩
  · rw [OpKind.reads_eq_mentioned]
    exact h.listed false id op
  · rw [← OpKind.mem_mentioned]
    exact h.listed true id op

/-- Edits in which an operation writes and reads one operand, a replacement merges two operands of
an operation, and an operation is removed. -/
def mergingEdits : List Edit :=
  [.func "f", .operand (.temporary none), .operand (.temporary none), .operand (.temporary none),
    .op (.assign ⟨0⟩ ⟨1⟩ ⟨0⟩) .none none, .append ⟨0⟩ ⟨0⟩,
    .op (.functionCall ⟨1⟩ [⟨0⟩, ⟨1⟩] ⟨2⟩) .none none, .append ⟨0⟩ ⟨1⟩,
    .op (.phi [⟨0⟩] ⟨1⟩) .none none, .attachPhi ⟨0⟩ ⟨2⟩, .phiOperand ⟨2⟩ ⟨2⟩, .guard ⟨0⟩ ⟨0⟩,
    .replaceInOp ⟨1⟩ ⟨1⟩ ⟨0⟩, .replaceUses ⟨0⟩ ⟨2⟩, .remove ⟨0⟩]

theorem lists_exact_mergingEdits : allLegal {} mergingEdits = true ∧
    (⟨1⟩ ∈ ((applyAll {} mergingEdits).arena.operand ⟨2⟩).usages ↔
      (OpId.index ⟨1⟩ < (applyAll {} mergingEdits).arena.ops.size ∧
        ⟨1⟩ ∉ (applyAll {} mergingEdits).removed) ∧
      ⟨2⟩ ∈ ((applyAll {} mergingEdits).arena.op ⟨1⟩).kind.reads) := by
  have he : allLegal {} mergingEdits = true := by decide
  exact ⟨he, (lists_exact_of_allLegal mergingEdits he ⟨2⟩).1 ⟨1⟩⟩

end Edit

end QueryTaint

/-!
## Replaced operands and removed operations

What replacing an operand everywhere and removing an operation does to the operations and blocks:
the operations that read the operand read the other one, and blocks keep everything but their guards
(`replaceUses_effect`); a removed operation is in no block (`removeOp_effect`, `lists_removeOp`).
Neither changes what operands are (`SameOperands`).
-/

namespace QueryTaint.Arena

variable {a a' : Arena} {removed : List OpId}

theorem op_replaceInOp {op : OpId} {old new : OperandId} (hne : old ≠ new)
    (hop : op.index < a.ops.size) (o : OpId) :
    ((a.replaceInOp op old new).op o).block = (a.op o).block ∧
      ((a.replaceInOp op old new).op o).kind = if o = op then
        (a.op o).kind.mapOperands fun id => if id = old then new else id else (a.op o).kind := by
  rw [replaceInOp, if_neg hne]
  dsimp only
  rw [op_modifyOperand, op_modifyOperand, op_modifyOp_of_lt hop]
  by_cases ho : o = op
  · simp [ho]
  · simp [ho]

/-- An operation stays what it is, or it reads and writes the new operand in the place of the old
one. -/
theorem op_replaceInOp_or (a : Arena) (op o : OpId) (old new : OperandId) :
    (a.replaceInOp op old new).op o = a.op o ∨ o = op ∧ (a.replaceInOp op old new).op o =
      { a.op o with kind := (a.op o).kind.mapOperands fun id => if id = old then new else id } := by
  unfold replaceInOp
  split
  · exact .inl rfl
  · dsimp only
    rw [op_modifyOperand, op_modifyOperand, op_modifyOp]
    split
    · rename_i heq
      exact .inr ⟨heq.1.symm, by rw [heq.1]⟩
    · exact .inl rfl

theorem blocks_replaceInOp (a : Arena) (op : OpId) (old new : OperandId) :
    (a.replaceInOp op old new).blocks = a.blocks ∧
      (a.replaceInOp op old new).funcs = a.funcs := by
  unfold replaceInOp
  split
  · exact ⟨rfl, rfl⟩
  · exact ⟨rfl, rfl⟩

/-- What replacing an operand in some operations does to each operation. -/
theorem foldl_replaceInOp {old new : OperandId} (hne : old ≠ new) {ops : List OpId}
    (hnodup : ops.Nodup) (hlt : ∀ op ∈ ops, op.index < a.ops.size) :
    let a' := ops.foldl (fun a op => a.replaceInOp op old new) a
    (a'.ops.size = a.ops.size ∧ a'.blocks = a.blocks ∧ a'.funcs = a.funcs) ∧
      ∀ o, (a'.op o).block = (a.op o).block ∧
      (a'.op o).kind = if o ∈ ops then
        (a.op o).kind.mapOperands fun id => if id = old then new else id else (a.op o).kind := by
  induction ops generalizing a with
  | nil => simp
  | cons op ops ih =>
    obtain ⟨hnot, hnodup⟩ := List.nodup_cons.1 hnodup
    obtain ⟨⟨hsize, hblocks, hfuncs⟩, hop⟩ := ih (a := a.replaceInOp op old new) hnodup fun o ho => by
      rw [replaceInOp_ops_size]
      exact hlt o (List.mem_cons_of_mem _ ho)
    obtain ⟨hblocks', hfuncs'⟩ := blocks_replaceInOp a op old new
    refine ⟨⟨hsize.trans (replaceInOp_ops_size ..), hblocks.trans hblocks',
      hfuncs.trans hfuncs'⟩, fun o => ?_⟩
    obtain ⟨hblock, hkind⟩ := op_replaceInOp hne (hlt op (List.mem_cons_self ..)) o
    rw [List.foldl_cons, (hop o).1, (hop o).2, hblock, hkind]
    by_cases ho : o = op
    · subst ho
      simp [hnot]
    · simp [ho]

/-- Replacing guards keeps everything else of the blocks. -/
theorem foldl_replaceGuard_keep {β : Type} (get : Block → β)
    (hget : ∀ b guards, get { b with guards } = get b) (old new : OperandId)
    (blocks : List BlockId) (a : Arena) :
    let a' := blocks.foldl (replaceGuard old new) a
    a'.ops = a.ops ∧ a'.funcs = a.funcs ∧ ∀ b, get (a'.block b) = get (a.block b) := by
  induction blocks generalizing a with
  | nil => simp
  | cons c blocks ih =>
    obtain ⟨hops, hfuncs, hkeep⟩ := ih (replaceGuard old new a c)
    refine ⟨hops, hfuncs, fun b => (hkeep b).trans ?_⟩
    exact block_modifyBlock_keep a get c b fun b => hget b _

/-- What replacing an operand where it is read does to operations, functions and blocks. -/
theorem replaceUses_effect (h : a.DefUse removed) {old new : OperandId} (hne : old ≠ new) :
    ((a.replaceUses old new).ops.size = a.ops.size ∧ (a.replaceUses old new).funcs = a.funcs) ∧
      (∀ o, ((a.replaceUses old new).op o).block = (a.op o).block ∧
        ((a.replaceUses old new).op o).kind = if o ∈ (a.operand old).usages then
          (a.op o).kind.mapOperands fun id => if id = old then new else id else (a.op o).kind) ∧
      ∀ {β : Type} (get : Block → β), (∀ b guards, get { b with guards } = get b) →
        ∀ b, get ((a.replaceUses old new).block b) = get (a.block b) := by
  rw [replaceUses, if_neg hne]
  have hnodup : (a.operand old).usages.Nodup := h.nodup false old
  have hfold := foldl_replaceInOp hne hnodup fun op hop => ((h.listed false old op).1 hop).1.1
  revert hfold
  generalize (a.operand old).usages.foldl (fun a op => a.replaceInOp op old new) a = a₁
  rintro ⟨⟨hsize, hblocks, hfuncs⟩, hop⟩
  have hguards := fun {β : Type} (get : Block → β) (hget : ∀ b guards, get { b with guards } = get b) =>
    foldl_replaceGuard_keep get hget old new (a₁.operand old).condUsages
      (a₁.modifyOperand old fun o => { o with condUsages := [] })
  obtain ⟨hops, hfuncs', -⟩ := hguards Block.dead fun _ _ => rfl
  refine ⟨⟨by rw [hops]; exact hsize, hfuncs'.trans hfuncs⟩, fun o => ?_, fun get hget b => ?_⟩
  · rw [← (hop o).1, ← (hop o).2]
    simp only [Arena.op, hops, ops_modifyOperand, and_self]
  · refine ((hguards get hget).2.2 b).trans ?_
    rw [block_modifyOperand, block, block, hblocks]

/-- An operation reads the new operand in the place of the old one, if it does not write that. -/
theorem kind_replaceUses (h : a.DefUse removed) {old new : OperandId} (hne : old ≠ new) {op : OpId}
    (hop : a.Kept removed op) (hwrites : old ∉ (a.op op).kind.mentioned true) :
    ((a.replaceUses old new).op op).kind =
      (a.op op).kind.mapOperands fun id => if id = old then new else id := by
  obtain ⟨-, heffect, -⟩ := replaceUses_effect h hne
  rw [(heffect op).2]
  split
  · rfl
  · -- An operation that is not listed does not mention the operand.
    rename_i hnot
    symm
    refine OpKind.mapOperands_of_fixed fun e he => if_neg ?_
    rintro heq
    obtain ⟨wrote, hw⟩ := OpKind.exists_slot_iff.1 ⟨e.1, he⟩
    cases wrote with
    | true => exact hwrites (heq ▸ hw)
    | false => exact hnot ((h.listed false old op).2 ⟨hop, heq ▸ hw⟩)

/-! ### Removed operations -/

theorem foldl_forget_sizes (op : OpId) (entries : List (Slot × OperandId)) (a : Arena) :
    let a' := entries.foldl (fun a e => a.modifyOperand e.2 fun o =>
      (o.removeUsage op).removeDef op) a
    a'.operands.size = a.operands.size ∧ a'.funcs = a.funcs := by
  induction entries generalizing a with
  | nil => exact ⟨rfl, rfl⟩
  | cons e entries ih =>
    obtain ⟨hsize, hfuncs⟩ := ih (a.modifyOperand e.2 (·.forget op))
    exact ⟨hsize.trans (size_operands_modifyOperand ..), hfuncs⟩

/-- An operation that is removed is forgotten by its operands. -/
theorem operand_removeOp (a : Arena) (op : OpId) (id : OperandId) :
    (a.removeOp op).operand id =
      if id ∈ (a.op op).kind.slots.map (·.2) then (a.operand id).forget op else a.operand id := by
  have hforget {b : Arena} (hkind : (b.op op).kind = (a.op op).kind)
      (hoperands : b.operands = a.operands) : ((b.op op).kind.slots.foldl (fun a e =>
        a.modifyOperand e.2 fun o => (o.removeUsage op).removeDef op) b).operand id =
      if id ∈ (a.op op).kind.slots.map (·.2) then (a.operand id).forget op else a.operand id := by
    have hsame : b.operand id = a.operand id := by rw [operand, operand, hoperands]
    rw [(foldl_forget op (b.op op).kind.slots b).2.2 id, hkind, hsame]
  unfold removeOp
  dsimp only
  split
  · exact hforget (op_modifyOp_keep _ Op.kind op op fun _ => rfl) rfl
  · exact hforget rfl rfl

/-- An operation that is removed leaves its block, and none changes. -/
theorem removeOp_lists (a : Arena) (op : OpId) :
    (∀ o, ((a.removeOp op).op o).kind = (a.op o).kind) ∧
      ∀ block, ((a.removeOp op).block block).phis.Sublist (a.block block).phis := by
  unfold removeOp
  dsimp only
  split
  · rename_i home _
    generalize hnext : (a.modifyBlock home fun b => { b with
      ops := b.ops.filter (· ≠ op), phis := b.phis.filter (· ≠ op) }).modifyOp op
        (fun o => { o with block := none }) = next
    obtain ⟨hops, hblocks, -⟩ := foldl_forget op (next.op op).kind.slots next
    refine ⟨fun o => ?_, fun block => ?_⟩
    · rw [Arena.op, hops, ← hnext]
      exact op_modifyOp_keep _ Op.kind op o fun _ => rfl
    · rw [Arena.block, hblocks, ← hnext]
      change ((a.modifyBlock home _).block block).phis.Sublist _
      rw [block_modifyBlock]
      split
      · exact List.filter_sublist
      · exact List.Sublist.refl _
  · obtain ⟨hops, hblocks, -⟩ := foldl_forget op (a.op op).kind.slots a
    refine ⟨fun o => ?_, fun block => ?_⟩
    · rw [Arena.op, hops]
      rfl
    · rw [Arena.block, hblocks]
      exact List.Sublist.refl _

/-- What removing an operation from its block does to operations, functions and blocks. -/
theorem removeOp_effect {op : OpId} {home : BlockId} (hop : op.index < a.ops.size)
    (hhome : (a.op op).block = some home) :
    ((a.removeOp op).ops.size = a.ops.size ∧ (a.removeOp op).operands.size = a.operands.size ∧
      (a.removeOp op).blocks.size = a.blocks.size ∧ (a.removeOp op).funcs = a.funcs) ∧
      (∀ o, ((a.removeOp op).op o).kind = (a.op o).kind ∧
        ((a.removeOp op).op o).block = if o = op then none else (a.op o).block) ∧
      ∀ b, (a.removeOp op).block b = if home = b ∧ b.index < a.blocks.size then
        { a.block b with
          ops := (a.block b).ops.filter (· ≠ op), phis := (a.block b).phis.filter (· ≠ op) }
        else a.block b := by
  have heq : a.removeOp op = (a.op op).kind.slots.foldl (fun a e =>
      a.modifyOperand e.2 fun o => (o.removeUsage op).removeDef op)
        ((a.modifyBlock home fun b =>
          { b with ops := b.ops.filter (· ≠ op), phis := b.phis.filter (· ≠ op) }).modifyOp op
            fun o => { o with block := none }) := by
    unfold removeOp
    rw [hhome]
    dsimp only
    rw [op_modifyOp_of_lt (by simpa using hop), if_pos rfl]
    rfl
  obtain ⟨hops, hblocks, -⟩ := foldl_forget op (a.op op).kind.slots
    ((a.modifyBlock home fun b =>
      { b with ops := b.ops.filter (· ≠ op), phis := b.phis.filter (· ≠ op) }).modifyOp op
        fun o => { o with block := none })
  obtain ⟨hsize, hfuncs⟩ := foldl_forget_sizes op (a.op op).kind.slots
    ((a.modifyBlock home fun b =>
      { b with ops := b.ops.filter (· ≠ op), phis := b.phis.filter (· ≠ op) }).modifyOp op
        fun o => { o with block := none })
  rw [← heq] at hops hblocks hsize hfuncs
  refine ⟨⟨by rw [hops]; simp, hsize, by rw [hblocks]; simp, hfuncs⟩, fun o => ?_, fun b => ?_⟩
  · have hop' : (a.removeOp op).op o = (a.modifyOp op fun o => { o with block := none }).op o := by
      simp only [Arena.op, hops]
      rfl
    rw [hop', op_modifyOp_of_lt hop]
    split <;> exact ⟨rfl, rfl⟩
  · simp only [Arena.block, hblocks]
    exact block_modifyBlock a home b _

/-- A removed operation is in no list of its block. -/
theorem lists_removeOp {op : OpId} {home : BlockId} (hop : op.index < a.ops.size)
    (hhome : (a.op op).block = some home)
    (honly : ∀ b, op ∈ (a.block b).phis ++ (a.block b).ops → b = home) (b : BlockId) :
    ((a.removeOp op).block b).ops = (a.block b).ops.filter (· ≠ op) ∧
      ((a.removeOp op).block b).phis = (a.block b).phis.filter (· ≠ op) := by
  obtain ⟨-, -, hblock⟩ := removeOp_effect hop hhome
  rw [hblock]
  split
  · exact ⟨rfl, rfl⟩
  · rename_i hb
    have hnot : op ∉ (a.block b).phis ++ (a.block b).ops := by
      intro hmem
      refine hb ⟨(honly b hmem).symm, Nat.lt_of_not_le fun hle => ?_⟩
      rw [block_of_le a hle] at hmem
      cases hmem
    have hother {o : OpId} (ho : o ∈ (a.block b).phis ++ (a.block b).ops) :
        decide (o ≠ op) = true :=
      decide_eq_true fun heq => hnot (heq ▸ ho)
    exact ⟨(List.filter_eq_self.2 fun o ho => hother (List.mem_append_right _ ho)).symm,
      (List.filter_eq_self.2 fun o ho => hother (List.mem_append_left _ ho)).symm⟩

/-! ### Operands -/

/-- A change that keeps the operands, apart from what is listed of them. -/
structure SameOperands (a a' : Arena) : Prop where
  size : a'.operands.size = a.operands.size
  kind (id : OperandId) : (a'.operand id).kind = (a.operand id).kind

namespace SameOperands

theorem refl (a : Arena) : SameOperands a a := ⟨rfl, fun _ => rfl⟩

theorem trans {a'' : Arena} (h : SameOperands a a') (h' : SameOperands a' a'') :
    SameOperands a a'' :=
  ⟨h'.size.trans h.size, fun id => (h'.kind id).trans (h.kind id)⟩

theorem foldl {α : Type} {f : Arena → α → Arena} (hf : ∀ a x, SameOperands a (f a x)) (l : List α)
    (a : Arena) : SameOperands a (l.foldl f a) := by
  induction l generalizing a with
  | nil => exact refl a
  | cons x l ih => exact (hf a x).trans (ih _)

theorem modifyOperand (a : Arena) (id : OperandId) {f : Operand → Operand}
    (hf : ∀ o, (f o).kind = o.kind) : SameOperands a (a.modifyOperand id f) :=
  ⟨size_operands_modifyOperand .., fun other =>
    operand_modifyOperand_keep a Operand.kind id other hf⟩

theorem replaceInOp (a : Arena) (op : OpId) (old new : OperandId) :
    SameOperands a (a.replaceInOp op old new) := by
  unfold Arena.replaceInOp
  split
  · exact refl a
  · have hkind : SameOperands a (a.modifyOp op fun o => { o with
        kind := (a.op op).kind.mapOperands fun id => if id = old then new else id }) :=
      ⟨rfl, fun _ => rfl⟩
    dsimp only
    refine (hkind.trans (modifyOperand _ old fun _ => ?_)).trans (modifyOperand _ new fun o => ?_)
    · rfl
    · split <;> split <;> rfl

theorem replaceGuard (old new : OperandId) (a : Arena) (block : BlockId) :
    SameOperands a (replaceGuard old new a block) := by
  have hguards : SameOperands a (a.modifyBlock block fun b =>
      { b with guards := b.guards.map fun id => if id = old then new else id }) :=
    ⟨rfl, fun _ => rfl⟩
  exact hguards.trans (modifyOperand _ new fun _ => rfl)

theorem replaceUses (a : Arena) (old new : OperandId) :
    SameOperands a (a.replaceUses old new) := by
  unfold Arena.replaceUses
  split
  · exact refl a
  · refine ((foldl (fun a op => replaceInOp a op old new) _ a).trans
      (modifyOperand _ old fun _ => ?_)).trans (foldl (replaceGuard old new) _ _)
    rfl

theorem removeOp (a : Arena) (op : OpId) : SameOperands a (a.removeOp op) := by
  have hforget (a : Arena) (slots : List (Slot × OperandId)) : SameOperands a (slots.foldl
      (fun a e => a.modifyOperand e.2 fun o => (o.removeUsage op).removeDef op) a) := by
    refine foldl (fun a e => modifyOperand a e.2 fun _ => ?_) slots a
    rfl
  unfold Arena.removeOp
  dsimp only
  split
  · rename_i home _
    have hplace : SameOperands a ((a.modifyBlock home fun b => { b with
        ops := b.ops.filter (· ≠ op), phis := b.phis.filter (· ≠ op) }).modifyOp op fun o =>
          { o with block := none }) := ⟨rfl, fun _ => rfl⟩
    exact hplace.trans (hforget _ _)
  · exact hforget a _

end SameOperands

end QueryTaint.Arena
