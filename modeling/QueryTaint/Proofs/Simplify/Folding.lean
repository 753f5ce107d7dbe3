import Mathlib.Tactic.IntervalCases
import QueryTaint.Proofs.Simplify.Determined
import QueryTaint.Proofs.Simplify.Shape

/-!
# Folding keeps what is read

Folding replaces an operand only by the scalar that it is determined to be, and leaves nobody behind
who reads the result of an operation that it took out (`Arena.Folds`, `folds_fold`). So an operation
that stays reads the values that it read before, whenever it is executed while the operands that it
reads hold what is determined (`reads_fold`).

What is recorded of a variable is one scalar for all calls. A variable that outlives its calls is
determined to be its first value, and folding keeps what is read on just those calls on which it
is that (`reads_fold_remembered_iff`).
-/

namespace QueryTaint.Arena

variable {a a' : Arena}

/-! ## What folding does -/

/-- An arena after folding: `σ` takes what was read to what is read now. -/
structure Folds (a a' : Arena) (σ : OperandId → OperandId) : Prop where
  size : a.operands.size ≤ a'.operands.size
  operand {id : OperandId} : id.index < a.operands.size →
    (a'.operand id).kind = (a.operand id).kind
  place {op : OpId} : (a'.op op).block.isSome → (a'.op op).block = (a.op op).block
  kind {op : OpId} : (a'.op op).block.isSome → (a'.op op).kind = (a.op op).kind.mapOperands σ
  written {op : OpId} {id : OperandId} : (a'.op op).block.isSome →
    id ∈ (a.op op).kind.mentioned true → σ id = id
  constant {id : OperandId} : id.index < a.operands.size → σ id = id ∨
    (σ id).index < a'.operands.size ∧
      ∃ value, (a'.operand (σ id)).kind = .scalar value ∧ a.Determined id value
  gone {op : OpId} : (a.op op).block.isSome → (a'.op op).block = none →
    ∃ result value, (a.op op).kind.result? = some result ∧ a.Determined result value ∧
      ∀ other, (a'.op other).block.isSome → result ∉ (a'.op other).kind.reads
  ops (block : BlockId) : (a'.block block).ops =
    (a.block block).ops.filter fun op => (a'.op op).block.isSome
  phis (block : BlockId) : (a'.block block).phis =
    (a.block block).phis.filter fun op => (a'.op op).block.isSome
  flow (block : BlockId) : (a'.block block).preds = (a.block block).preds ∧
    (a'.block block).dead = (a.block block).dead
  determined {id : OperandId} {value : Scalar Float} : a'.Determined id value →
    id.index < a.operands.size → a.Determined id value

namespace Folds

variable {a'' : Arena} {σ σ' : OperandId → OperandId}

theorem isSome (h : Folds a a' σ) {op : OpId} (hop : (a'.op op).block.isSome) :
    (a.op op).block.isSome :=
  h.place hop ▸ hop

/-- What is written is what was written. -/
theorem defines (h : Folds a a' σ) {op : OpId} {id : OperandId} (hd : a'.Defines op id) :
    a.Defines op id := by
  obtain ⟨hop, hid⟩ := hd
  rw [h.kind hop, OpKind.mem_mentioned_mapOperands] at hid
  obtain ⟨u, hu, rfl⟩ := hid
  exact ⟨h.isSome hop, (h.written hop hu).symm ▸ hu⟩

theorem refl (h : a.Foldable) : Folds a a id where
  size := Nat.le_refl _
  operand _ := rfl
  place _ := rfl
  kind _ := (OpKind.mapOperands_of_fixed fun _ _ => rfl).symm
  written _ _ := rfl
  constant _ := .inl rfl
  gone hop hnone := by
    rw [hnone] at hop
    cases hop
  ops block := (h.filter_isSome (List.subset_append_right ..)).symm
  phis block := (h.filter_isSome (List.subset_append_left ..)).symm
  flow _ := ⟨rfl, rfl⟩
  determined hd _ := hd

theorem filter_isSome (h : Folds a' a'' σ') (ops : List OpId) :
    (ops.filter fun op => (a'.op op).block.isSome).filter (fun op => (a''.op op).block.isSome) =
      ops.filter fun op => (a''.op op).block.isSome := by
  rw [List.filter_filter]
  refine List.filter_congr fun op _ => ?_
  cases hop : (a''.op op).block.isSome with
  | false => rfl
  | true => simp [h.isSome hop]

theorem trans (hf : a.Foldable) (hf' : a'.Foldable) (h : Folds a a' σ) (h' : Folds a' a'' σ') :
    Folds a a'' (σ' ∘ σ) where
  size := Nat.le_trans h.size h'.size
  operand hid := (h'.operand (Nat.lt_of_lt_of_le hid h.size)).trans (h.operand hid)
  place hop := (h'.place hop).trans (h.place (h'.isSome hop))
  kind hop := by
    rw [h'.kind hop, h.kind (h'.isSome hop), OpKind.mapOperands_mapOperands]
  written hop hid := by
    have hsame := h.written (h'.isSome hop) hid
    rw [Function.comp_apply, hsame]
    refine h'.written hop ?_
    rw [h.kind (h'.isSome hop), OpKind.mem_mentioned_mapOperands]
    exact ⟨_, hid, hsame⟩
  constant {id} hid := by
    rw [Function.comp_apply]
    rcases h.constant hid with hsame | ⟨hlt, value, hkind, hd⟩
    · rw [hsame]
      rcases h'.constant (Nat.lt_of_lt_of_le hid h.size) with hsame' | ⟨hlt', value, hkind, hd⟩
      · exact .inl hsame'
      · exact .inr ⟨hlt', value, hkind, h.determined hd hid⟩
    · -- The constant may be replaced by another one, of the same value.
      rcases h'.constant hlt with hsame' | ⟨hlt', value', hkind', hd'⟩
      · rw [hsame', h'.operand hlt]
        exact .inr ⟨Nat.lt_of_lt_of_le hlt h'.size, value, hkind, hd⟩
      · obtain rfl := hf'.eq_of_scalar hkind hd'
        exact .inr ⟨hlt', value', hkind', hd⟩
  gone {op} hop hnone := by
    cases hmid : (a'.op op).block with
    | none =>
      obtain ⟨result, value, hresult, hd, hunread⟩ := h.gone hop hmid
      refine ⟨result, value, hresult, hd, fun other hother hread => ?_⟩
      rw [h'.kind hother, OpKind.reads_mapOperands, List.mem_map] at hread
      obtain ⟨id, hid, rfl⟩ := hread
      rcases h'.constant (hf'.reads_lt (h'.isSome hother) hid) with hsame | ⟨-, s, hkind, -⟩
      · exact hunread other (h'.isSome hother) (hsame.symm ▸ hid)
      · -- A result that was written is no constant.
        have hdefines := defines_of_result? hop hresult
        have hlt := hf.mentioned_lt hop hdefines.2
        rw [h'.operand (Nat.lt_of_lt_of_le hlt h.size), h.operand hlt] at hkind
        have hnone := hf.unwritten hdefines
        rw [hkind] at hnone
        cases hnone
    | some home =>
      have hmid' : (a'.op op).block.isSome := by rw [hmid]; rfl
      obtain ⟨result, value, hresult, hd, hunread⟩ := h'.gone hmid' hnone
      rw [h.kind hmid', OpKind.result?_mapOperands] at hresult
      obtain ⟨old, hold, rfl⟩ := Option.map_eq_some_iff.1 hresult
      have hwritten := OpKind.mem_mentioned_of_result? hold
      rw [h.written hmid' hwritten] at hd hunread
      exact ⟨old, value, hold, h.determined hd (hf.mentioned_lt hop hwritten), hunread⟩
  ops block := by rw [h'.ops, h.ops, h'.filter_isSome]
  phis block := by rw [h'.phis, h.phis, h'.filter_isSome]
  flow block := ⟨(h'.flow block).1.trans (h.flow block).1, (h'.flow block).2.trans (h.flow block).2⟩
  determined hd hid := h.determined (h'.determined hd (Nat.lt_of_lt_of_le hid h.size)) hid

end Folds

/-! ## One operation -/

/-- What folding an operation does: its result, which `value` is the value of, is replaced by a new
constant, and the operation is taken out. -/
structure FoldsAt (a a' : Arena) (op : OpId) (result : OperandId) (value : Scalar Float) :
    Prop where
  size : a'.operands.size = a.operands.size + 1
  operand (id : OperandId) : (a'.operand id).kind =
    if id.index = a.operands.size then .scalar value else (a.operand id).kind
  place (other : OpId) : (a'.op other).block = if other = op then none else (a.op other).block
  kind {other : OpId} : other ≠ op → (a.op other).block.isSome → (a'.op other).kind =
    (a.op other).kind.mapOperands fun id => if id = result then ⟨a.operands.size⟩ else id
  ops (block : BlockId) : (a'.block block).ops = (a.block block).ops.filter (· ≠ op)
  phis (block : BlockId) : (a'.block block).phis = (a.block block).phis.filter (· ≠ op)
  flow (block : BlockId) : (a'.block block).preds = (a.block block).preds ∧
    (a'.block block).dead = (a.block block).dead
  funcs : a'.funcs = a.funcs
  lists : ∃ removed, a'.DefUse removed ∧ ∀ op, (a'.op op).block.isSome → a'.Kept removed op

/-- An operation in a block is folded by a constant for its result. -/
theorem foldsAt_replaceUses (h : a.Foldable) {op : OpId} (hop : (a.op op).block.isSome)
    {result : OperandId} (hresult : (a.op op).kind.result? = some result) (value : Scalar Float) :
    FoldsAt a (((a.newOperand (.scalar value)).2.replaceUses result ⟨a.operands.size⟩).removeOp op)
      op result value := by
  obtain ⟨removed, hdef, hkept⟩ := h.lists
  obtain ⟨home, hhome⟩ := Option.isSome_iff_exists.1 hop
  have hdefines := defines_of_result? hop hresult
  have hlt := h.mentioned_lt hop hdefines.2
  have hne : result ≠ ⟨a.operands.size⟩ := fun heq => Nat.lt_irrefl _ (heq ▸ hlt)
  have hnew : (a.newOperand (.scalar value)).2.operands.size = a.operands.size + 1 :=
    Array.size_push ..
  have hdef₁ := newOperand_defUse hdef (.scalar value)
  have hdef₂ : ((a.newOperand (.scalar value)).2.replaceUses result ⟨a.operands.size⟩).DefUse
      removed :=
    replaceUses_defUse hdef₁ (hnew ▸ Nat.lt_succ_of_lt hlt) (hnew ▸ Nat.lt_succ_self _)
  obtain ⟨⟨hsize₂, hfuncs₂⟩, hop₂, hblock₂⟩ := replaceUses_effect hdef₁ hne
  have hkind₂ {other : OpId} (hother : other ≠ op) (hplaced : (a.op other).block.isSome) :=
    kind_replaceUses hdef₁ hne (hkept other hplaced) fun hw =>
      hother (h.single ⟨hplaced, hw⟩ hdefines)
  have hsame₂ := SameOperands.replaceUses (a.newOperand (.scalar value)).2 result
    ⟨a.operands.size⟩
  revert hdef₂ hsize₂ hfuncs₂ hop₂ hblock₂ hkind₂ hsame₂
  generalize (a.newOperand (.scalar value)).2.replaceUses result ⟨a.operands.size⟩ = a₂
  intro hdef₂ hsize₂ hfuncs₂ hop₂ hblock₂ hkind₂ hsame₂
  have hkept₂ : op.index < a₂.ops.size := hsize₂.symm ▸ (hkept op hop).1
  have hhome₂ : (a₂.op op).block = some home := (hop₂ op).1.trans hhome
  have hmembers (b : BlockId) : a₂.members b = a.members b := by
    rw [members, members, hblock₂ Block.phis (fun _ _ => rfl), hblock₂ Block.ops fun _ _ => rfl]
    rfl
  have hlists := lists_removeOp hkept₂ hhome₂ fun b hb => by
    have hblock := (h.placed op b).1 (hmembers b ▸ hb)
    exact Option.some.inj (hblock.symm.trans hhome)
  have hsame₃ := SameOperands.removeOp a₂ op
  obtain ⟨⟨hsize₃, -, -, hfuncs₃⟩, hop₃, -⟩ := removeOp_effect hkept₂ hhome₂
  have hplace (other : OpId) : ((a₂.removeOp op).op other).block =
      if other = op then none else (a.op other).block := by
    rw [(hop₃ other).2, (hop₂ other).1]
    rfl
  refine ⟨?_, fun id => ?_, hplace, fun {other} hother hplaced => ?_, fun b => ?_, fun b => ?_,
    fun b => ⟨?_, ?_⟩, ?_, _, removeOp_defUse hdef₂ hkept₂, fun other hplaced => ?_⟩
  · rw [hsame₃.size, hsame₂.size, hnew]
  · rw [hsame₃.kind, hsame₂.kind, operand_newOperand]
    split <;> rfl
  · rw [(hop₃ other).1, hkind₂ hother hplaced]
    rfl
  · rw [(hlists b).1, hblock₂ Block.ops fun _ _ => rfl]
    rfl
  · rw [(hlists b).2, hblock₂ Block.phis fun _ _ => rfl]
    rfl
  · refine (block_removeOp_keep Block.preds (fun _ _ _ => rfl) a₂ op b).2.trans ?_
    exact hblock₂ Block.preds (fun _ _ => rfl) b
  · refine (block_removeOp_keep Block.dead (fun _ _ _ => rfl) a₂ op b).2.trans ?_
    exact hblock₂ Block.dead (fun _ _ => rfl) b
  · exact hfuncs₃.trans hfuncs₂
  · rw [hplace] at hplaced
    split at hplaced
    · cases hplaced
    · rename_i hne'
      obtain ⟨hlt', hnot⟩ := hkept other hplaced
      refine ⟨hsize₃ ▸ hsize₂.symm ▸ hlt', ?_⟩
      simp [hne', hnot]

theorem foldsAt_of_foldOp? (h : a.Foldable) {op : OpId} (hop : (a.op op).block.isSome)
    (hfold : a.foldOp? op = some a') : ∃ result value, (a.op op).kind.result? = some result ∧
      a.Determined result value ∧ FoldsAt a a' op result value := by
  obtain ⟨value, hvalue, hfold⟩ := Option.bind_eq_some_iff.1 hfold
  obtain ⟨result, hresult, hfold⟩ := Option.bind_eq_some_iff.1 hfold
  obtain rfl := Option.some.inj hfold
  obtain ⟨v, hknown, hmakes⟩ := compute?_of_evaluate? hvalue
  exact ⟨result, value, hresult,
    .computed hop (fun id hid => .literal (h.reads_lt hop hid) (hknown id hid)) hmakes hresult,
    foldsAt_replaceUses h hop hresult value⟩

namespace FoldsAt

variable {op : OpId} {result : OperandId} {value : Scalar Float}

theorem isSome (s : FoldsAt a a' op result value) {other : OpId}
    (hother : (a'.op other).block.isSome) : other ≠ op ∧ (a.op other).block.isSome := by
  rw [s.place] at hother
  split at hother
  · cases hother
  · exact ⟨‹_›, hother⟩

/-- Of the operations of a block, all but the one that is folded stay. -/
theorem filter_ne (s : FoldsAt a a' op result value) (h : a.Foldable) {block : BlockId}
    {ops : List OpId} (hops : ops ⊆ a.members block) :
    ops.filter (· ≠ op) = ops.filter fun other => (a'.op other).block.isSome := by
  refine List.filter_congr fun other hother => ?_
  rw [s.place, (h.placed other block).1 (hops hother)]
  split <;> simp [*]

section

variable (s : FoldsAt a a' op result value) (h : a.Foldable) (hdefines : a.Defines op result)
include s h hdefines

theorem ne_of_written {other : OpId} (hother : (a'.op other).block.isSome) {id : OperandId}
    (hid : id ∈ (a.op other).kind.mentioned true) : id ≠ result := by
  obtain ⟨hne, hplaced⟩ := s.isSome hother
  rintro rfl
  exact hne (h.single ⟨hplaced, hid⟩ hdefines)

/-- Nothing is determined that was not before, and the constant is its value only. -/
theorem determined_of (hd : a.Determined result value) {id : OperandId} {other : Scalar Float}
    (h' : a'.Determined id other) : (id.index < a.operands.size → a.Determined id other) ∧
      (id = ⟨a.operands.size⟩ → other = value) := by
  have hkind {id : OperandId} (hid : id.index < a.operands.size) :
      (a'.operand id).kind = (a.operand id).kind := by
    rw [s.operand, if_neg (Nat.ne_of_lt hid)]
  induction h' with
  | literal _ known =>
    refine ⟨fun hid => .literal hid (literalOf?_congr h.linked hkind hid ▸ known), ?_⟩
    rintro rfl
    have hscalar : (a'.operand ⟨a.operands.size⟩).kind = .scalar value :=
      (s.operand _).trans (if_pos rfl)
    exact Option.some.inj (known.symm.trans (literalOf?_of_scalar hscalar))
  | @computed user v written other placed reads makes writes ih =>
    obtain ⟨hne, hplaced⟩ := s.isSome placed
    rw [s.kind hne hplaced] at makes writes
    rw [OpKind.compute?_mapOperands] at makes
    rw [OpKind.result?_mapOperands] at writes
    obtain ⟨old, hold, rfl⟩ := Option.map_eq_some_iff.1 writes
    have hwritten := OpKind.mem_mentioned_of_result? hold
    have hlt := h.mentioned_lt hplaced hwritten
    rw [if_neg (s.ne_of_written h hdefines placed hwritten)]
    refine ⟨fun _ => .computed hplaced (fun id hid => ?_) makes hold, fun heq => ?_⟩
    · have hread : (if id = result then ⟨a.operands.size⟩ else id) ∈ (a'.op user).kind.reads := by
        rw [s.kind hne hplaced, OpKind.reads_mapOperands]
        exact List.mem_map_of_mem hid
      by_cases hresult : id = result
      · rw [if_pos hresult] at hread ⊢
        rw [(ih _ hread).2 rfl, hresult]
        exact hd
      · rw [if_neg hresult] at hread ⊢
        exact (ih _ hread).1 (h.reads_lt hplaced hid)
    · exact absurd (heq ▸ hlt) (Nat.lt_irrefl _)

theorem folds (hresult : (a.op op).kind.result? = some result) (hd : a.Determined result value) :
    Folds a a' fun id => if id = result then ⟨a.operands.size⟩ else id where
  size := s.size ▸ Nat.le_succ _
  operand hid := (s.operand _).trans (if_neg (Nat.ne_of_lt hid))
  place hother := (s.place _).trans (if_neg (s.isSome hother).1)
  kind hother := s.kind (s.isSome hother).1 (s.isSome hother).2
  written hother hid := if_neg (s.ne_of_written h hdefines hother hid)
  constant {id} _ := by
    by_cases hid : id = result
    · rw [if_pos hid, hid]
      exact .inr ⟨s.size ▸ Nat.lt_succ_self _, value, (s.operand _).trans (if_pos rfl), hd⟩
    · exact .inl (if_neg hid)
  gone {other} hother hnone := by
    have heq : other = op := by
      refine Decidable.byContradiction fun hne => ?_
      rw [s.place, if_neg hne] at hnone
      rw [hnone] at hother
      cases hother
    refine ⟨result, value, heq ▸ hresult, hd, fun user huser hread => ?_⟩
    obtain ⟨hne, hplaced⟩ := s.isSome huser
    rw [s.kind hne hplaced, OpKind.reads_mapOperands, List.mem_map] at hread
    obtain ⟨id, -, hto⟩ := hread
    split at hto
    · have hlt := h.mentioned_lt hdefines.1 hdefines.2
      exact absurd (hto ▸ hlt) (Nat.lt_irrefl _)
    · exact absurd hto ‹_›
  ops block := (s.ops block).trans (s.filter_ne h (List.subset_append_right ..))
  phis block := (s.phis block).trans (s.filter_ne h (List.subset_append_left ..))
  flow := s.flow
  determined h' hid := (s.determined_of h hdefines hd h').1 hid

omit hdefines in
theorem foldable {σ : OperandId → OperandId} (hf : Folds a a' σ) : a'.Foldable where
  placed other block := by
    have hmem : other ∈ a'.members block ↔ other ∈ a.members block ∧ other ≠ op := by
      simp only [members, s.ops, s.phis, List.mem_append, List.mem_filter, decide_eq_true_eq]
      rw [or_and_right]
    rw [hmem, h.placed, s.place]
    split <;> simp [*]
  nodup block := s.ops block ▸ (h.nodup block).filter _
  nodup_blocks func := by
    rw [Arena.func, s.funcs]
    exact h.nodup_blocks func
  lists := s.lists
  single hd he := h.single (hf.defines hd) (hf.defines he)
  unwritten hd := by
    have hold := hf.defines hd
    rw [hf.operand (h.mentioned_lt hold.1 hold.2)]
    exact h.unwritten hold
  linked {id next} hlink := by
    rw [s.size]
    by_cases hid : id.index = a.operands.size
    · rw [linkOf?, s.operand, if_pos hid] at hlink
      cases hlink
    · rw [linkOf?_congr ((s.operand id).trans (if_neg hid))] at hlink
      exact Nat.lt_succ_of_lt (h.linked hlink)

end

end FoldsAt

/-! ## Runs -/

theorem folds_foldOps (h : a.Foldable) (count : Nat) {ops : List OpId} (hnodup : ops.Nodup)
    (hops : ∀ op ∈ ops, (a.op op).block.isSome) :
    ∃ σ, Folds a (a.foldOps count ops).2 σ ∧ (a.foldOps count ops).2.Foldable := by
  induction ops generalizing a count with
  | nil => exact ⟨id, .refl h, h⟩
  | cons op rest ih =>
    obtain ⟨hnot, hnodup⟩ := List.nodup_cons.1 hnodup
    obtain ⟨hop, hrest⟩ := List.forall_mem_cons.1 hops
    rw [foldOps]
    split
    · rename_i a' hfold
      obtain ⟨result, value, hresult, hd, s⟩ := foldsAt_of_foldOp? h hop hfold
      have hdefines := defines_of_result? hop hresult
      have hf := s.folds h hdefines hresult hd
      have h' := s.foldable h hf
      obtain ⟨σ, hf', h''⟩ := ih h' (count + 1) hnodup fun other hother => by
        have hne : other ≠ op := ne_of_mem_of_not_mem hother hnot
        rw [s.place, if_neg hne]
        exact hrest other hother
      exact ⟨_, hf.trans h h' hf', h''⟩
    · exact ih h count hnodup hrest

/-- Folding replaces what is read by constants that it is determined to be, and takes out only what
nobody reads any more. -/
theorem folds_fold (h : a.Foldable) (func : FuncId) :
    ∃ σ, Folds a (a.fold func).2 σ ∧ (a.fold func).2.Foldable := by
  have hround {a folded : Arena} {count : Nat} (h : a.Foldable)
      (heq : a.foldOps 0 (a.liveOps func) = (count, folded)) :
      ∃ σ, Folds a folded σ ∧ folded.Foldable := by
    have hfolds := folds_foldOps h 0 (h.nodup_liveOps func) fun _ => h.liveOps_placed
    rwa [heq] at hfolds
  fun_induction Arena.fold a func with
  | case1 a folded heq => exact hround h heq
  | case2 a count folded heq _ _ more last hmore ih =>
    obtain ⟨σ, hf, h'⟩ := hround h heq
    obtain ⟨σ', hf', h''⟩ := ih h'
    rw [hmore] at hf' h''
    exact ⟨_, hf.trans h h' hf', h''⟩
  | case3 a count folded heq _ _ => exact hround h heq

/-- Where an operation is executed while what it reads holds what it is determined to be, it reads
the same values after folding. -/
theorem reads_fold (h : a.Foldable) (func : FuncId) {v : OperandId → Scalar Float}
    (hconst : ∀ {id value}, id.index < (a.fold func).2.operands.size →
      ((a.fold func).2.operand id).kind = .scalar value → v id = value)
    {op : OpId} (hop : ((a.fold func).2.op op).block.isSome)
    (hv : ∀ id ∈ (a.op op).kind.reads, ∀ {value}, a.Determined id value → v id = value) :
    ((a.fold func).2.op op).kind.reads.map v = (a.op op).kind.reads.map v := by
  obtain ⟨σ, hf, -⟩ := folds_fold h func
  rw [hf.kind hop, OpKind.reads_mapOperands, List.map_map]
  refine List.map_congr_left fun id hid => ?_
  rw [Function.comp_apply]
  rcases hf.constant (h.reads_lt (hf.isSome hop) hid) with hsame | ⟨hlt, value, hkind, hd⟩
  · rw [hsame]
  · rw [hconst hlt hkind, hv id hid hd]

/-! ## A variable that outlives its calls -/

/-- Edits that build a function which declares a variable with the first value `a`, joins its value
and `b`, and writes that out. -/
def rememberedEdits : List Edit :=
  [.func "f", .operand (.string "n"), .operand (.string "a"),
    .operand (.bound ⟨0⟩ (some ⟨1⟩) false .function), .operand (.string "b"),
    .operand (.temporary none),
    .op (.staticVar ⟨2⟩ (some ⟨1⟩) none) .none none, .append ⟨0⟩ ⟨0⟩,
    .op (.concatList [⟨2⟩, ⟨3⟩] ⟨4⟩) .none none, .append ⟨0⟩ ⟨1⟩,
    .op (.echo ⟨4⟩) .none none, .append ⟨0⟩ ⟨2⟩, .op (.returns none) .none none, .append ⟨0⟩ ⟨3⟩]

/-- The function with a variable that is remembered. -/
def remembered : Arena := (Edit.applyAll {} rememberedEdits).arena

/-- What operands hold on a call on which the variable is `n`. The last one is what folding adds. -/
def rememberedValues (n : String) (id : OperandId) : Scalar Float :=
  match id.index with
  | 0 => .string "n"
  | 1 => .string "a"
  | 2 => .string n
  | 3 => .string "b"
  | 4 => .string (n ++ "b")
  | 5 => .string "ab"
  | _ => .null

theorem remembered_foldable : remembered.Foldable := by
  have hssa : remembered.Ssa ⟨0⟩ :=
    .of_edits (fun _ => []) (by decide) (by decide) (by decide)
  exact hssa.foldable (by decide)

/-- On its first call the variable is what is recorded of it. -/
theorem agrees_rememberedValues : remembered.Agrees (rememberedValues "a") where
  literal {id value} hid hvalue := by
    obtain ⟨i⟩ := id
    have hi : i < 5 := hid
    have hknown : remembered.literalOf? ⟨i⟩ =
        if i = 4 then none else some (rememberedValues "a" ⟨i⟩) := by
      interval_cases i <;> rfl
    rw [hvalue] at hknown
    split at hknown
    · cases hknown
    · exact (Option.some.inj hknown).symm
  computed {op result value} hop hmakes hresult := by
    obtain ⟨i⟩ := op
    have hi : i < 4 := op_lt_of_placed hop
    interval_cases i
    · cases hmakes
    · obtain rfl := Option.some.inj hmakes
      obtain rfl := Option.some.inj hresult
      rfl
    · cases hmakes
    · cases hmakes

/-- Folding keeps what is read on the calls on which the variable has its first value, and on no
other. -/
theorem reads_fold_remembered_iff (n : String) :
    ((remembered.fold ⟨0⟩).2.op ⟨2⟩).kind.reads.map (rememberedValues n) =
      (remembered.op ⟨2⟩).kind.reads.map (rememberedValues n) ↔ n = "a" := by
  constructor
  · intro h
    have hread : ((remembered.fold ⟨0⟩).2.op ⟨2⟩).kind.reads = [⟨5⟩] := by decide +kernel
    have hread' : (remembered.op ⟨2⟩).kind.reads = [⟨4⟩] := by decide
    rw [hread, hread'] at h
    have htext : "a" ++ "b" = n ++ "b" := by simpa [rememberedValues] using h
    exact (String.append_left_inj "b").1 htext.symm
  · rintro rfl
    have hplaced : ((remembered.fold ⟨0⟩).2.op ⟨2⟩).block.isSome := by decide +kernel
    refine reads_fold remembered_foldable ⟨0⟩ (fun {id value} hid hk => ?_) hplaced
      fun id _ _ hd => agrees_rememberedValues.eq_of_determined hd
    have hsize : (remembered.fold ⟨0⟩).2.operands.size = 6 := by decide +kernel
    rw [hsize] at hid
    rcases Nat.lt_succ_iff_lt_or_eq.1 hid with hold | hnew
    · obtain ⟨σ, hf, -⟩ := folds_fold remembered_foldable ⟨0⟩
      rw [hf.operand hold] at hk
      exact agrees_rememberedValues.literal hold (literalOf?_of_scalar hk)
    · obtain rfl : id = ⟨5⟩ := OperandId.ext_iff'.1 hnew
      have hstring : ((remembered.fold ⟨0⟩).2.operand ⟨5⟩).kind.string? = some "ab" := by
        decide +kernel
      rw [hk] at hstring
      cases value with
      | string s => exact congrArg Scalar.string (Option.some.inj hstring).symm
      | _ => cases hstring

end QueryTaint.Arena
