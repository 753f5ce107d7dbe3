import QueryTaint.Proofs.Custody.Basic
import QueryTaint.Proofs.Simplify.Complete
import QueryTaint.Proofs.Simplify.Determined
import QueryTaint.Proofs.Simplify.Enduring

/-!
# Folding comes to rest

Folding a function goes on until none of its operations can be folded (`fold_quiets`). What is folded
in another function cannot change this, unless the function reads its result (`Spared`). So if no
function reads what a later one computes (`Arena.Separate`), then after all functions were folded, none
can be folded further (`optimizeAll_rests`), and folding them again changes nothing
(`optimizeAll_of_rested`).
-/

namespace QueryTaint

namespace OpKind

theorem folded?_mapOperands (σ : OperandId → OperandId) (kind : OpKind) :
    (kind.mapOperands σ).folded? = kind.folded?.map σ := by
  cases kind <;> rfl

theorem mem_operands_of_folded? {kind : OpKind} {r : OperandId} (h : kind.folded? = some r) :
    r ∈ kind.operands := by
  cases kind <;> first | cases h; simp [operands, slots, one] | cases h

theorem result?_of_folded? {kind : OpKind} {r : OperandId} (h : kind.folded? = some r) :
    kind.result? = some r := by
  cases kind with
  | binary | unary | cast => exact h
  | concatList list result =>
    have hlist : (many .list list).find? (·.1 = ⟨.result, none⟩) = none := by
      refine List.find?_eq_none.2 fun e he => ?_
      obtain ⟨i, -, rfl⟩ := List.mem_mapIdx.1 he
      simp
    rw [← h]
    simp [folded?, result?, operand?, slots, one, List.find?_append, hlist]
  | _ => cases h

end OpKind

namespace Arena

variable {a a' a'' : Arena} {f g : FuncId} {op : OpId} {r c : OperandId} {value : Scalar Float}

/-! ## What can be folded -/

/-- What an operation makes of known scalars depends on what is known of the operands that it
reads. -/
theorem evaluate?_mapOperands {σ : OperandId → OperandId} {kind : OpKind}
    (h : ∀ x ∈ kind.reads, a'.literalOf? (σ x) = a.literalOf? x) :
    a'.evaluate? (kind.mapOperands σ) = a.evaluate? kind := by
  cases kind with
  | binary op left right result =>
    have hreads : (OpKind.binary op left right result).reads = [left, right] := rfl
    simp only [OpKind.mapOperands, evaluate?, h left (by simp [hreads]), h right (by simp [hreads])]
  | unary op expr result =>
    have hreads : (OpKind.unary op expr result).reads = [expr] := rfl
    simp only [OpKind.mapOperands, evaluate?, h expr (by simp [hreads])]
  | cast kind expr result =>
    have hreads : (OpKind.cast kind expr result).reads = [expr] := rfl
    simp only [OpKind.mapOperands, evaluate?, h expr (by simp [hreads])]
  | concatList list result =>
    rw [OpKind.reads_concatList] at h
    have hparts : (list.map σ).mapM a'.literalOf? = list.mapM a.literalOf? := by
      clear result
      induction list with
      | nil => rfl
      | cons x rest ih =>
        rw [List.map_cons, List.mapM_cons, List.mapM_cons, h x List.mem_cons_self,
          ih fun y hy => h y (List.mem_cons_of_mem _ hy)]
    simp only [OpKind.mapOperands, evaluate?, concatOf?, hparts]
  | _ => rfl

theorem folded?_of_evaluate? {kind : OpKind} (h : a.evaluate? kind = some value) :
    ∃ r, kind.folded? = some r := by
  cases kind <;> first | exact ⟨_, rfl⟩ | cases h

/-- What folding an operation does. -/
theorem foldOp?_eq_some (h : a.foldOp? op = some a') : ∃ r value, (a.op op).kind.folded? = some r ∧
    ((a.newOperand (.scalar value)).2.replaceUses r ⟨a.operands.size⟩).removeOp op = a' := by
  obtain ⟨value, hvalue, hfold⟩ := Option.bind_eq_some_iff.1 h
  obtain ⟨result, hresult, hfold⟩ := Option.bind_eq_some_iff.1 hfold
  obtain ⟨r, hr⟩ := folded?_of_evaluate? hvalue
  obtain rfl := Option.some.inj ((OpKind.result?_of_folded? hr).symm.trans hresult)
  exact ⟨r, value, hr, Option.some.inj hfold⟩

theorem foldOp?_eq_none (h : a.evaluate? (a.op op).kind = none) : a.foldOp? op = none :=
  Option.bind_eq_none_iff.2 fun value hvalue => by cases h.symm.trans hvalue

theorem evaluate?_of_foldOp? (h : a.foldOp? op = none) : a.evaluate? (a.op op).kind = none := by
  by_contra hsome
  obtain ⟨value, hvalue⟩ := Option.ne_none_iff_exists'.1 hsome
  obtain ⟨r, hr⟩ := folded?_of_evaluate? hvalue
  simp [foldOp?, hvalue, OpKind.result?_of_folded? hr] at h

/-! ## One operation is folded -/

/-- Operations mention one operand in the place of another, and nothing else changes of operations,
functions and blocks but the guards. -/
structure Rewrites (a a' : Arena) (old new : OperandId) : Prop where
  kind (o : OpId) : ∃ σ : OperandId → OperandId, (a'.op o).kind = (a.op o).kind.mapOperands σ ∧
    ∀ x, σ x = x ∨ x = old ∧ σ x = new
  place (o : OpId) : (a'.op o).block = (a.op o).block ∧ (a'.op o).file = (a.op o).file
  block (b : BlockId) : ∃ guards, a'.block b = { a.block b with guards }
  funcs : a'.funcs = a.funcs

namespace Rewrites

variable {old new : OperandId}

theorem of_eq (hops : a'.ops = a.ops) (hblocks : a'.blocks = a.blocks) (hfuncs : a'.funcs = a.funcs) :
    Rewrites a a' old new := by
  have hop (o : OpId) : a'.op o = a.op o := by rw [Arena.op, Arena.op, hops]
  refine ⟨fun o => ⟨id, ?_, fun _ => .inl rfl⟩, fun o => by rw [hop]; exact ⟨rfl, rfl⟩, fun b => ?_,
    hfuncs⟩
  · rw [hop, OpKind.mapOperands_of_fixed fun _ _ => rfl]
  · exact ⟨(a.block b).guards, by rw [Arena.block, Arena.block, hblocks]⟩

theorem refl (a : Arena) : Rewrites a a old new := of_eq rfl rfl rfl

theorem trans (h : Rewrites a a' old new) (h' : Rewrites a' a'' old new) :
    Rewrites a a'' old new where
  kind o := by
    obtain ⟨σ, hkind, hσ⟩ := h.kind o
    obtain ⟨τ, hkind', hτ⟩ := h'.kind o
    refine ⟨τ ∘ σ, by rw [hkind', hkind, OpKind.mapOperands_mapOperands], fun x => ?_⟩
    rcases hσ x with hx | ⟨hx, hnew⟩
    · rw [Function.comp_apply, hx]
      exact hτ x
    · refine .inr ⟨hx, ?_⟩
      rw [Function.comp_apply, hnew]
      exact (hτ new).elim id And.right
  place o := ⟨(h'.place o).1.trans (h.place o).1, (h'.place o).2.trans (h.place o).2⟩
  block b := by
    obtain ⟨guards, hb⟩ := h.block b
    obtain ⟨guards', hb'⟩ := h'.block b
    exact ⟨guards', by rw [hb', hb]⟩
  funcs := h'.funcs.trans h.funcs

theorem foldl {τ : Type} {step : Arena → τ → Arena} (hstep : ∀ a x, Rewrites a (step a x) old new)
    (l : List τ) (a : Arena) : Rewrites a (l.foldl step a) old new := by
  induction l generalizing a with
  | nil => exact refl a
  | cons x l ih => exact (hstep a x).trans (ih _)

theorem replaceInOp (a : Arena) (op : OpId) : Rewrites a (a.replaceInOp op old new) old new := by
  obtain ⟨hblocks, hfuncs⟩ := blocks_replaceInOp a op old new
  refine ⟨fun o => ?_, fun o => ?_, fun b => ⟨(a.block b).guards, by rw [Arena.block, hblocks]; rfl⟩,
    hfuncs⟩
  · rcases op_replaceInOp_or a op o old new with heq | ⟨-, heq⟩ <;> rw [heq]
    · exact ⟨id, (OpKind.mapOperands_of_fixed fun _ _ => rfl).symm, fun _ => .inl rfl⟩
    · refine ⟨_, rfl, fun x => ?_⟩
      split
      · exact .inr ⟨‹_›, rfl⟩
      · exact .inl rfl
  · rcases op_replaceInOp_or a op o old new with heq | ⟨-, heq⟩ <;> rw [heq] <;> exact ⟨rfl, rfl⟩

theorem replaceGuard (a : Arena) (b : BlockId) : Rewrites a (replaceGuard old new a b) old new := by
  refine ⟨fun o => ⟨id, (OpKind.mapOperands_of_fixed fun _ _ => rfl).symm, fun _ => .inl rfl⟩,
    fun o => ⟨rfl, rfl⟩, fun c => ?_, rfl⟩
  change ∃ guards, (a.modifyBlock b _).block c = _
  rw [block_modifyBlock]
  split
  · exact ⟨_, rfl⟩
  · exact ⟨(a.block c).guards, rfl⟩

theorem replaceUses (a : Arena) : Rewrites a (a.replaceUses old new) old new := by
  unfold Arena.replaceUses
  split
  · exact refl a
  · refine (foldl (fun a op => replaceInOp a op) (a.operand old).usages a).trans ?_
    dsimp only
    generalize (a.operand old).usages.foldl (fun a op => a.replaceInOp op old new) a = read
    have hcleared : Rewrites read (read.modifyOperand old fun o => { o with condUsages := [] })
      old new := of_eq rfl rfl rfl
    exact hcleared.trans (foldl replaceGuard _ _)

end Rewrites

theorem op_removeOp (a : Arena) (op o : OpId) :
    (a.removeOp op).op o = if o = op then { a.op o with block := none } else a.op o := by
  have hforget (b : Arena) (slots : List (Slot × OperandId)) : (slots.foldl (fun a e =>
      a.modifyOperand e.2 fun o => (o.removeUsage op).removeDef op) b).op o = b.op o := by
    rw [Arena.op, (foldl_forget op slots b).1]
    rfl
  unfold removeOp
  dsimp only
  rw [hforget]
  split
  · rename_i home hhome
    have hlt : op.index < a.ops.size := op_lt_of_block hhome
    exact op_modifyOp_of_lt (a := a.modifyBlock home _) hlt _ o
  · rename_i hnone
    split
    · rename_i heq
      rw [heq, ← hnone]
    · rfl

theorem block_removeOp (a : Arena) (op : OpId) (b : BlockId) :
    (a.removeOp op).block b = if (a.op op).block = some b then { a.block b with
      ops := (a.block b).ops.filter (· ≠ op), phis := (a.block b).phis.filter (· ≠ op) }
      else a.block b := by
  have hforget (c : Arena) (slots : List (Slot × OperandId)) : (slots.foldl (fun a e =>
      a.modifyOperand e.2 fun o => (o.removeUsage op).removeDef op) c).block b = c.block b := by
    rw [Arena.block, (foldl_forget op slots c).2.1]
    rfl
  unfold removeOp
  dsimp only
  rw [hforget]
  split
  · rename_i home hhome
    rw [block_modifyOp, block_modifyBlock, hhome]
    by_cases hb : b.index < a.blocks.size
    · simp [hb]
    · rw [if_neg fun h => hb h.2, block_of_le a (Nat.le_of_not_lt hb)]
      split <;> rfl
  · rename_i hnone
    rw [if_neg (by simp [hnone])]

/-- What folding an operation does to operands, operations, blocks and functions. -/
structure FoldStep (a a' : Arena) (op : OpId) (r : OperandId) (value : Scalar Float) : Prop where
  folded : (a.op op).kind.folded? = some r
  size : a'.operands.size = a.operands.size + 1
  operand (x : OperandId) : (a'.operand x).kind =
    if x.index = a.operands.size then .scalar value else (a.operand x).kind
  sizeOps : a'.ops.size = a.ops.size
  kind (o : OpId) : ∃ σ : OperandId → OperandId, (a'.op o).kind = (a.op o).kind.mapOperands σ ∧
    ∀ x, σ x = x ∨ x = r ∧ σ x = ⟨a.operands.size⟩
  place (o : OpId) : (a'.op o).block = if o = op then none else (a.op o).block
  file (o : OpId) : (a'.op o).file = (a.op o).file
  block (b : BlockId) : ∃ guards, a'.block b = if (a.op op).block = some b then
    { a.block b with guards, ops := (a.block b).ops.filter (· ≠ op),
                     phis := (a.block b).phis.filter (· ≠ op) }
    else { a.block b with guards }
  funcs : a'.funcs = a.funcs

theorem foldStep_of_foldOp? (h : a.foldOp? op = some a') :
    ∃ r value, FoldStep a a' op r value := by
  obtain ⟨r, value, hr, rfl⟩ := foldOp?_eq_some h
  have hnew : Rewrites a (a.newOperand (.scalar value)).2 r ⟨a.operands.size⟩ := .of_eq rfl rfl rfl
  have hrewrites := hnew.trans (.replaceUses _)
  have hsame := (SameOperands.replaceUses (a.newOperand (.scalar value)).2 r
    ⟨a.operands.size⟩).trans (.removeOp _ op)
  have hextent := (extent_removeOp (a := (a.newOperand (.scalar value)).2.replaceUses r
    ⟨a.operands.size⟩) op).trans (extent_replaceUses ..)
  have hthins := Thins.removeOp ((a.newOperand (.scalar value)).2.replaceUses r ⟨a.operands.size⟩) op
  revert hrewrites hsame hextent hthins
  generalize (a.newOperand (.scalar value)).2.replaceUses r ⟨a.operands.size⟩ = a₁
  intro hrewrites hsame hextent hthins
  refine ⟨r, value, ⟨hr, ?_, fun x => ?_, congrArg Extent.ops hextent, fun o => ?_, fun o => ?_,
    fun o => ?_, fun b => ?_, hthins.funcs.trans hrewrites.funcs⟩⟩
  · exact hsame.size.trans (Array.size_push ..)
  · rw [hsame.kind, operand_newOperand]
    split <;> rfl
  · have hkind : ((a₁.removeOp op).op o).kind = (a₁.op o).kind := by
      rw [op_removeOp]
      split <;> rfl
    rw [hkind]
    exact hrewrites.kind o
  · rw [op_removeOp]
    split
    · rfl
    · exact (hrewrites.place o).1
  · rw [op_removeOp]
    split <;> exact (hrewrites.place o).2
  · obtain ⟨guards, hguards⟩ := hrewrites.block b
    exact ⟨guards, by rw [block_removeOp, hguards, (hrewrites.place op).1]⟩

namespace FoldStep

variable (s : FoldStep a a' op r value)
include s

theorem mem_ops {o : OpId} {b : BlockId} (ho : o ∈ (a'.block b).ops) : o ∈ (a.block b).ops := by
  obtain ⟨guards, hb⟩ := s.block b
  rw [hb] at ho
  split at ho
  · exact (List.mem_filter.1 ho).1
  · exact ho

theorem mem_members {o : OpId} {b : BlockId} (ho : o ∈ a'.members b) :
    o ∈ a.members b ∧ ((a.op op).block = some b → o ≠ op) := by
  obtain ⟨guards, hb⟩ := s.block b
  rw [members, hb] at ho
  split at ho
  · rw [← List.filter_append] at ho
    obtain ⟨ho, hne⟩ := List.mem_filter.1 ho
    exact ⟨ho, fun _ => of_decide_eq_true hne⟩
  · exact ⟨ho, fun hplace => absurd hplace ‹_›⟩

theorem dead (b : BlockId) : (a'.block b).dead = (a.block b).dead := by
  obtain ⟨guards, hb⟩ := s.block b
  rw [hb]
  split <;> rfl

theorem owner (b : BlockId) : (a'.block b).func = (a.block b).func := by
  obtain ⟨guards, hb⟩ := s.block b
  rw [hb]
  split <;> rfl

theorem func (f : FuncId) : a'.func f = a.func f := by
  rw [Arena.func, Arena.func, s.funcs]

theorem mem_liveOps {o : OpId} (ho : o ∈ a'.liveOps f) : o ∈ a.liveOps f := by
  obtain ⟨b, hb, ho⟩ := List.mem_flatMap.1 ho
  obtain ⟨hb, hlive⟩ := List.mem_filter.1 hb
  rw [s.func] at hb
  rw [s.dead] at hlive
  exact List.mem_flatMap.2 ⟨b, List.mem_filter.2 ⟨hb, hlive⟩, s.mem_ops ho⟩

theorem kind_of_lt {x : OperandId} (hx : x.index < a.operands.size) :
    (a'.operand x).kind = (a.operand x).kind := by
  rw [s.operand, if_neg (Nat.ne_of_lt hx)]

theorem isSome_of_isSome {o : OpId} (ho : (a'.op o).block.isSome = true) :
    (a.op o).block.isSome = true := by
  rw [s.place] at ho
  split at ho
  · cases ho
  · exact ho

/-- No operation enters a block. -/
theorem placedOps_le : a'.placedOps ≤ a.placedOps :=
  countP_le_countP (d := default) s.sizeOps fun i _ => s.isSome_of_isSome (o := ⟨i⟩)

/-- An operation that is folded leaves its block. -/
theorem placedOps_lt (hop : (a.op op).block.isSome = true) : a'.placedOps < a.placedOps := by
  obtain ⟨home, hhome⟩ := Option.isSome_iff_exists.1 hop
  refine countP_lt_countP (d := default) s.sizeOps (fun i _ => s.isSome_of_isSome (o := ⟨i⟩))
    (op_lt_of_block hhome) hop ?_
  change ((a'.op op).block).isSome = false
  rw [s.place, if_pos rfl]
  rfl

end FoldStep

/-! ## Functions apart -/

/-- An operation stands in a block that a function lists. -/
def Hosts (a : Arena) (f : FuncId) (op : OpId) : Prop :=
  ∃ b ∈ (a.func f).blocks, op ∈ (a.block b).ops

/-- What a function can fold does not read the result of an operation. -/
def Spared (a : Arena) (f : FuncId) (op : OpId) : Prop :=
  ∀ o, a.Hosts f o → (a.op o).kind.folded? ≠ none → ∀ x ∈ (a.op o).kind.reads,
    (a.op op).kind.folded? ≠ some x

/-- Operations stand where they say, functions list their own blocks, what is mentioned is there, and
what a function can fold does not read what a later function computes. -/
structure Separate (a : Arena) (funcs : List FuncId) : Prop where
  placed {b : BlockId} {op : OpId} : op ∈ a.members b → (a.op op).block = some b
  listed {f : FuncId} {b : BlockId} : b ∈ (a.func f).blocks → (a.block b).func = some f
  linked {x y : OperandId} : a.linkOf? x = some y → y.index < a.operands.size
  there {op : OpId} {x : OperandId} : x ∈ (a.op op).kind.operands → x.index < a.operands.size
  spared : funcs.Pairwise fun f g => ∀ op, a.Hosts g op → a.Spared f op

variable {funcs : List FuncId}

theorem Separate.sublist (h : a.Separate funcs) {l : List FuncId} (hl : l.Sublist funcs) :
    a.Separate l :=
  { h with spared := h.spared.sublist hl }

namespace FoldStep

variable (s : FoldStep a a' op r value)
include s

theorem hosts {o : OpId} (ho : a'.Hosts f o) : a.Hosts f o := by
  obtain ⟨b, hb, ho⟩ := ho
  exact ⟨b, s.func f ▸ hb, s.mem_ops ho⟩

/-- The constant stands for the result only, so it is read by what read the result, and computed by
what computed the result. -/
theorem spared (h : a.Separate funcs) {other : OpId} (hother : a.Spared f other) :
    a'.Spared f other := by
  intro o ho hkind x hx hresult
  obtain ⟨σ, hσkind, hσ⟩ := s.kind o
  obtain ⟨τ, hτkind, hτ⟩ := s.kind other
  rw [hσkind, OpKind.folded?_mapOperands] at hkind
  rw [hσkind, OpKind.reads_mapOperands] at hx
  rw [hτkind, OpKind.folded?_mapOperands] at hresult
  obtain ⟨y, hy, rfl⟩ := List.mem_map.1 hx
  obtain ⟨z, hz, heq⟩ := Option.map_eq_some_iff.1 hresult
  have hkind : (a.op o).kind.folded? ≠ none := fun hnone => hkind (by rw [hnone]; rfl)
  have hfresh {w : OperandId} (hw : w.index < a.operands.size) : w ≠ ⟨a.operands.size⟩ :=
    fun hnew => Nat.lt_irrefl _ (hnew ▸ hw)
  have hylt := h.there (OpKind.mem_operands_of_mem_reads hy)
  have hzlt := h.there (OpKind.mem_operands_of_folded? hz)
  have hne : z ≠ y := fun hsame => hother o (s.hosts ho) hkind y hy (hsame ▸ hz)
  rcases hσ y with hsame | ⟨hyr, hnew⟩ <;> rcases hτ z with hsame' | ⟨hzr, hnew'⟩
  · exact hne (hsame' ▸ heq.trans hsame)
  · exact hfresh hylt (hsame ▸ heq ▸ hnew')
  · exact hfresh hzlt (hsame' ▸ heq.trans hnew)
  · exact hne (hzr.trans hyr.symm)

theorem separate (h : a.Separate funcs) : a'.Separate funcs where
  placed {b o} ho := by
    obtain ⟨hold, hne⟩ := s.mem_members ho
    have hplace := h.placed hold
    have hother : o ≠ op := by
      rintro rfl
      exact hne hplace rfl
    rw [s.place, if_neg hother, hplace]
  listed {g b} hb := by
    rw [s.func] at hb
    exact (s.owner b).trans (h.listed hb)
  linked {x y} hxy := by
    rw [s.size]
    by_cases hx : x.index = a.operands.size
    · rw [linkOf?, s.operand, if_pos hx] at hxy
      cases hxy
    · rw [linkOf?_congr ((s.operand x).trans (if_neg hx))] at hxy
      exact Nat.lt_succ_of_lt (h.linked hxy)
  there {o x} hx := by
    obtain ⟨σ, hkind, hσ⟩ := s.kind o
    rw [hkind, OpKind.operands, OpKind.slots_mapOperands, List.map_map] at hx
    obtain ⟨e, he, rfl⟩ := List.mem_map.1 hx
    have hold : e.2 ∈ (a.op o).kind.operands := List.mem_map_of_mem he
    rw [s.size]
    change (σ e.2).index < _
    rcases hσ e.2 with hsame | ⟨-, hnew⟩
    · rw [hsame]
      exact Nat.lt_succ_of_lt (h.there hold)
    · rw [hnew]
      exact Nat.lt_succ_self _
  spared := h.spared.imp fun hfg o ho => s.spared h (hfg o (s.hosts ho))

end FoldStep

theorem lasting_separate (funcs : List FuncId) : Lasting (Separate · funcs) where
  install {a} file block op hop h := by
    have hkind (o : OpId) : ((installOp file block a op).op o).kind = (a.op o).kind :=
      op_modifyOp_keep a Op.kind op o fun _ => rfl
    refine { h with placed := fun {b o} ho => ?_, there := fun hx => ?_, spared := ?_ }
    · rw [installOp, op_modifyOp]
      split
      · rename_i hsame
        exact (h.placed hop).symm.trans (hsame.1 ▸ h.placed ho)
      · exact h.placed ho
    · rw [hkind] at hx
      exact h.there hx
    · refine h.spared.imp fun hfg o ho o' ho' hfold x hx => ?_
      rw [hkind] at hfold hx ⊢
      exact hfg o ho o' ho' hfold x hx
  fold hfold h := by
    obtain ⟨r, value, s⟩ := foldStep_of_foldOp? hfold
    exact s.separate h

/-! ## Functions at rest -/

/-- None of the operations of a function can be folded. -/
def Quiet (a : Arena) (f : FuncId) : Prop :=
  ∀ op ∈ a.liveOps f, a.evaluate? (a.op op).kind = none

/-- The operations of a function know its file. -/
def Filed (a : Arena) (f : FuncId) : Prop :=
  ∀ b ∈ (a.func f).blocks, ∀ op ∈ a.members b, (a.op op).file = (a.func f).file

/-- Nothing is left to do for a function. -/
structure Rested (a : Arena) (f : FuncId) : Prop where
  quiet : a.Quiet f
  filed : a.Filed f

theorem hosts_of_mem_liveOps (h : op ∈ a.liveOps f) : a.Hosts f op := by
  obtain ⟨b, hb, hop⟩ := List.mem_flatMap.1 h
  exact ⟨b, (List.mem_filter.1 hb).1, hop⟩

/-- A quiet function stays so, if it does not read the result that is folded. -/
theorem FoldStep.quiet (s : FoldStep a a' op r value) (h : a.Separate funcs)
    (hspared : a.Spared f op) (hf : a.Quiet f) : a'.Quiet f := fun o ho => by
  have hold := s.mem_liveOps ho
  obtain ⟨σ, hkind, hσ⟩ := s.kind o
  rw [hkind]
  by_cases hfold : (a.op o).kind.folded? = none
  · by_contra hsome
    obtain ⟨v, hv⟩ := Option.ne_none_iff_exists'.1 hsome
    obtain ⟨r', hr'⟩ := folded?_of_evaluate? hv
    rw [OpKind.folded?_mapOperands, hfold] at hr'
    cases hr'
  · rw [evaluate?_mapOperands fun x hx => ?_]
    · exact hf o hold
    · have hne : x ≠ r := fun heq =>
        hspared o (hosts_of_mem_liveOps hold) hfold x hx (heq ▸ s.folded)
      rw [(hσ x).resolve_right fun hr => hne hr.1]
      exact literalOf?_congr h.linked s.kind_of_lt (h.there (OpKind.mem_operands_of_mem_reads hx))

theorem FoldStep.filed (s : FoldStep a a' op r value) (hf : a.Filed f) : a'.Filed f :=
  fun b hb o ho => by
    rw [s.func] at hb ⊢
    rw [s.file]
    exact hf b hb o (s.mem_members ho).1

theorem quiet_foldOps (h : a.Separate funcs) (count : Nat) {ops : List OpId}
    (hops : ∀ op ∈ ops, a.Spared f op) (hf : a.Quiet f) : (a.foldOps count ops).2.Quiet f := by
  induction ops generalizing a count with
  | nil => exact hf
  | cons op rest ih =>
    obtain ⟨hop, hrest⟩ := List.forall_mem_cons.1 hops
    rw [foldOps]
    split
    · rename_i a' hfold
      obtain ⟨r, value, s⟩ := foldStep_of_foldOp? hfold
      exact ih (s.separate h) _ (fun o ho => s.spared h (hrest o ho)) (s.quiet h hop hf)
    · exact ih h count hrest hf

/-- Folding a later function leaves a function quiet. -/
theorem Quiet.fold (hf : a.Quiet f) (h : a.Separate [f, g]) : (a.fold g).2.Quiet f := by
  have hround {a folded : Arena} {count : Nat} (hf : a.Quiet f) (h : a.Separate [f, g])
      (heq : a.foldOps 0 (a.liveOps g) = (count, folded)) :
      folded.Quiet f ∧ folded.Separate [f, g] := by
    have hspared (op : OpId) (hop : op ∈ a.liveOps g) : a.Spared f op :=
      List.pairwise_pair.1 h.spared op (hosts_of_mem_liveOps hop)
    have hquiet := quiet_foldOps h 0 hspared hf
    have hseparate := foldOps_keeps (lasting_separate [f, g]).fold h 0 (a.liveOps g)
    rw [heq] at hquiet hseparate
    exact ⟨hquiet, hseparate⟩
  fun_induction Arena.fold a g with
  | case1 a folded heq => exact (hround hf h heq).1
  | case2 a count folded heq _ _ more last hmore ih =>
    obtain ⟨hf', h'⟩ := hround hf h heq
    have hlast := ih hf' h'
    rwa [hmore] at hlast
  | case3 a count folded heq _ _ => exact (hround hf h heq).1

theorem Filed.fold (hf : a.Filed f) (g : FuncId) : (a.fold g).2.Filed f :=
  fold_keeps (P := (Filed · f)) (fun hfold h => by
    obtain ⟨r, value, s⟩ := foldStep_of_foldOp? hfold
    exact s.filed h) hf g

/-! ## Folding a function -/

/-- A round that folds nothing changes nothing. -/
theorem foldOps_cases (a : Arena) (count : Nat) (ops : List OpId) :
    count < (a.foldOps count ops).1 ∨
      (∀ op ∈ ops, a.foldOp? op = none) ∧ a.foldOps count ops = (count, a) := by
  induction ops generalizing a count with
  | nil => exact .inr ⟨fun _ hop => (by cases hop), rfl⟩
  | cons op rest ih =>
    rw [foldOps]
    split
    · rename_i a' _
      rcases ih a' (count + 1) with hlt | ⟨-, heq⟩
      · exact .inl (Nat.lt_of_succ_lt hlt)
      · exact .inl (by rw [heq]; exact Nat.lt_succ_self count)
    · rename_i hnone
      exact (ih a count).imp_right (And.imp_left fun hrest => List.forall_mem_cons.2 ⟨hnone, hrest⟩)

theorem placedOps_foldOps_le (a : Arena) (count : Nat) (ops : List OpId) :
    (a.foldOps count ops).2.placedOps ≤ a.placedOps := by
  refine foldOps_keeps (P := fun a' => a'.placedOps ≤ a.placedOps) (fun hfold ha => ?_)
    (Nat.le_refl _) count ops
  obtain ⟨r, value, s⟩ := foldStep_of_foldOp? hfold
  exact s.placedOps_le.trans ha

/-- A round takes an operation out of its block, if it folds one. -/
theorem placedOps_foldOps_lt {n : Nat} {ops : List OpId}
    (hplaced : ∀ op ∈ ops, (a.op op).block.isSome = true)
    (hcount : (a.foldOps n ops).1 ≠ n) : (a.foldOps n ops).2.placedOps < a.placedOps := by
  induction ops with
  | nil => exact absurd rfl hcount
  | cons op rest ih =>
    obtain ⟨hop, hrest⟩ := List.forall_mem_cons.1 hplaced
    rw [foldOps] at hcount ⊢
    split
    · rename_i a' hfold
      obtain ⟨r, value, s⟩ := foldStep_of_foldOp? hfold
      exact Nat.lt_of_le_of_lt (placedOps_foldOps_le a' _ rest) (s.placedOps_lt hop)
    · rename_i hnone
      rw [hnone] at hcount
      exact ih hrest hcount

/-- Folding a function goes on until none of its operations can be folded. -/
theorem fold_quiets (h : a.Separate []) (func : FuncId) : (a.fold func).2.Quiet func := by
  have hround {a folded : Arena} {count : Nat} (h : a.Separate [])
      (heq : a.foldOps 0 (a.liveOps func) = (count, folded)) : folded.Separate [] := by
    have hfolded := foldOps_keeps (lasting_separate []).fold h 0 (a.liveOps func)
    rwa [heq] at hfolded
  fun_induction Arena.fold a func with
  | case1 a folded heq =>
    rcases foldOps_cases a 0 (a.liveOps func) with hlt | ⟨hnone, heq'⟩
    · rw [heq] at hlt
      exact absurd hlt (Nat.lt_irrefl 0)
    · obtain rfl : a = folded := (Prod.mk.inj (heq'.symm.trans heq)).2
      exact fun op hop => evaluate?_of_foldOp? (hnone op hop)
  | case2 a count folded heq _ _ more last hmore ih =>
    have hlast := ih (hround h heq)
    rwa [hmore] at hlast
  | case3 a count folded heq hcount hguard =>
    have hplaced (op : OpId) (hop : op ∈ a.liveOps func) : (a.op op).block.isSome = true := by
      obtain ⟨b, -, hop⟩ := hosts_of_mem_liveOps hop
      rw [h.placed (List.mem_append_right _ hop)]
      rfl
    have hlt := placedOps_foldOps_lt (n := 0) hplaced (by rw [heq]; exact hcount)
    rw [heq] at hlt
    exact absurd hlt hguard

theorem Quiet.fold_eq (h : a.Quiet f) : a.fold f = (0, a) := by
  have hround : a.foldOps 0 (a.liveOps f) = (0, a) := by
    unfold Quiet at h
    generalize a.liveOps f = ops at h
    induction ops with
    | nil => rfl
    | cons op rest ih =>
      rw [foldOps, foldOp?_eq_none (h op List.mem_cons_self)]
      exact ih fun o ho => h o (List.mem_cons_of_mem _ ho)
  rw [Arena.fold, hround]
  rfl

/-! ## Telling operations their places -/

/-- Some operations learn their file, and nothing else changes but their blocks. -/
structure Files (a a' : Arena) (ops : Set OpId) (file : Option String) : Prop where
  operands : a'.operands = a.operands
  sizeOps : a'.ops.size = a.ops.size
  blocks : a'.blocks = a.blocks
  funcs : a'.funcs = a.funcs
  kind (o : OpId) : (a'.op o).kind = (a.op o).kind
  filed {o : OpId} : o ∈ ops → (a'.op o).file = file
  same {o : OpId} : o ∉ ops → (a'.op o).file = (a.op o).file

namespace Files

variable {ops ops' : Set OpId} {file : Option String}

theorem refl (a : Arena) : Files a a ∅ file :=
  ⟨rfl, rfl, rfl, rfl, fun _ => rfl, fun h => h.elim, fun _ => rfl⟩

theorem trans (h : Files a a' ops file) (h' : Files a' a'' ops' file) :
    Files a a'' (ops ∪ ops') file where
  operands := h'.operands.trans h.operands
  sizeOps := h'.sizeOps.trans h.sizeOps
  blocks := h'.blocks.trans h.blocks
  funcs := h'.funcs.trans h.funcs
  kind o := (h'.kind o).trans (h.kind o)
  filed {o} ho := by
    by_cases ho' : o ∈ ops'
    · exact h'.filed ho'
    · exact (h'.same ho').trans (h.filed (ho.resolve_right ho'))
  same ho := (h'.same fun ho' => ho (.inr ho')).trans (h.same fun ho' => ho (.inl ho'))

theorem congr (h : Files a a' ops file) (hops : ops = ops') : Files a a' ops' file := hops ▸ h

theorem members (h : Files a a' ops file) (b : BlockId) : a'.members b = a.members b := by
  rw [Arena.members, Arena.block, h.blocks]
  rfl

theorem func (h : Files a a' ops file) (f : FuncId) : a'.func f = a.func f := by
  rw [Arena.func, Arena.func, h.funcs]

theorem installOp (file : Option String) (b : BlockId) (hop : op.index < a.ops.size) :
    Files a (installOp file b a op) {op} file where
  operands := rfl
  sizeOps := Array.size_modify ..
  blocks := rfl
  funcs := rfl
  kind o := op_modifyOp_keep a Op.kind op o fun _ => rfl
  filed := by
    rintro o rfl
    rw [Arena.installOp, op_modifyOp, if_pos ⟨rfl, hop⟩]
  same ho := by
    rw [Arena.installOp, op_modifyOp, if_neg fun h => ho h.1.symm]

theorem installOps (file : Option String) (b : BlockId) {ops : List OpId}
    (hops : ∀ op ∈ ops, op.index < a.ops.size) :
    Files a (ops.foldl (Arena.installOp file b) a) {o | o ∈ ops} file := by
  induction ops generalizing a with
  | nil => exact (refl a).congr (by simp)
  | cons op rest ih =>
    obtain ⟨hop, hrest⟩ := List.forall_mem_cons.1 hops
    have h := installOp file b hop
    exact (h.trans (ih fun o ho => h.sizeOps.symm ▸ hrest o ho)).congr (by ext; simp)

theorem install (h : ∀ b, ∀ op ∈ a.members b, op.index < a.ops.size) (g : FuncId) :
    Files a (a.install g).2 {o | ∃ b ∈ (a.func g).blocks, o ∈ a.members b} (a.func g).file := by
  unfold Arena.install
  generalize (a.func g).file = file
  generalize 0 = count
  induction (a.func g).blocks generalizing a count with
  | nil => exact (refl a).congr (by simp)
  | cons b rest ih =>
    have hb := installOps file b (h b)
    have hrest := ih (a := (a.members b).foldl (Arena.installOp file b) a)
      (fun c o ho => hb.sizeOps.symm ▸ h c o (hb.members c ▸ ho)) (count + (a.members b).length)
    exact (hb.trans hrest).congr (by ext; simp [hb.members])

end Files

theorem Separate.files (h : a.Separate funcs) (g : FuncId) : Files a (a.install g).2
    {o | ∃ b ∈ (a.func g).blocks, o ∈ a.members b} (a.func g).file :=
  .install (fun _ _ hop => op_lt_of_block (h.placed hop)) g

theorem Quiet.install (hf : a.Quiet f) (h : a.Separate funcs) (g : FuncId) :
    (a.install g).2.Quiet f := by
  have hi := h.files g
  have hblock (b : BlockId) : (a.install g).2.block b = a.block b := by
    rw [Arena.block, hi.blocks]
    rfl
  have hlive : (a.install g).2.liveOps f = a.liveOps f := by
    simp only [liveOps, hi.func, hblock]
  have hoperand (x : OperandId) : (a.install g).2.operand x = a.operand x := by
    rw [Arena.operand, hi.operands]
    rfl
  intro o ho
  rw [hlive] at ho
  have hmap : (a.op o).kind.mapOperands id = (a.op o).kind :=
    OpKind.mapOperands_of_fixed fun _ _ => rfl
  rw [hi.kind, ← hmap, evaluate?_mapOperands fun x hx => ?_]
  · exact hf o ho
  · exact literalOf?_congr h.linked (fun _ => by rw [hoperand])
      (h.there (OpKind.mem_operands_of_mem_reads hx))

/-- Functions do not share operations, so telling the operations of one their places leaves those of
another. -/
theorem Filed.install (hf : a.Filed f) (h : a.Separate funcs) (g : FuncId) :
    (a.install g).2.Filed f := by
  have hi := h.files g
  intro b hb o ho
  rw [hi.func] at hb ⊢
  rw [hi.members] at ho
  by_cases hmem : ∃ b ∈ (a.func g).blocks, o ∈ a.members b
  · obtain ⟨b', hb', ho'⟩ := hmem
    obtain rfl : b = b' := Option.some.inj ((h.placed ho).symm.trans (h.placed ho'))
    obtain rfl : f = g := Option.some.inj ((h.listed hb).symm.trans (h.listed hb'))
    exact hi.filed ⟨b, hb', ho'⟩
  · exact (hi.same hmem).trans (hf b hb o ho)

theorem filed_install (h : a.Separate funcs) (g : FuncId) : (a.install g).2.Filed g := by
  have hi := h.files g
  intro b hb o ho
  rw [hi.func] at hb ⊢
  rw [hi.members] at ho
  exact hi.filed ⟨b, hb, ho⟩

theorem modifyOp_of_fixed {g : Op → Op} (h : g (a.op op) = a.op op) : a.modifyOp op g = a := by
  have hops : a.ops.modify op.index g = a.ops := by
    refine Array.ext (Array.size_modify ..) fun i hi hi' => ?_
    rw [Array.getElem_modify]
    split
    · rename_i heq
      subst heq
      simpa [Arena.op, hi'] using h
    · rfl
  rw [modifyOp, hops]

theorem Filed.install_eq (hf : a.Filed f) (h : a.Separate funcs) : (a.install f).2 = a := by
  have hfile := hf
  unfold Filed at hfile
  unfold Arena.install
  generalize (a.func f).file = file at hfile
  generalize 0 = count
  generalize (a.func f).blocks = blocks at hfile
  induction blocks generalizing count with
  | nil => rfl
  | cons b rest ih =>
    obtain ⟨hb, hrest⟩ := List.forall_mem_cons.1 hfile
    have hops : (a.members b).foldl (installOp file b) a = a := by
      have hplaced (op : OpId) (hop : op ∈ a.members b) : installOp file b a op = a :=
        modifyOp_of_fixed (by
          have hplace := h.placed hop
          have hfiled := hb op hop
          cases hkind : a.op op
          simp_all)
      generalize a.members b = ops at hplaced
      induction ops with
      | nil => rfl
      | cons op rest ih =>
        rw [List.foldl_cons, hplaced op List.mem_cons_self]
        exact ih fun o ho => hplaced o (List.mem_cons_of_mem _ ho)
    rw [List.foldl_cons]
    change (rest.foldl _ (count + (a.members b).length,
      (a.members b).foldl (installOp file b) a)).2 = a
    rw [hops]
    exact ih _ hrest

/-! ## All functions -/

/-- A function that is optimized is at rest. -/
theorem rested_optimize (h : a.Separate funcs) (g : FuncId) : (a.optimize g).2.Rested g where
  quiet := fold_quiets ((lasting_separate []).installAll (h.sublist (List.nil_sublist _)) g) g
  filed := (filed_install h g).fold g

/-- A function at rest stays so when a later one is optimized. -/
theorem Rested.optimize (hf : a.Rested f) (h : a.Separate [f, g]) : (a.optimize g).2.Rested f where
  quiet := (hf.quiet.install h g).fold ((lasting_separate [f, g]).installAll h g)
  filed := (hf.filed.install h g).fold g

theorem rested_optimizeAll {done : List FuncId} (h : a.Separate (done ++ funcs))
    (hdone : ∀ f ∈ done, a.Rested f) : ∀ f ∈ done ++ funcs, (a.optimizeAll funcs).2.Rested f := by
  induction funcs generalizing done a with
  | nil =>
    rw [List.append_nil]
    exact hdone
  | cons g rest ih =>
    have hnext : (a.optimize g).2.Separate ((done ++ [g]) ++ rest) := by
      rw [List.append_assoc]
      exact (lasting_separate _).optimize h g
    have hrested : ∀ f ∈ done ++ [g], (a.optimize g).2.Rested f := by
      intro f hf
      rcases List.mem_append.1 hf with hf | hf
      · refine (hdone f hf).optimize (h.sublist (l := [f] ++ [g]) ?_)
        exact (List.singleton_sublist.2 hf).append (List.singleton_sublist.2 List.mem_cons_self)
      · rw [List.mem_singleton.1 hf]
        exact rested_optimize h g
    intro f hf
    exact ih hnext hrested f (by rwa [List.append_assoc])

/-- Functions at rest are left as they are. -/
theorem optimizeAll_of_rested (h : a.Separate []) (hrested : ∀ f ∈ funcs, a.Rested f) :
    (∀ stats ∈ (a.optimizeAll funcs).1, stats.folded = 0) ∧ (a.optimizeAll funcs).2 = a := by
  induction funcs with
  | nil => exact ⟨fun _ hstats => (by cases hstats), rfl⟩
  | cons g rest ih =>
    obtain ⟨hg, hrest⟩ := List.forall_mem_cons.1 hrested
    have hfold : (a.install g).2.fold g = (0, a) := by
      rw [hg.filed.install_eq h]
      exact hg.quiet.fold_eq
    have harena : (a.optimize g).2 = a := congrArg Prod.snd hfold
    have hcount : (a.optimize g).1.folded = 0 := congrArg Prod.fst hfold
    obtain ⟨hstats, hlast⟩ := ih hrest
    change (∀ stats ∈ (a.optimize g).1 :: ((a.optimize g).2.optimizeAll rest).1, stats.folded = 0) ∧
      ((a.optimize g).2.optimizeAll rest).2 = a
    rw [harena]
    exact ⟨List.forall_mem_cons.2 ⟨hcount, hstats⟩, hlast⟩

/-- Once all functions were folded, none of their operations can be folded, and folding them again
changes nothing. -/
theorem optimizeAll_rests (h : a.Separate funcs) :
    let once := a.optimizeAll funcs
    let twice := once.2.optimizeAll funcs
    (∀ f ∈ funcs, ∀ op ∈ once.2.liveOps f, once.2.foldOp? op = none) ∧
      (∀ stats ∈ twice.1, stats.folded = 0) ∧ twice.2 = once.2 := by
  have hnone : ∀ f ∈ ([] : List FuncId), a.Rested f := fun _ hf => by cases hf
  have hrested := rested_optimizeAll h hnone
  refine ⟨fun f hf op hop => foldOp?_eq_none ((hrested f hf).quiet op hop), ?_⟩
  exact optimizeAll_of_rested
    ((lasting_separate []).optimizeAll (h.sublist (List.nil_sublist _)) funcs) hrested

end Arena

end QueryTaint
