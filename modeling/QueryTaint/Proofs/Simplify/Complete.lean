import Mathlib.Data.List.Permutation
import QueryTaint.Ir.Verify
import QueryTaint.Proofs.Arena.Shape
import QueryTaint.Proofs.Relabel.Simplify
import QueryTaint.Proofs.Simplify.Bypass

/-!
# Simplifying leaves nothing to simplify

Every φ operation that is removed leaves its block, so the worklist drains (`drains_removePhis`). A φ
operation of the function that is not on the worklist is not trivial: it can only become so when it
reads the result of one that is removed, and then it is put on the worklist (`Pending.remove`). Every
round of bypassing blocks but the last leaves fewer blocks live (`settles_coalesceFrom`), and the last
one finds no block to bypass. Bypassing changes no φ operation, so a simplified function stays as it
is when it is simplified again (`simplify_complete`).
-/

namespace QueryTaint

section Counting

variable {τ : Type} {p : τ → Bool} {xs ys : Array τ} {d : τ} (hsize : ys.size = xs.size)
  (hle : ∀ i < xs.size, p (ys.getD i d) = true → p (xs.getD i d) = true)

theorem mem_positions_iff (p : τ → Bool) (xs : Array τ) (d : τ) (i : Nat) :
    i ∈ positions p xs ↔ i < xs.size ∧ p (xs.getD i d) = true := by
  rw [mem_positions]
  rcases Nat.lt_or_ge i xs.size with hi | hi
  · simp [hi]
  · simp [Nat.not_lt.2 hi]

include hsize hle

theorem positions_subset : positions p ys ⊆ positions p xs := fun i hi => by
  obtain ⟨hlt, hp⟩ := (mem_positions_iff p ys d i).1 hi
  exact (mem_positions_iff p xs d i).2 ⟨hsize ▸ hlt, hle i (hsize ▸ hlt) hp⟩

/-- In no more entries of a table something holds, if it holds nowhere where it did not hold
before. -/
theorem countP_le_countP : ys.countP p ≤ xs.countP p := by
  rw [← card_positions, ← card_positions]
  exact Finset.card_le_card (positions_subset hsize hle)

/-- In fewer entries of a table something holds, if it holds nowhere where it did not hold before
and no longer somewhere. -/
theorem countP_lt_countP {i : Nat} (hi : i < xs.size) (hx : p (xs.getD i d) = true)
    (hy : p (ys.getD i d) = false) : ys.countP p < xs.countP p := by
  rw [← card_positions, ← card_positions]
  refine Finset.card_lt_card ((Finset.ssubset_iff_of_subset (positions_subset hsize hle)).2
    ⟨i, (mem_positions_iff p xs d i).2 ⟨hi, hx⟩, fun hin => ?_⟩)
  exact Bool.false_ne_true (hy.symm.trans ((mem_positions_iff p ys d i).1 hin).2)

end Counting

namespace Arena

variable {a a' : Arena} {func : FuncId}

/-! ## Trivial φ operations -/

/-- A φ operation merges two values at least, besides its own result. -/
def MergesTwo (a : Arena) (phi : OpId) : Prop :=
  ∀ vars result, (a.op phi).kind = .phi vars result →
    ∃ x ∈ vars, ∃ y ∈ vars, x ≠ y ∧ x ≠ result ∧ y ≠ result

theorem mem_merged {vars : List OperandId} {result id : OperandId} :
    id ∈ merged vars result ↔ id ∈ vars ∧ id ≠ result := by
  rw [merged, List.mem_eraseDups, List.mem_filter, decide_eq_true_eq]

theorem ne_of_eraseDups {l rest : List OperandId} {x y : OperandId}
    (h : l.eraseDups = x :: y :: rest) : x ≠ y := by
  cases l with
  | nil => cases h
  | cons z l =>
    rw [List.eraseDups_cons] at h
    obtain ⟨rfl, hrest⟩ := List.cons.inj h
    have hy : y ∈ (l.filter fun b => !b == z).eraseDups := hrest ▸ List.mem_cons_self
    have hne := (List.mem_filter.1 (List.mem_eraseDups.1 hy)).2
    exact fun heq => by simp [heq] at hne

theorem mergesTwo_of_trivialPhi? {phi : OpId} (h : a.trivialPhi? phi = none) : a.MergesTwo phi := by
  intro vars result hk
  rw [trivialPhi?, hk] at h
  dsimp only at h
  split at h
  · cases h
  · cases h
  · rename_i hnil hone
    obtain ⟨x, y, rest, hmerged⟩ : ∃ x y rest, merged vars result = x :: y :: rest := by
      cases hmerged : merged vars result with
      | nil => exact absurd hmerged hnil
      | cons x others =>
        cases others with
        | nil => exact absurd hmerged (hone x)
        | cons y rest => exact ⟨x, y, rest, rfl⟩
    have hx := mem_merged.1 (hmerged ▸ List.mem_cons_self : x ∈ merged vars result)
    have hy := mem_merged.1 (hmerged ▸ by simp : y ∈ merged vars result)
    exact ⟨x, hx.1, y, hy.1, ne_of_eraseDups hmerged, hx.2, hy.2⟩

theorem isPhi_iff {op : OpId} :
    a.isPhi op = true ↔ ∃ vars result, (a.op op).kind = .phi vars result := by
  unfold isPhi
  cases (a.op op).kind <;> simp

theorem trivialPhi?_eq_none {op : OpId} (h : ¬ a.isPhi op = true) : a.trivialPhi? op = none := by
  unfold trivialPhi?
  split
  · exact absurd (isPhi_iff.2 ⟨_, _, ‹_›⟩) h
  · rfl

theorem trivialPhi?_congr {phi : OpId} (h : (a'.op phi).kind = (a.op phi).kind) :
    a'.trivialPhi? phi = a.trivialPhi? phi := by
  rw [trivialPhi?, trivialPhi?, h]

/-! ## Replaced operands -/

/-- Some operations read other operands, and nothing else changes of operations, φ lists and
functions. -/
structure Rereads (a a' : Arena) (ops : List OpId) : Prop where
  funcs : a'.funcs = a.funcs
  phis (b : BlockId) : (a'.block b).phis = (a.block b).phis
  place (op : OpId) : (a'.op op).block = (a.op op).block
  isPhi (op : OpId) : a'.isPhi op = a.isPhi op
  kind {op : OpId} : op ∉ ops → (a'.op op).kind = (a.op op).kind

namespace Rereads

variable {ops : List OpId}

theorem refl (a : Arena) (ops : List OpId) : Rereads a a ops :=
  ⟨rfl, fun _ => rfl, fun _ => rfl, fun _ => rfl, fun _ => rfl⟩

theorem trans {a'' : Arena} (h : Rereads a a' ops) (h' : Rereads a' a'' ops) : Rereads a a'' ops :=
  ⟨h'.funcs.trans h.funcs, fun b => (h'.phis b).trans (h.phis b),
    fun op => (h'.place op).trans (h.place op), fun op => (h'.isPhi op).trans (h.isPhi op),
    fun hop => (h'.kind hop).trans (h.kind hop)⟩

theorem foldl {τ : Type} {f : Arena → τ → Arena} {l : List τ}
    (hf : ∀ a, ∀ x ∈ l, Rereads a (f a x) ops) (a : Arena) : Rereads a (l.foldl f a) ops := by
  induction l generalizing a with
  | nil => exact refl a ops
  | cons x l ih =>
    exact (hf a x List.mem_cons_self).trans (ih (fun a y hy => hf a y (List.mem_cons_of_mem _ hy)) _)

theorem replaceInOp (a : Arena) {op : OpId} (hop : op ∈ ops) (old new : OperandId) :
    Rereads a (a.replaceInOp op old new) ops := by
  obtain ⟨hblocks, hfuncs⟩ := blocks_replaceInOp a op old new
  refine ⟨hfuncs, fun b => by rw [block, block, hblocks], fun o => ?_, fun o => ?_, fun {o} ho => ?_⟩
  · rcases op_replaceInOp_or a op o old new with heq | ⟨-, heq⟩ <;> rw [heq]
  · rcases op_replaceInOp_or a op o old new with heq | ⟨-, heq⟩
    · rw [Arena.isPhi, Arena.isPhi, heq]
    · rw [Arena.isPhi, Arena.isPhi, heq]
      cases (a.op o).kind <;> rfl
  · rcases op_replaceInOp_or a op o old new with heq | ⟨rfl, -⟩
    · rw [heq]
    · exact absurd hop ho

theorem replaceUses (a : Arena) (old new : OperandId) :
    Rereads a (a.replaceUses old new) (a.operand old).usages := by
  unfold Arena.replaceUses
  split
  · exact refl a _
  · refine (foldl (fun a op hop => replaceInOp a hop old new) a).trans ?_
    dsimp only
    generalize (a.operand old).usages.foldl (fun a op => a.replaceInOp op old new) a = read
    have hcleared : Rereads read (read.modifyOperand old fun o => { o with condUsages := [] })
      (a.operand old).usages := ⟨rfl, fun _ => rfl, fun _ => rfl, fun _ => rfl, fun _ => rfl⟩
    refine hcleared.trans (foldl (fun a b _ => ?_) _)
    exact ⟨rfl, fun c => block_modifyBlock_keep a Block.phis b c fun _ => rfl, fun _ => rfl,
      fun _ => rfl, fun _ => rfl⟩

end Rereads

/-! ## The worklist -/

/-- An operand loses the removed operation at most from its readers. -/
theorem usages_removeOp (a : Arena) {op other : OpId} {id : OperandId}
    (h : other ∈ ((a.removeOp op).operand id).usages) : other ∈ (a.operand id).usages := by
  rw [operand_removeOp] at h
  split at h
  · exact (Operand.mem_usages_forget.1 h).1
  · exact h

/-- What removing a φ operation does to blocks and operations. -/
theorem removePhi_effect {phi : OpId} {home : BlockId} (value : Option OperandId)
    (result : OperandId) (hhome : (a.op phi).block = some home) :
    (a.removePhi phi value result).funcs = a.funcs ∧
      (∀ b, ∀ op ∈ ((a.removePhi phi value result).block b).phis,
        op ∈ (a.block b).phis ∧ (home = b → op ≠ phi)) ∧
      (∀ op, ((a.removePhi phi value result).op op).block =
        if op = phi then none else (a.op op).block) ∧
      ∀ op, (a.removePhi phi value result).trivialPhi? op = a.trivialPhi? op ∨
        a.isPhi op = true ∧ op ∈ (a.operand result).usages := by
  obtain ⟨⟨-, -, hsize, hfuncs⟩, hop, hblock⟩ := removeOp_effect (op_lt_of_block hhome) hhome
  have hread : Rereads (a.removeOp phi) (a.removePhi phi value result)
      ((a.removeOp phi).operand result).usages := by
    cases value with
    | none => exact .refl _ _
    | some value => exact .replaceUses _ result value
  refine ⟨hread.funcs.trans hfuncs, fun b op hmem => ?_, fun op => ?_, fun op => ?_⟩
  · rw [hread.phis, hblock] at hmem
    split at hmem
    · obtain ⟨hmem, hne⟩ := List.mem_filter.1 hmem
      exact ⟨hmem, fun _ => of_decide_eq_true hne⟩
    · rename_i hnot
      refine ⟨hmem, fun heq => absurd ⟨heq, Nat.lt_of_not_le fun hle => ?_⟩ hnot⟩
      rw [block_of_le a hle] at hmem
      cases hmem
  · rw [hread.place, (hop op).2]
  · have hremoved : (a.removeOp phi).trivialPhi? op = a.trivialPhi? op :=
      trivialPhi?_congr (hop op).1
    have hisPhi : (a.removePhi phi value result).isPhi op = a.isPhi op := by
      rw [hread.isPhi, Arena.isPhi, Arena.isPhi, (hop op).1]
    by_cases hphi : a.isPhi op = true
    · by_cases hmem : op ∈ ((a.removeOp phi).operand result).usages
      · exact .inr ⟨hphi, usages_removeOp a hmem⟩
      · exact .inl ((trivialPhi?_congr (hread.kind hmem)).trans hremoved)
    · rw [trivialPhi?_eq_none hphi, trivialPhi?_eq_none (hisPhi ▸ hphi)]
      exact .inl rfl

/-- A φ operation that is removed leaves its block. -/
theorem placedOps_removePhi {phi : OpId} {home : BlockId} {value : Option OperandId}
    {result : OperandId} (hhome : (a.op phi).block = some home) :
    (a.removePhi phi value result).placedOps < a.placedOps := by
  obtain ⟨-, -, hplace, -⟩ := removePhi_effect value result hhome
  have hsize : (a.removePhi phi value result).ops.size = a.ops.size :=
    congrArg Extent.ops (extent_removePhi ..)
  refine countP_lt_countP (d := default) hsize (fun i _ h => ?_) (op_lt_of_block hhome) ?_ ?_
  · have hi : (((a.removePhi phi value result).op ⟨i⟩).block).isSome = true := h
    rw [hplace] at hi
    split at hi
    · cases hi
    · exact hi
  · exact Option.isSome_iff_exists.2 ⟨home, hhome⟩
  · show ((a.removePhi phi value result).op phi).block.isSome = false
    rw [hplace, if_pos rfl]
    rfl

/-- The φ operations that read the result of a removed one and still stand in blocks join the
worklist. -/
def requeue (a : Arena) (phi : OpId) (value : Option OperandId) (result : OperandId)
    (rest : List OpId) : List OpId :=
  ((a.phiUsers phi result).filter fun u =>
    ((a.removePhi phi value result).op u).block.isSome).foldl addNew rest

/-- The worklist drains: the φ operations on it are looked at one after the other, so many of them
are removed, and this is the arena in the end. -/
inductive Drains : Arena → List OpId → Nat → Arena → Prop
  | done (a : Arena) : Drains a [] 0 a
  | skip {a last : Arena} {phi : OpId} {rest : List OpId} {n : Nat} :
    (a.op phi).block = none ∨ a.trivialPhi? phi = none →
    Drains a rest n last → Drains a (phi :: rest) n last
  | remove {a last : Arena} {phi : OpId} {rest : List OpId} {n : Nat} {home : BlockId}
    {value : Option OperandId} {result : OperandId} :
    (a.op phi).block = some home → a.trivialPhi? phi = some (value, result) →
    Drains (a.removePhi phi value result) (a.requeue phi value result rest) n last →
    Drains a (phi :: rest) (n + 1) last

/-- Removing φ operations goes on until the worklist is empty. -/
theorem drains_removePhis (a : Arena) (count : Nat) (worklist : List OpId) :
    ∃ n, (a.removePhis count worklist).1 = count + n ∧
      Drains a worklist n (a.removePhis count worklist).2 := by
  fun_induction removePhis a count worklist with
  | case1 a count => exact ⟨0, rfl, .done a⟩
  | case2 a count phi rest home value result htrivial hhome users next waiting _ ih =>
    obtain ⟨n, hcount, hdrains⟩ := ih
    exact ⟨n + 1, by omega, .remove hhome htrivial hdrains⟩
  | case3 a count phi rest home value result htrivial hhome next hguard =>
    exact absurd (placedOps_removePhi hhome) hguard
  | case4 a count phi rest hother ih =>
    obtain ⟨n, hcount, hdrains⟩ := ih
    refine ⟨n, hcount, .skip ?_ hdrains⟩
    cases hhome : (a.op phi).block with
    | none => exact .inl rfl
    | some home =>
      cases htrivial : a.trivialPhi? phi with
      | none => exact .inr rfl
      | some found => exact (hother home found.1 found.2 hhome htrivial).elim

/-- The φ operations of a function stand in the blocks that list them, and those that are not on the
worklist are not trivial. -/
def Pending (a : Arena) (func : FuncId) (worklist : List OpId) : Prop :=
  ∀ b ∈ (a.func func).blocks, ∀ phi ∈ (a.block b).phis,
    (a.op phi).block = some b ∧ (phi ∈ worklist ∨ a.trivialPhi? phi = none)

theorem mem_foldl_addNew {τ : Type} [DecidableEq τ] {l new : List τ} {x : τ} :
    x ∈ new.foldl addNew l ↔ x ∈ l ∨ x ∈ new := by
  induction new generalizing l with
  | nil => simp
  | cons y new ih => rw [List.foldl_cons, ih, mem_addNew, List.mem_cons, or_assoc]

theorem Pending.skip {phi : OpId} {rest : List OpId} (h : a.Pending func (phi :: rest))
    (hskip : (a.op phi).block = none ∨ a.trivialPhi? phi = none) : a.Pending func rest := by
  intro b hb op hop
  obtain ⟨hplace, hwaits⟩ := h b hb op hop
  refine ⟨hplace, ?_⟩
  rcases hwaits with hmem | hnone
  · rcases List.mem_cons.1 hmem with rfl | hmem
    · rcases hskip with hnone | hnone
      · exact nomatch hnone.symm.trans hplace
      · exact .inr hnone
    · exact .inl hmem
  · exact .inr hnone

/-- A φ operation can become trivial only if it reads the result of the removed one. -/
theorem Pending.remove {phi : OpId} {rest : List OpId} {home : BlockId}
    {value : Option OperandId} {result : OperandId} (h : a.Pending func (phi :: rest))
    (hhome : (a.op phi).block = some home) :
    (a.removePhi phi value result).Pending func (a.requeue phi value result rest) := by
  obtain ⟨hfuncs, hphis, hplace, htrivial⟩ := removePhi_effect value result hhome
  intro b hb op hop
  rw [Arena.func, hfuncs] at hb
  obtain ⟨hop, hother⟩ := hphis b op hop
  obtain ⟨hblock, hwaits⟩ := h b hb op hop
  have hne : op ≠ phi := by
    rintro rfl
    exact hother (Option.some.inj (hhome.symm.trans hblock)) rfl
  have hkept : ((a.removePhi phi value result).op op).block = some b := by
    rw [hplace, if_neg hne, hblock]
  refine ⟨hkept, ?_⟩
  rw [requeue, mem_foldl_addNew]
  rcases hwaits with hmem | hnone
  · exact .inl (.inl ((List.mem_cons.1 hmem).resolve_left hne))
  · rcases htrivial op with hsame | ⟨hphi, hreads⟩
    · exact .inr (hsame.trans hnone)
    · refine .inl (.inr (List.mem_filter.2 ⟨List.mem_filter.2 ⟨hreads, ?_⟩, ?_⟩))
      · simp [hne, hphi]
      · rw [hkept]
        rfl

theorem Drains.funcs {worklist : List OpId} {n : Nat} (h : Drains a worklist n a') :
    a'.funcs = a.funcs := by
  induction h with
  | done a => rfl
  | skip _ _ ih => exact ih
  | remove hhome _ _ ih => exact ih.trans (removePhi_effect _ _ hhome).1

/-- When the worklist is empty, no φ operation of the function is trivial. -/
theorem Drains.pending {worklist : List OpId} {n : Nat} (hdrains : Drains a worklist n a')
    (h : a.Pending func worklist) : a'.Pending func [] := by
  induction hdrains with
  | done a => exact h
  | skip hskip _ ih => exact ih (h.skip hskip)
  | remove hhome _ _ ih => exact ih (h.remove hhome)

/-- Where no φ operation on the worklist is trivial, none is removed. -/
theorem removePhis_of_forall (count : Nat) {worklist : List OpId}
    (h : ∀ phi ∈ worklist, a.trivialPhi? phi = none) : a.removePhis count worklist = (count, a) := by
  induction worklist with
  | nil => rw [removePhis]
  | cons phi rest ih =>
    rw [removePhis, h phi List.mem_cons_self]
    have hrest := ih fun other hother => h other (List.mem_cons_of_mem _ hother)
    cases (a.op phi).block <;> exact hrest

/-! ## Bypassed blocks -/

/-- Blocks were bypassed: φ lists lose at most operations, φ operations stay as they are, and dead
blocks stay dead. -/
structure Thins (a a' : Arena) : Prop where
  funcs : a'.funcs = a.funcs
  size : a'.blocks.size = a.blocks.size
  phis (b : BlockId) : ∀ phi ∈ (a'.block b).phis, phi ∈ (a.block b).phis
  kind {op : OpId} {vars : List OperandId} {result : OperandId} :
    (a'.op op).kind = .phi vars result ↔ (a.op op).kind = .phi vars result
  dead {b : BlockId} : (a.block b).dead = true → (a'.block b).dead = true

namespace Thins

theorem refl (a : Arena) : Thins a a := ⟨rfl, rfl, fun _ _ => id, Iff.rfl, id⟩

theorem trans {a'' : Arena} (h : Thins a a') (h' : Thins a' a'') : Thins a a'' :=
  ⟨h'.funcs.trans h.funcs, h'.size.trans h.size, fun b phi hphi => h.phis b phi (h'.phis b phi hphi),
    h'.kind.trans h.kind, fun hb => h'.dead (h.dead hb)⟩

theorem modifyBlock (a : Arena) (b : BlockId) {f : Block → Block}
    (hphis : ∀ b, ∀ phi ∈ (f b).phis, phi ∈ b.phis) (hdead : ∀ b, b.dead = true → (f b).dead = true) :
    Thins a (a.modifyBlock b f) := by
  refine ⟨rfl, size_blocks_modifyBlock .., fun c => ?_, Iff.rfl, fun {c} hc => ?_⟩
  · rw [block_modifyBlock]
    split
    · exact hphis _
    · exact fun _ => id
  · rw [block_modifyBlock]
    split
    · exact hdead _ hc
    · exact hc

theorem modifyOp (a : Arena) (op : OpId) {f : Op → Op}
    (hkind : ∀ o vars result, (f o).kind = .phi vars result ↔ o.kind = .phi vars result) :
    Thins a (a.modifyOp op f) := by
  refine ⟨rfl, rfl, fun _ _ => id, fun {o vars result} => ?_, id⟩
  rw [op_modifyOp]
  split
  · exact hkind _ vars result
  · rfl

theorem of_eq (hfuncs : a'.funcs = a.funcs) (hblocks : a'.blocks = a.blocks)
    (hops : a'.ops = a.ops) : Thins a a' := by
  have hblock (b : BlockId) : a'.block b = a.block b := by rw [block, block, hblocks]
  refine ⟨hfuncs, congrArg Array.size hblocks, fun b => ?_, fun {o _ _} => ?_, fun {b} => ?_⟩
  · rw [hblock]
    exact fun _ => id
  · rw [op, op, hops]
  · rw [hblock]
    exact id

theorem removeOp (a : Arena) (op : OpId) : Thins a (a.removeOp op) := by
  have hforget (b : Arena) : Thins b ((b.op op).kind.slots.foldl
      (fun a e => a.modifyOperand e.2 fun o => (o.removeUsage op).removeDef op) b) := by
    obtain ⟨hops, hblocks, -⟩ := foldl_forget op (b.op op).kind.slots b
    exact of_eq (foldl_forget_sizes op _ b).2 hblocks hops
  unfold Arena.removeOp
  dsimp only
  split
  · rename_i home _
    have hlists := modifyBlock a home
      (f := fun b => { b with ops := b.ops.filter (· ≠ op), phis := b.phis.filter (· ≠ op) })
      (fun _ _ hphi => (List.mem_filter.1 hphi).1) fun _ => id
    have hplace := modifyOp (a.modifyBlock home fun b =>
      { b with ops := b.ops.filter (· ≠ op), phis := b.phis.filter (· ≠ op) }) op
        (f := fun o => { o with block := none }) fun _ _ _ => Iff.rfl
    exact (hlists.trans hplace).trans (hforget _)
  · exact hforget a

theorem bypass (a : Arena) (block target pred : BlockId) (last : OpId) :
    Thins a (a.bypass block target pred last) := by
  have hturn : Thins a ((a.modifyOp last fun o => { o with
      kind := o.kind.mapBlocks (swap block target) }).modifyBlock target fun b =>
        { b with preds := b.preds.map (swap block pred) }) :=
    (modifyOp a last fun _ _ _ => OpKind.mapBlocks_eq_phi).trans
      (modifyBlock _ target (fun _ _ => id) fun _ => id)
  unfold Arena.bypass
  dsimp only
  refine (hturn.trans ?_).trans (modifyBlock _ block (fun _ _ => id) fun _ _ => rfl)
  split
  · exact removeOp _ _
  · exact refl _

theorem trivialPhi?_eq (h : Thins a a') (op : OpId) : a'.trivialPhi? op = a.trivialPhi? op := by
  by_cases hphi : a.isPhi op = true
  · obtain ⟨vars, result, hk⟩ := isPhi_iff.1 hphi
    rw [trivialPhi?, trivialPhi?, hk, h.kind.2 hk]
  · have hphi' : ¬ a'.isPhi op = true := by simpa only [isPhi_iff, h.kind] using hphi
    rw [trivialPhi?_eq_none hphi, trivialPhi?_eq_none hphi']

end Thins

section Bypassing

variable {s : JumpState} {block target pred : BlockId} {jump last : OpId}

/-- A block that only jumps can be bypassed. -/
def Bypassable (a : Arena) (block : BlockId) : Prop :=
  ∃ target pred jump last, a.Skippable block target pred jump last

/-- A bypassed block is dead. -/
theorem liveBlocks_bypass (h : a.Skippable block target pred jump last) :
    (a.bypass block target pred last).liveBlocks < a.liveBlocks := by
  have hthins := Thins.bypass a block target pred last
  have hlt : block.index < a.blocks.size := Nat.lt_of_not_le fun hle => by
    have hops := h.ops
    rw [block_of_le a hle] at hops
    cases hops
  have hdead : ((a.bypass block target pred last).block block).dead = true := by
    rw [bypass_eq a block target pred last jump h.ops, block_modifyBlock_of_lt, if_pos rfl]
    have hsize := (Thins.removeOp ((a.modifyOp last fun o => { o with
      kind := o.kind.mapBlocks (swap block target) }).modifyBlock target fun b =>
        { b with preds := b.preds.map (swap block pred) }) jump).size
    simpa [hsize] using hlt
  refine countP_lt_countP (d := default) hthins.size (fun i _ hi => ?_) hlt ?_ ?_
  · have hlive : (!((a.bypass block target pred last).block ⟨i⟩).dead) = true := hi
    show (!(a.block ⟨i⟩).dead) = true
    cases hbefore : (a.block ⟨i⟩).dead with
    | false => rfl
    | true => rwa [hthins.dead hbefore] at hlive
  · show (!(a.block block).dead) = true
    rw [h.live]
    rfl
  · show (!((a.bypass block target pred last).block block).dead) = false
    rw [hdead]
    rfl

/-- A block is left alone just if it cannot be bypassed. -/
theorem tryBypass_cases (s : JumpState) (a : Arena) (block : BlockId) :
    (¬ a.Bypassable block ∧ (tryBypass s a block).1.coalesced = s.coalesced ∧
      (tryBypass s a block).2 = a) ∨
    a.Bypassable block ∧ (tryBypass s a block).1.coalesced = s.coalesced + 1 ∧
      (tryBypass s a block).2.liveBlocks < a.liveBlocks ∧ Thins a (tryBypass s a block).2 := by
  unfold tryBypass
  cases hjump : a.jumpOnly? block with
  | none =>
    refine .inl ⟨?_, rfl, rfl⟩
    rintro ⟨target, pred, jump, last, h⟩
    simp [jumpOnly?, h.live, h.phis, h.ops, h.kind] at hjump
  | some target =>
    obtain ⟨hlive, hphis, jump, hops, hk⟩ := jumpOnly?_eq_some hjump
    have htarget {t pred : BlockId} {j last : OpId} (h : a.Skippable block t pred j last) :
        t = target := by
      obtain rfl := (List.cons.inj (h.ops.symm.trans hops)).1
      exact OpKind.jump.inj (h.kind.symm.trans hk)
    dsimp only
    split
    · rename_i heq
      refine .inl ⟨?_, rfl, rfl⟩
      rintro ⟨t, pred, j, last, h⟩
      exact h.target_ne ((htarget h).trans heq)
    · rename_i hne
      cases hpred : a.bypassable? block target with
      | none =>
        refine .inl ⟨?_, rfl, rfl⟩
        rintro ⟨t, pred, j, last, h⟩
        obtain rfl := htarget h
        simp [bypassable?, h.livePreds, h.pred_ne, h.pred_not_mem, h.terminator, h.leads] at hpred
      | some found =>
        obtain ⟨pred, last⟩ := found
        obtain ⟨hpreds, hpb, hnot, ht, hleads⟩ := bypassable?_eq_some hpred
        have hskip : a.Skippable block target pred jump last :=
          ⟨hlive, hphis, hops, hk, hne, hpreds, hpb, hnot, ht, hleads⟩
        exact .inr ⟨⟨target, pred, jump, last, hskip⟩, rfl, liveBlocks_bypass hskip, .bypass ..⟩

/-- A round leaves all blocks alone just if it can bypass none of them. -/
theorem bypassRound_cases (s : JumpState) (a : Arena) (blocks : List BlockId) :
    ((∀ b ∈ blocks, ¬ a.Bypassable b) ∧ (bypassRound (s, a) blocks).1.coalesced = s.coalesced ∧
      (bypassRound (s, a) blocks).2 = a) ∨
    (∃ b ∈ blocks, a.Bypassable b) ∧ s.coalesced < (bypassRound (s, a) blocks).1.coalesced ∧
      (bypassRound (s, a) blocks).2.liveBlocks < a.liveBlocks ∧
      Thins a (bypassRound (s, a) blocks).2 := by
  induction blocks generalizing s a with
  | nil => exact .inl ⟨nofun, rfl, rfl⟩
  | cons b blocks ih =>
    have hround : bypassRound (s, a) (b :: blocks) =
        bypassRound ((tryBypass s a b).1, (tryBypass s a b).2) blocks := rfl
    rw [hround]
    rcases tryBypass_cases s a b with ⟨hnot, hcount, hsame⟩ | ⟨hb, hcount, hlive, hthins⟩
    · rw [hsame]
      rcases ih (tryBypass s a b).1 a with
        ⟨hnone, hcount', hsame'⟩ | ⟨⟨c, hc, hmore⟩, hcount', hlive', hthins'⟩
      · exact .inl ⟨List.forall_mem_cons.2 ⟨hnot, hnone⟩, hcount'.trans hcount, hsame'⟩
      · exact .inr ⟨⟨c, List.mem_cons_of_mem _ hc, hmore⟩, by omega, hlive', hthins'⟩
    · refine .inr ⟨⟨b, List.mem_cons_self, hb⟩, ?_⟩
      rcases ih (tryBypass s a b).1 (tryBypass s a b).2 with
        ⟨-, hcount', hsame'⟩ | ⟨-, hcount', hlive', hthins'⟩
      · rw [hsame']
        exact ⟨by omega, hlive, hthins⟩
      · exact ⟨by omega, by omega, hthins.trans hthins'⟩

/-- Rounds of bypassing blocks settle: all but the last one bypass some block, and this is what they
leave. -/
inductive Settles (func : FuncId) : JumpState → Arena → JumpState → Arena → Prop
  | last {s : JumpState} {a : Arena} :
    (bypassRound (s, a) (a.inner func)).1.coalesced = s.coalesced →
    Settles func s a (bypassRound (s, a) (a.inner func)).1 (bypassRound (s, a) (a.inner func)).2
  | again {s final : JumpState} {a left : Arena} :
    (bypassRound (s, a) (a.inner func)).1.coalesced ≠ s.coalesced →
    Settles func (bypassRound (s, a) (a.inner func)).1 (bypassRound (s, a) (a.inner func)).2
      final left →
    Settles func s a final left

/-- Bypassing blocks goes on until a round bypasses none. -/
theorem settles_coalesceFrom (func : FuncId) (s : JumpState) (a : Arena) :
    Settles func s a (coalesceFrom func s a).1 (coalesceFrom func s a).2 := by
  induction hn : a.liveBlocks using Nat.strong_induction_on generalizing s a with
  | _ n ih =>
    rw [coalesceFrom_eq]
    dsimp only
    split
    · rename_i hsame
      exact .last hsame
    · rename_i hmore
      rcases bypassRound_cases s a (a.inner func) with ⟨-, hcount, -⟩ | ⟨-, -, hlive, -⟩
      · exact absurd hcount hmore
      · rw [if_pos hlive]
        exact .again hmore (ih _ (hn ▸ hlive) _ _ rfl)

theorem Thins.inner (h : Thins a a') (func : FuncId) : a'.inner func = a.inner func := by
  rw [Arena.inner, Arena.inner, Arena.func, Arena.func, h.funcs]

/-- When the rounds have settled, no block can be bypassed. -/
theorem Settles.rests {s final : JumpState} (h : Settles func s a final a') :
    Thins a a' ∧ ∀ b ∈ a.inner func, ¬ a'.Bypassable b := by
  induction h with
  | @last s a hsame =>
    rcases bypassRound_cases s a (a.inner func) with ⟨hnone, -, heq⟩ | ⟨-, hcount, -⟩
    · rw [heq]
      exact ⟨.refl a, hnone⟩
    · omega
  | @again s final a left hmore _ ih =>
    obtain ⟨hthins, hnone⟩ := ih
    rcases bypassRound_cases s a (a.inner func) with ⟨-, hcount, -⟩ | ⟨-, -, -, hround⟩
    · exact absurd hcount hmore
    · exact ⟨hround.trans hthins, hround.inner func ▸ hnone⟩

/-- Where no block can be bypassed, none is. -/
theorem coalesceFrom_of_forall (s : JumpState) (h : ∀ b ∈ a.inner func, ¬ a.Bypassable b) :
    (coalesceFrom func s a).1.coalesced = s.coalesced ∧ (coalesceFrom func s a).2 = a := by
  have hround : (bypassRound (s, a) (a.inner func)).1.coalesced = s.coalesced ∧
      (bypassRound (s, a) (a.inner func)).2 = a := by
    rcases bypassRound_cases s a (a.inner func) with ⟨-, hsame⟩ | ⟨⟨b, hb, hmore⟩, -⟩
    · exact hsame
    · exact absurd hmore (h b hb)
  rw [coalesceFrom_eq]
  dsimp only
  rw [if_pos hround.1]
  exact hround

end Bypassing

/-! ## Simplified functions -/

theorem func_congr (h : a'.funcs = a.funcs) (func : FuncId) : a'.func func = a.func func := by
  rw [Arena.func, Arena.func, h]

/-- The φ operations of a function stand where they are listed. -/
def PhisPlaced (a : Arena) (func : FuncId) : Prop :=
  ∀ b ∈ (a.func func).blocks, ∀ phi ∈ (a.block b).phis, (a.op phi).block = some b

/-- No φ operation of the function is trivial. -/
def NoTrivialPhi (a : Arena) (func : FuncId) : Prop :=
  ∀ b ∈ (a.func func).blocks, ∀ phi ∈ (a.block b).phis, a.trivialPhi? phi = none

theorem NoTrivialPhi.thins (h : a.NoTrivialPhi func) (hthins : Thins a a') :
    a'.NoTrivialPhi func := by
  intro b hb phi hphi
  rw [func_congr hthins.funcs] at hb
  exact (hthins.trivialPhi?_eq phi).trans (h b hb phi (hthins.phis b phi hphi))

/-- The worklist starts with all φ operations of the function, and none is trivial when it is
empty. -/
theorem eliminatePhis_complete (h : a.PhisPlaced func) :
    Drains a (a.phisOf func) (a.eliminatePhis func).1.removed (a.eliminatePhis func).2 ∧
      (a.eliminatePhis func).2.funcs = a.funcs ∧ (a.eliminatePhis func).2.NoTrivialPhi func := by
  obtain ⟨removed, hcount, hdrains⟩ := drains_removePhis a 0 (a.phisOf func)
  have hremoved : (a.eliminatePhis func).1.removed = removed := hcount.trans (Nat.zero_add _)
  have hstart : a.Pending func (a.phisOf func) := fun b hb phi hphi =>
    ⟨h b hb phi hphi, .inl (List.mem_flatMap.2 ⟨b, hb, hphi⟩)⟩
  refine ⟨hremoved ▸ hdrains, hdrains.funcs, fun b hb phi hphi => ?_⟩
  exact (hdrains.pending hstart b hb phi hphi).2.resolve_left (List.not_mem_nil)

/-- A function in which no φ operation is trivial and no block can be bypassed stays as it is. -/
theorem simplify_of_simple (hphis : a.NoTrivialPhi func)
    (hblocks : ∀ b ∈ a.inner func, ¬ a.Bypassable b) :
    (a.simplify func).1.phis = 0 ∧ (a.simplify func).1.coalesced = 0 ∧ (a.simplify func).2 = a := by
  have hremoved : a.removePhis 0 (a.phisOf func) = (0, a) := by
    refine removePhis_of_forall 0 fun phi hphi => ?_
    obtain ⟨b, hb, hphi⟩ := List.mem_flatMap.1 hphi
    exact hphis b hb phi hphi
  have hcoalesced := coalesceFrom_of_forall {} hblocks
  simp only [simplify, eliminatePhis, hremoved, coalesce]
  exact ⟨trivial, hcoalesced⟩

/-- Removing trivial φ operations and bypassing blocks both come to an end. If the φ operations of a
function stand where they are listed, none of them is trivial in the end; bypassing makes none
trivial, and leaves no block but the entry that could be bypassed. So simplifying again does
nothing. -/
theorem simplify_complete (a : Arena) (func : FuncId) (h : a.PhisPlaced func) :
    let pruned := (a.eliminatePhis func).2
    let bypassed := (a.coalesce func).2
    let once := (a.simplify func).2
    (Drains a (a.phisOf func) (a.eliminatePhis func).1.removed pruned ∧
      ∀ b ∈ (a.func func).blocks, ∀ phi ∈ (pruned.block b).phis, pruned.MergesTwo phi) ∧
    (Settles func {} a (a.coalesce func).1 bypassed ∧
      (∀ b, ∀ phi ∈ (bypassed.block b).phis,
        phi ∈ (a.block b).phis ∧ (a.MergesTwo phi → bypassed.MergesTwo phi)) ∧
      ∀ b ∈ (a.func func).blocks, b ≠ (a.func func).entry → ¬ bypassed.Bypassable b) ∧
    (∀ b ∈ (a.func func).blocks, (∀ phi ∈ (once.block b).phis, once.MergesTwo phi) ∧
      (b ≠ (a.func func).entry → ¬ once.Bypassable b)) ∧
    (once.simplify func).1.phis = 0 ∧ (once.simplify func).1.coalesced = 0 ∧
      (once.simplify func).2 = once := by
  intro pruned bypassed once
  obtain ⟨hdrains, hfuncs, hpruned⟩ := eliminatePhis_complete h
  have hsettles := settles_coalesceFrom func {} a
  obtain ⟨hthins, hrest⟩ := hsettles.rests
  obtain ⟨honce, hstill⟩ := (settles_coalesceFrom func {} pruned).rests
  have hinner {b : BlockId} (hb : b ∈ (a.func func).blocks) (hne : b ≠ (a.func func).entry) :
      b ∈ a.inner func := List.mem_filter.2 ⟨hb, decide_eq_true hne⟩
  have hpruned' : pruned.inner func = a.inner func := by
    rw [inner, inner, func_congr hfuncs]
  have honce' : once.NoTrivialPhi func := hpruned.thins honce
  have hblocks : once.func func = a.func func := func_congr (honce.funcs.trans hfuncs) func
  refine ⟨⟨hdrains, fun b hb phi hphi => ?_⟩, ⟨hsettles, fun b phi hphi => ⟨?_, fun hmerges => ?_⟩,
    fun b hb hne => hrest b (hinner hb hne)⟩, fun b hb => ⟨fun phi hphi => ?_, fun hne => ?_⟩, ?_⟩
  · exact mergesTwo_of_trivialPhi? (hpruned b ((func_congr hfuncs func).symm ▸ hb) phi hphi)
  · exact hthins.phis b phi hphi
  · exact fun vars result hk => hmerges vars result (hthins.kind.1 hk)
  · exact mergesTwo_of_trivialPhi? (honce' b (hblocks.symm ▸ hb) phi hphi)
  · exact hstill b (hpruned' ▸ hinner hb hne)
  · exact simplify_of_simple honce' ((honce.inner func).symm ▸ hstill)

/-! ## Instances -/

/-- Edits that build a function in which a φ operation becomes trivial when a later one is removed,
whose block then only jumps. -/
def cascadeEdits : List Edit :=
  [.func "f", .block (some ⟨0⟩), .block (some ⟨0⟩), .block (some ⟨0⟩),
    .operand (.string "c"), .operand (.string "x"), .operand (.temporary none),
    .operand (.temporary none),
    .op (.jumpIf ⟨0⟩ ⟨2⟩ ⟨1⟩) .none none, .append ⟨0⟩ ⟨0⟩, .link ⟨0⟩ ⟨2⟩, .link ⟨0⟩ ⟨1⟩,
    .op (.jump ⟨3⟩) .none none, .append ⟨2⟩ ⟨1⟩, .link ⟨2⟩ ⟨3⟩,
    .op (.jump ⟨1⟩) .none none, .append ⟨3⟩ ⟨2⟩, .link ⟨3⟩ ⟨1⟩,
    .op (.phi [⟨1⟩, ⟨2⟩] ⟨3⟩) .none none, .attachPhi ⟨1⟩ ⟨3⟩,
    .op (.phi [⟨1⟩] ⟨2⟩) .none none, .attachPhi ⟨2⟩ ⟨4⟩,
    .op (.echo ⟨3⟩) .none none, .append ⟨1⟩ ⟨5⟩, .op (.returns none) .none none, .append ⟨1⟩ ⟨6⟩]

/-- The function with a cascade. -/
def cascade : Arena := (Edit.applyAll {} cascadeEdits).arena

theorem simplify_complete_cascade : cascade.PhisPlaced ⟨0⟩ ∧
    (cascade.simplify ⟨0⟩).1 = ⟨2, 1, 0⟩ ∧
      ((cascade.simplify ⟨0⟩).2.simplify ⟨0⟩).2 = (cascade.simplify ⟨0⟩).2 := by
  have hplaced : cascade.PhisPlaced ⟨0⟩ := by unfold PhisPlaced; decide
  obtain ⟨-, -, -, -, -, hagain⟩ := simplify_complete cascade ⟨0⟩ hplaced
  exact ⟨hplaced, by cbv, hagain⟩

/-- Edits that build a function with a trivial φ operation that is attached to two blocks. -/
def attachedTwiceEdits : List Edit :=
  [.func "f", .block (some ⟨0⟩), .block (some ⟨0⟩),
    .operand (.string "c"), .operand (.string "x"), .operand (.temporary none),
    .op (.jumpIf ⟨0⟩ ⟨1⟩ ⟨2⟩) .none none, .append ⟨0⟩ ⟨0⟩, .link ⟨0⟩ ⟨1⟩, .link ⟨0⟩ ⟨2⟩,
    .op (.phi [⟨1⟩] ⟨2⟩) .none none, .attachPhi ⟨1⟩ ⟨1⟩, .attachPhi ⟨2⟩ ⟨1⟩,
    .op (.echo ⟨2⟩) .none none, .append ⟨1⟩ ⟨2⟩, .op (.returns none) .none none, .append ⟨1⟩ ⟨3⟩,
    .op (.returns none) .none none, .append ⟨2⟩ ⟨4⟩]

/-- The function with a φ operation in two blocks. -/
def attachedTwice : Arena := (Edit.applyAll {} attachedTwiceEdits).arena

/-- Exact lists are not enough: the φ operation is taken out of the block that it was attached to
last, and stays, trivial, in the other one. -/
theorem trivial_phi_of_attachedTwice : attachedTwice.DefUse [] ∧ attachedTwice.verify = .ok () ∧
    ¬ ∀ b ∈ (attachedTwice.func ⟨0⟩).blocks,
      ∀ phi ∈ ((attachedTwice.eliminatePhis ⟨0⟩).2.block b).phis,
        (attachedTwice.eliminatePhis ⟨0⟩).2.MergesTwo phi := by
  have hexact : (Edit.applyAll {} attachedTwiceEdits).Exact :=
    Edit.applyAll_defUse (d := {}) empty_defUse (by decide)
  refine ⟨hexact, by cbv, fun hall => ?_⟩
  have hphis : ((attachedTwice.eliminatePhis ⟨0⟩).2.block ⟨1⟩).phis = [⟨1⟩] := by cbv
  have hkept := hall ⟨1⟩ (by decide) ⟨1⟩ (hphis ▸ List.mem_singleton.2 rfl)
  obtain ⟨x, hx, y, hy, hne, -⟩ := hkept [⟨1⟩] ⟨2⟩ (by cbv)
  exact hne ((List.mem_singleton.1 hx).trans (List.mem_singleton.1 hy).symm)

end Arena

end QueryTaint
