import QueryTaint.Program
import QueryTaint.Proofs.Arena.Shape
import QueryTaint.Proofs.Simplify.Enduring

/-!
# Folding and simplifying keep the shape of control flow

Folding constants and removing trivial φ operations takes operations out of blocks and replaces
operands (`Shaped.thin`). Bypassing a block puts its predecessor in its place in the list of
predecessors of its target, so that the φ operations there keep an operand for each live predecessor
(`Skips.shaped`).
-/

namespace QueryTaint.Arena

variable {a a' : Arena}

/-! ## Operations that are taken out -/

/-- Operations were taken out of blocks, and operands were replaced. -/
theorem Shaped.thin (h : a.Shaped) (hsize : a'.blocks.size = a.blocks.size)
    (hops : ∀ block, (a'.block block).ops.Sublist (a.block block).ops)
    (hphis : ∀ block, ∀ phi ∈ (a'.block block).phis, phi ∈ (a.block block).phis)
    (hpreds : ∀ block, (a'.block block).preds = (a.block block).preds)
    (hdead : ∀ block, (a'.block block).dead = (a.block block).dead)
    (hkind : ∀ op, ∃ f, (a'.op op).kind = (a.op op).kind.mapOperands f)
    (hplaced : ∀ block, ∀ op ∈ a'.members block, (a'.op op).block = some block) : a'.Shaped := by
  refine ⟨h.toWired.thin (Nat.le_of_eq hsize.symm) hops hpreds (fun b _ => hdead b)
    (fun block op _ => ?_) hplaced, fun block phi hphi => ?_⟩
  · obtain ⟨f, hf⟩ := hkind op
    rw [hf]
    exact .mapOperands _ f
  · obtain ⟨vars, result, hk, hlength⟩ := h.merged block phi (hphis block phi hphi)
    obtain ⟨f, hf⟩ := hkind phi
    refine ⟨vars.map f, f result, by rw [hf, hk]; rfl, ?_⟩
    rw [List.length_map, h.livePreds_eq (hpreds block) fun b _ => hdead b]
    exact hlength

/-- Nothing changes but operands and guards. -/
theorem Shaped.congr (h : a.Shaped) (hsize : a'.blocks.size = a.blocks.size)
    (hblock : ∀ {β : Type} (get : Block → β), (∀ b guards, get { b with guards } = get b) →
      ∀ block, get (a'.block block) = get (a.block block)) (hops : a'.ops = a.ops) : a'.Shaped := by
  have hop (o : OpId) : a'.op o = a.op o := by rw [op, op, hops]
  refine h.thin hsize (fun block => ?_) (fun block phi hphi => ?_)
    (hblock Block.preds fun _ _ => rfl) (hblock Block.dead fun _ _ => rfl) (fun o => ⟨id, ?_⟩)
    fun block o ho => ?_
  · exact hblock Block.ops (fun _ _ => rfl) block ▸ List.Sublist.refl _
  · rw [hblock Block.phis fun _ _ => rfl] at hphi
    exact hphi
  · rw [hop, OpKind.mapOperands_of_fixed fun _ _ => rfl]
  · rw [members, hblock Block.ops fun _ _ => rfl, hblock Block.phis fun _ _ => rfl] at ho
    rw [hop]
    exact h.placed block o ho

theorem Shaped.modifyOperand (h : a.Shaped) (id : OperandId) (f : Operand → Operand) :
    (a.modifyOperand id f).Shaped :=
  h.congr rfl (fun _ _ _ => rfl) rfl

/-- An operation is changed that stays where it is. -/
theorem Shaped.modifyOp (h : a.Shaped) {op : OpId} {f : Op → Op} 
    (hplaced : ∀ block, op ∈ a.members block → (f (a.op op)).block = some block)
    (hkind : ∃ g, (f (a.op op)).kind = (a.op op).kind.mapOperands g) : (a.modifyOp op f).Shaped := by
  have hsame (o : OpId) : (a.op o).kind = (a.op o).kind.mapOperands id :=
    (OpKind.mapOperands_of_fixed fun _ _ => rfl).symm
  refine h.thin rfl (fun _ => List.Sublist.refl _) (fun _ _ => id) (fun _ => rfl) (fun _ => rfl)
    (fun o => ?_) fun block o ho => ?_
  · rw [op_modifyOp]
    split
    · rename_i hc
      rw [← hc.1]
      exact hkind
    · exact ⟨id, hsame o⟩
  · rw [op_modifyOp]
    split
    · rename_i hc
      rw [← hc.1] at ho ⊢
      exact hplaced block ho
    · exact h.placed block o ho

theorem Shaped.foldl {β : Type} {f : Arena → β → Arena} (h : a.Shaped)
    (hf : ∀ a x, a.Shaped → (f a x).Shaped) (l : List β) : (l.foldl f a).Shaped := by
  induction l generalizing a with
  | nil => exact h
  | cons x l ih => exact ih (hf a x h)

theorem Shaped.replaceInOp (h : a.Shaped) (op : OpId) (old new : OperandId) :
    (a.replaceInOp op old new).Shaped := by
  unfold Arena.replaceInOp
  split
  · exact h
  · exact ((h.modifyOp (fun block hop => h.placed block op hop) ⟨_, rfl⟩).modifyOperand _
      _).modifyOperand _ _

theorem Shaped.replaceUses (h : a.Shaped) (old new : OperandId) :
    (a.replaceUses old new).Shaped := by
  unfold Arena.replaceUses
  split
  · exact h
  · refine ((h.foldl (fun a op ha => ha.replaceInOp op old new) _).modifyOperand _ _).foldl ?_ _
    intro a block ha
    refine ha.congr (size_blocks_modifyBlock ..) (fun get hget b => ?_) rfl
    exact block_modifyBlock_keep a get block b fun b => hget b _

/-- Taking an operation out changes the lists of operations only. -/
theorem block_removeOp_keep {β : Type} (get : Block → β)
    (hget : ∀ b ops phis, get { b with ops, phis } = get b) (a : Arena) (op : OpId) (b : BlockId) :
    (a.removeOp op).blocks.size = a.blocks.size ∧
      get ((a.removeOp op).block b) = get (a.block b) := by
  unfold Arena.removeOp
  dsimp only
  split
  · rename_i home hhome
    generalize hnext : (a.modifyBlock home fun b => { b with
      ops := b.ops.filter (· ≠ op), phis := b.phis.filter (· ≠ op) }).modifyOp op
        (fun o => { o with block := none }) = next
    obtain ⟨-, hblocks, -⟩ := foldl_forget op (next.op op).kind.slots next
    rw [block, hblocks, ← hnext]
    refine ⟨by simp, ?_⟩
    exact block_modifyBlock_keep a get home b fun b => hget b _ _
  · obtain ⟨-, hblocks, -⟩ := foldl_forget op (a.op op).kind.slots a
    rw [block, hblocks]
    exact ⟨rfl, rfl⟩

theorem Shaped.removeOp (h : a.Shaped) (op : OpId) : (a.removeOp op).Shaped := by
  cases hhome : (a.op op).block with
  | none =>
    have heq : a.removeOp op = (a.op op).kind.slots.foldl (fun a e =>
        a.modifyOperand e.2 fun o => (o.removeUsage op).removeDef op) a := by
      rw [Arena.removeOp, hhome]
    obtain ⟨hops, hblocks, -⟩ := foldl_forget op (a.op op).kind.slots a
    rw [heq]
    refine h.congr (congrArg Array.size hblocks) (fun get _ b => ?_) hops
    rw [block, block, hblocks]
  | some home =>
    obtain ⟨⟨-, -, hsize, -⟩, hop, hblock⟩ := removeOp_effect (op_lt_of_block hhome) hhome
    -- what is left in a block was there, and it is not what was taken out
    have hmem {b : BlockId} {o : OpId} (ho : o ∈ (a.removeOp op).members b) :
        o ∈ a.members b ∧ o ≠ op := by
      rw [members, hblock] at ho
      split at ho
      · rcases List.mem_append.1 ho with ho | ho
        · obtain ⟨ho, hne⟩ := List.mem_filter.1 ho
          exact ⟨List.mem_append_left _ ho, of_decide_eq_true hne⟩
        · obtain ⟨ho, hne⟩ := List.mem_filter.1 ho
          exact ⟨List.mem_append_right _ ho, of_decide_eq_true hne⟩
      · rename_i hb
        refine ⟨ho, ?_⟩
        rintro rfl
        have hplace := h.placed b o ho
        rw [hhome] at hplace
        cases hplace
        exact hb ⟨rfl, (List.mem_append.1 ho).elim block_lt_of_phi block_lt_of_op⟩
    refine h.thin hsize (fun b => ?_) (fun b phi hphi => ?_)
      (fun b => (block_removeOp_keep Block.preds (fun _ _ _ => rfl) a op b).2)
      (fun b => (block_removeOp_keep Block.dead (fun _ _ _ => rfl) a op b).2)
      (fun o => ⟨id, ?_⟩) fun b o ho => ?_
    · rw [hblock]
      split
      · exact List.filter_sublist
      · exact List.Sublist.refl _
    · rw [hblock] at hphi
      split at hphi
      · exact (List.mem_filter.1 hphi).1
      · exact hphi
    · rw [(hop o).1, OpKind.mapOperands_of_fixed fun _ _ => rfl]
    · obtain ⟨hold, hne⟩ := hmem ho
      rw [(hop o).2, if_neg hne]
      exact h.placed b o hold

/-! ## Bypassing blocks -/

section Bypass

variable {block target pred : BlockId} {jump last : OpId}

theorem Skippable.mem_ops (s : a.Skippable block target pred jump last) :
    jump ∈ (a.block block).ops := by
  rw [s.ops]
  exact List.mem_cons_self

theorem Skippable.mem_preds (s : a.Skippable block target pred jump last) :
    pred ∈ (a.block block).preds := by
  have hmem : pred ∈ a.livePreds block := by
    rw [s.livePreds]
    exact List.mem_cons_self
  exact (List.mem_filter.1 hmem).1

/-- What becomes of the predecessors of a block that is bypassed. -/
theorem preds_bypass (s : a.Skippable block target pred jump last) :
    (a.bypass block target pred last).blocks.size = a.blocks.size ∧
      ∀ source ∈ ((a.bypass block target pred last).block block).preds,
        source ∈ (a.block block).preds ∧ source ≠ pred := by
  rw [bypass_eq a block target pred last jump s.ops]
  generalize hfirst : (a.modifyOp last fun o =>
    { o with kind := o.kind.mapBlocks (swap block target) }).modifyBlock target
      (fun b => { b with preds := b.preds.map (swap block pred) }) = first
  obtain ⟨hsize, hpreds⟩ := block_removeOp_keep Block.preds (fun _ _ _ => rfl) first jump block
  have hsame : (first.block block).preds = (a.block block).preds := by
    rw [← hfirst, block_modifyBlock, if_neg fun hc => s.target_ne hc.1, block_modifyOp]
  have hblocks : first.blocks.size = a.blocks.size := by simp [← hfirst]
  have hlt : block.index < (first.removeOp jump).blocks.size := by
    rw [hsize, hblocks]
    exact block_lt_of_op s.mem_ops
  refine ⟨by rw [size_blocks_modifyBlock, hsize, hblocks], fun source hsource => ?_⟩
  rw [block_modifyBlock_of_lt hlt, if_pos rfl] at hsource
  obtain ⟨hmem, hne⟩ := List.mem_filter.1 hsource
  rw [hpreds, hsame] at hmem
  exact ⟨hmem, of_decide_eq_true hne⟩

/-- An operation of a block that leads elsewhere is the last one of the block. -/
theorem Wired.eq_terminator (h : a.Wired) {source : BlockId} {op other : OpId}
    (hother : a.terminator? source = some other) (hop : op ∈ (a.block source).ops)
    (hterm : (a.op op).kind.isTerminator = true) : op = other := by
  have hends := h.ends source
  unfold terminator? at hother
  obtain ⟨hlast, -⟩ := Option.filter_eq_some_iff.1 hother
  obtain ⟨before, hsplit⟩ := List.getLast?_eq_some_iff.1 hlast
  rw [hsplit] at hop hends
  rcases List.mem_append.1 hop with hop | hop
  · have hgoes := (List.pairwise_append.1 hends).2.2 op hop other List.mem_cons_self
    rw [hterm] at hgoes
    cases hgoes
  · exact List.mem_singleton.1 hop

theorem Wired.eq_of_members (h : a.Wired) {b c : BlockId} {op : OpId} (hb : op ∈ a.members b)
    (hc : op ∈ a.members c) : b = c :=
  Option.some.inj ((h.placed b op hb).symm.trans (h.placed c op hc))

theorem isTerminator_of_successors {kind : OpKind} {target : BlockId}
    (h : target ∈ kind.successors) : kind.isTerminator = true := by
  cases kind <;> first | rfl | cases h

namespace Skips

theorem isTerminator_eq (w : a.Skips a' block target pred jump last) (op : OpId) :
    (a'.op op).kind.isTerminator = (a.op op).kind.isTerminator := by
  rw [w.kind]
  split
  · cases (a.op op).kind <;> rfl
  · rfl

variable (w : a.Skips a' block target pred jump last)
  (s : a.Skippable block target pred jump last) (h : a.Wired)

include s h

/-- Only the end of the predecessor leads to the block. -/
theorem leads {source : BlockId} (hlive : (a.block source).dead = false) {op : OpId}
    (hop : op ∈ (a.block source).ops) (hleads : block ∈ (a.op op).kind.successors) : op = last := by
  have hmem : source ∈ a.livePreds block :=
    List.mem_filter.2 ⟨(h.edges hlive op hop block hleads).2, by simp [hlive]⟩
  rw [s.livePreds] at hmem
  obtain rfl := List.mem_singleton.1 hmem
  exact h.eq_terminator s.terminator hop (isTerminator_of_successors hleads)

/-- Blocks other than the target do not know the block. -/
theorem notMem_preds {other : BlockId} (hne : other ≠ target) : block ∉ (a.block other).preds :=
  fun hmem => hne (h.jumps hmem jump s.mem_ops target s.kind).symm

include w

/-- Jumps lead where they led, but for the end of the predecessor. -/
theorem jumps_keep {source other next : BlockId} {op : OpId}
    (hsource : source ∈ (a.block other).preds) (hnot : ¬(other = block ∧ source = pred))
    (hop : op ∈ (a.block source).ops) (hkind : (a'.op op).kind = .jump next) : next = other := by
  rw [w.kind] at hkind
  split at hkind
  · rename_i heq
    subst heq
    obtain ⟨b, hb, -⟩ := OpKind.mapBlocks_eq_jump.1 hkind
    obtain rfl := h.eq_of_members (List.mem_append_right _ hop)
      (List.mem_append_right _ s.mem_ops_pred)
    have hblock := h.jumps s.mem_preds op hop b hb
    have hother := h.jumps hsource op hop b hb
    exact absurd ⟨hother.symm.trans hblock, rfl⟩ hnot
  · exact h.jumps hsource op hop next hkind

/-- A jump at the end of the predecessor leads to the target. -/
theorem jumps_pred {next : BlockId} {op : OpId} (hop : op ∈ (a.block pred).ops)
    (hkind : (a'.op op).kind = .jump next) : next = target := by
  have hterm : (a.op op).kind.isTerminator = true := by
    rw [← w.isTerminator_eq, hkind]
    rfl
  obtain rfl := h.eq_terminator s.terminator hop hterm
  rw [w.kind, if_pos rfl] at hkind
  obtain ⟨b, hb, rfl⟩ := OpKind.mapBlocks_eq_jump.1 hkind
  rw [h.jumps s.mem_preds op hop b hb]
  exact if_pos rfl

/-- Edges of live blocks that stay lead to live blocks that know them. -/
theorem edges_keep {source next : BlockId} (hlive : (a.block source).dead = false)
    (hsource : source ≠ block) {op : OpId} (hop : op ∈ (a.block source).ops)
    (hnext : next ∈ (a'.op op).kind.successors) :
    (a'.block next).dead = false ∧ source ∈ (a'.block next).preds := by
  obtain ⟨htlive, hknows⟩ := h.edges s.live jump s.mem_ops target (by rw [s.kind]; exact List.mem_cons_self)
  -- an edge of the old arena that does not lead to the block
  have hold {t : BlockId} (ht : t ∈ (a.op op).kind.successors) (hne : t ≠ block) :
      (a'.block t).dead = false ∧ source ∈ (a'.block t).preds := by
    obtain ⟨hdead, hmem⟩ := h.edges hlive op hop t ht
    rw [w.dead, if_neg hne, w.preds hne]
    refine ⟨hdead, ?_⟩
    split
    · exact List.mem_map.2 ⟨source, hmem, if_neg hsource⟩
    · exact hmem
  rw [w.kind] at hnext
  split at hnext
  · rename_i heq
    subst heq
    rw [OpKind.successors_mapBlocks] at hnext
    obtain ⟨t, ht, rfl⟩ := List.mem_map.1 hnext
    obtain rfl := h.eq_of_members (List.mem_append_right _ hop)
      (List.mem_append_right _ s.mem_ops_pred)
    by_cases htb : t = block
    · rw [show swap block target t = target from if_pos htb, w.dead, if_neg s.target_ne,
        w.preds s.target_ne, if_pos rfl]
      exact ⟨htlive, List.mem_map.2 ⟨block, hknows, if_pos rfl⟩⟩
    · rw [show swap block target t = t from if_neg htb]
      exact hold ht htb
  · rename_i hne
    refine hold hnext ?_
    rintro rfl
    exact hne (leads s h hlive hop hnext)

theorem wired (hsize : a'.blocks.size = a.blocks.size)
    (hblock : ∀ source ∈ (a'.block block).preds, source ∈ (a.block block).preds ∧ source ≠ pred) :
    a'.Wired := by
  -- where a predecessor was before
  have hcases {b source : BlockId} (hsource : source ∈ (a'.block b).preds) :
      source ∈ (a.block b).preds ∧ ¬(b = block ∧ source = pred) ∨ b = target ∧ source = pred := by
    by_cases hb : b = block
    · subst hb
      obtain ⟨hmem, hne⟩ := hblock source hsource
      exact .inl ⟨hmem, fun hc => hne hc.2⟩
    · rw [w.preds hb] at hsource
      split at hsource
      · obtain ⟨old, hold, rfl⟩ := List.mem_map.1 hsource
        rename_i ht
        by_cases hob : old = block
        · exact .inr ⟨ht, if_pos hob⟩
        · rw [show swap block pred old = old from if_neg hob]
          exact .inl ⟨hold, fun hc => hb hc.1⟩
      · exact .inl ⟨hsource, fun hc => hb hc.1⟩
  have hops {b : BlockId} {op : OpId} (hop : op ∈ (a'.block b).ops) :
      b ≠ block ∧ op ∈ (a.block b).ops := by
    rw [w.ops] at hop
    split at hop
    · cases hop
    · rename_i hb
      exact ⟨hb, hop⟩
  refine ⟨fun b => ?_, fun {b} hlive op hop next hnext => ?_,
    fun {b source} hsource op hop next hkind => ?_, fun {b source} hsource => ?_, fun b op hop => ?_⟩
  · rw [w.ops]
    split
    · exact List.Pairwise.nil
    · exact (h.ends b).imp fun hterm => (w.isTerminator_eq _).trans hterm
  · obtain ⟨hb, hop⟩ := hops hop
    rw [w.dead, if_neg hb] at hlive
    exact w.edges_keep s h hlive hb hop hnext
  · obtain ⟨hb, hop⟩ := hops hop
    rcases hcases hsource with ⟨hold, hnot⟩ | ⟨rfl, rfl⟩
    · exact w.jumps_keep s h hold hnot hop hkind
    · exact w.jumps_pred s h hop hkind
  · rw [hsize]
    rcases hcases hsource with ⟨hold, -⟩ | ⟨-, rfl⟩
    · exact h.known hold
    · exact h.known s.mem_preds
  · have hmem : op ∈ a.members b ∧ b ≠ block := by
      rcases List.mem_append.1 hop with hop | hop
      · rw [w.phis] at hop
        refine ⟨List.mem_append_left _ hop, ?_⟩
        rintro rfl
        rw [s.phis] at hop
        cases hop
      · exact ⟨List.mem_append_right _ (hops hop).2, (hops hop).1⟩
    have hne : op ≠ jump := by
      rintro rfl
      exact hmem.2 (h.eq_of_members hmem.1 (List.mem_append_right _ s.mem_ops))
    rw [w.place, if_neg hne]
    exact h.placed b op hmem.1

theorem merged (hphis : ∀ b, ∀ phi ∈ (a.block b).phis, a.Merged b phi) (b : BlockId) :
    ∀ phi ∈ (a'.block b).phis, a'.Merged b phi := by
  intro phi hphi
  rw [w.phis] at hphi
  obtain ⟨vars, result, hkind, hlength⟩ := hphis b phi hphi
  refine ⟨vars, result, w.kind_phi.2 hkind, ?_⟩
  have hb : b ≠ block := by
    rintro rfl
    rw [s.phis] at hphi
    cases hphi
  by_cases ht : b = target
  · rw [ht, w.livePreds_target s, List.length_map, ← ht]
    exact hlength
  · have hlive : a'.livePreds b = a.livePreds b := by
      simp only [Arena.livePreds, w.preds hb, if_neg ht]
      refine List.filter_congr fun source hsource => ?_
      have hne : source ≠ block := fun heq => notMem_preds s h ht (heq ▸ hsource)
      rw [w.dead, if_neg hne]
    rw [hlive]
    exact hlength

end Skips

theorem Shaped.bypass (h : a.Shaped) (s : a.Skippable block target pred jump last) :
    (a.bypass block target pred last).Shaped := by
  have hhome := h.placed block jump (List.mem_append_right _ s.mem_ops)
  have w := bypass_skips_of_placed hhome s
  obtain ⟨hsize, hpreds⟩ := preds_bypass s
  exact ⟨w.wired s h.toWired hsize hpreds, w.merged s h.toWired h.merged⟩

end Bypass

/-! ## All functions -/

/-- Folding and simplifying keep the shape of control flow. -/
theorem enduring_shaped : Enduring Shaped where
  install {a} file block op hop h := by
    refine h.modifyOp (fun other hother => ?_) ⟨id, ?_⟩
    · have hplace := h.placed block op hop
      rw [h.placed other op hother] at hplace
      exact hplace.symm
    · exact (OpKind.mapOperands_of_fixed fun _ _ => rfl).symm
  fold {a a' op} hfold h := by
    obtain ⟨value, -, hfold⟩ := Option.bind_eq_some_iff.1 hfold
    obtain ⟨result, -, hfold⟩ := Option.bind_eq_some_iff.1 hfold
    obtain rfl := Option.some.inj hfold
    have hnew : (a.newOperand (.scalar value)).2.Shaped := h.congr rfl (fun _ _ _ => rfl) rfl
    exact (hnew.replaceUses _ _).removeOp op
  remove {a phi value result} _ h := by
    unfold removePhi
    cases value with
    | none => exact h.removeOp phi
    | some value => exact (h.removeOp phi).replaceUses result value
  bypass s h := h.bypass s

end QueryTaint.Arena
