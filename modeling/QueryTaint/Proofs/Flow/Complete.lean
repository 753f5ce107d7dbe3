import QueryTaint.Lower.Declare
import QueryTaint.Proofs.Flow.Control

/-!
# Completing φ operations

At the end of a body the φ operations that waited get an operand for each live predecessor of their
block, and looking for these operands makes further φ operations. A φ operation is put into its block
before its operands are known, so that control flow is well formed but for some φ operations that are
being filled (`Filling`). A search leaves those alone (`Fills`), in particular those that an outer
search is about to fill.
-/

namespace QueryTaint.Lower

variable {S : Site} {E : OpId → Prop} {a a' : Arena} {b b' b'' : Builder}

/-- What holds while φ operations of a body are being filled. -/
structure Filling (S : Site) (E : OpId → Prop) (a : Arena) : Prop extends Footing S a where
  wired : S.strict → a.Wired
  merged : S.strict → ∀ block, ∀ phi ∈ (a.block block).phis, ¬E phi → a.Merged block phi
  new : ∀ phi, E phi → S.before.ops.size ≤ phi.index ∧ phi.index < a.ops.size

/-- A step that makes φ operations, and leaves some others alone. -/
structure Fills (E : OpId → Prop) (b b' : Builder) : Prop where
  complete : b'.scope.complete = b.scope.complete
  size : b.arena.blocks.size ≤ b'.arena.blocks.size
  preds : ∀ block, (b'.arena.block block).preds = (b.arena.block block).preds
  dead : ∀ block : BlockId, block.index < b.arena.blocks.size →
    (b'.arena.block block).dead = (b.arena.block block).dead
  op : ∀ phi, E phi → b'.arena.op phi = b.arena.op phi

theorem Fills.trans (h : Fills E b b') (h' : Fills E b' b'') : Fills E b b'' where
  complete := h'.complete.trans h.complete
  size := Nat.le_trans h.size h'.size
  preds block := (h'.preds block).trans (h.preds block)
  dead block hlt := (h'.dead block (Nat.lt_of_lt_of_le hlt h.size)).trans (h.dead block hlt)
  op phi hphi := (h'.op phi hphi).trans (h.op phi hphi)

theorem Fills.mono {E' : OpId → Prop} (h : Fills E b b') (hE : ∀ phi, E' phi → E phi) :
    Fills E' b b' :=
  { h with op := fun phi hphi => h.op phi (hE phi hphi) }

theorem Idle.fills (h : Idle b b') (hE : ∀ phi, E phi → phi.index < b.arena.ops.size) :
    Fills E b b' where
  complete := h.complete
  size := h.arena.blocks.size
  preds := h.arena.blocks.preds
  dead := h.arena.blocks.dead
  op phi hphi := h.arena.op phi (hE phi hphi)

namespace Filling

theorem calm (h : Filling S E a) (hc : Calm a a') : Filling S E a' where
  toFooting := h.toFooting.calm hc
  wired hs := hc.wired (h.wired hs)
  merged hs block phi hphi hE := by
    rw [hc.blocks.phis] at hphi
    exact hc.merged (h.wired hs) hphi (h.merged hs block phi hphi hE)
  new phi hphi := ⟨(h.new phi hphi).1, Nat.lt_of_lt_of_le (h.new phi hphi).2 hc.ops⟩

/-- One more φ operation is being filled. -/
theorem insert (h : Filling S E a) {phi : OpId} (hnew : S.before.ops.size ≤ phi.index)
    (hlt : phi.index < a.ops.size) : Filling S (fun o => o = phi ∨ E o) a :=
  { h with
    merged := fun hs block o ho hE => h.merged hs block o ho fun hmem => hE (.inr hmem)
    new := fun o ho => ho.elim (fun heq => heq ▸ ⟨hnew, hlt⟩) (h.new o) }

/-- A φ operation that is being filled is put into a block. -/
theorem attachPhi (h : Filling S E a) {block : BlockId} {phi : OpId} (hblock : S.Holds a block)
    (hphi : E phi) (hloose : (a.op phi).block = none) : Filling S E (a.attachPhi block phi) := by
  obtain ⟨hnew, hlt⟩ := h.new phi hphi
  refine ⟨h.toFooting.attachPhi hblock hnew, fun hs => (h.wired hs).attachPhi hblock.2 hlt hloose,
    fun hs other o ho hE => ?_, fun o ho => ?_⟩
  · have hold : o ∈ (a.block other).phis := by
      rw [Arena.attachPhi, Arena.block_modifyOp, Arena.block_modifyBlock_of_lt hblock.2] at ho
      split at ho
      · exact (mem_addNew.1 ho).resolve_right fun heq => hE (heq ▸ hphi)
      · exact ho
    obtain ⟨vars, result, hkind, hlength⟩ := h.merged hs other o hold hE
    refine ⟨vars, result, (kind_attachPhi a block phi o).trans hkind, ?_⟩
    rw [(h.wired hs).livePreds_eq (block_attachPhi_keep Block.preds (fun _ _ => rfl) ..)
      fun X _ => block_attachPhi_keep Block.dead (fun _ _ => rfl) ..]
    exact hlength
  · rw [show (a.attachPhi block phi).ops.size = a.ops.size from Arena.size_ops_modifyOp ..]
    exact h.new o ho

/-- A φ operation that has its operands counts again. -/
theorem full {phi : OpId} (h : Filling S (fun o => o = phi ∨ E o) a) {block : BlockId}
    (hplace : (a.op phi).block = some block) (hmerged : S.strict → a.Merged block phi) :
    Filling S E a where
  toFooting := h.toFooting
  wired := h.wired
  merged hs other o ho hE := by
    by_cases heq : o = phi
    · have hother := (h.wired hs).placed other o (List.mem_append_left _ ho)
      rw [heq, hplace] at hother
      cases hother
      exact heq ▸ hmerged hs
    · exact h.merged hs other o ho fun hmem => hmem.elim heq hE
  new o ho := h.new o (.inr ho)

/-- An operation is changed that is being filled. It stays where it is, and it does not become one
that leaves a block. -/
theorem modifyOp (h : Filling S E a) {phi : OpId} (hphi : E phi) (f : Op → Op)
    (hblock : ∀ o, (f o).block = o.block)
    (hkind : (a.op phi).kind.SameFlow (f (a.op phi)).kind) : Filling S E (a.modifyOp phi f) := by
  have hop {o : OpId} (hne : o ≠ phi) : (a.modifyOp phi f).op o = a.op o := by
    rw [Arena.op_modifyOp, if_neg fun hc => hne hc.1.symm]
  have hplace (o : OpId) : ((a.modifyOp phi f).op o).block = (a.op o).block :=
    Arena.op_modifyOp_keep a Op.block phi o hblock
  have hpast : S.Past (a.modifyOp phi f) :=
    { h.past with
      ops := by
        rw [Arena.size_ops_modifyOp]
        exact h.past.ops
      op := fun o ho => by
        have hne : o ≠ phi := fun heq => Nat.not_lt.2 (h.new phi hphi).1 (heq ▸ ho)
        rw [hop hne]
        exact h.past.op o ho }
  refine ⟨h.toFooting.keepPreds hpast (Nat.le_refl _) fun _ => rfl, fun hs => ?_,
    fun hs block o ho hE => ?_, fun o ho => ?_⟩
  · refine (h.wired hs).thin (Nat.le_refl _) (fun _ => List.Sublist.refl _) (fun _ => rfl)
      (fun _ _ => rfl) (fun block o _ => ?_) fun block o ho => ?_
    · by_cases heq : o = phi
      · subst heq
        rw [Arena.op_modifyOp_of_lt (h.new o hphi).2, if_pos rfl]
        exact hkind
      · rw [hop heq]
        exact .refl _
    · rw [hplace]
      exact (h.wired hs).placed block o ho
  · have hne : o ≠ phi := fun heq => hE (heq ▸ hphi)
    obtain ⟨vars, result, hk, hlength⟩ := h.merged hs block o ho hE
    exact ⟨vars, result, by rw [hop hne]; exact hk, hlength⟩
  · rw [Arena.size_ops_modifyOp]
    exact h.new o ho

end Filling

/-! ## Adding operands -/

/-- What is known of a φ operation while it gets its operands. -/
structure PhiOf (a : Arena) (phi : OpId) (count : Nat) (block : Option BlockId) : Prop where
  kind : ∃ vars result, (a.op phi).kind = .phi vars result ∧ vars.length = count
  block : (a.op phi).block = block

theorem PhiOf.of_op {phi : OpId} {count : Nat} {place : Option BlockId}
    (h : PhiOf a phi count place) (hop : a'.op phi = a.op phi) : PhiOf a' phi count place :=
  ⟨by rw [hop]; exact h.kind, by rw [hop]; exact h.block⟩

theorem addPhiOperand_fills (h : Filling S E b.arena) {phi : OpId} (hphi : E phi) {count : Nat}
    {place : Option BlockId} (hkind : PhiOf b.arena phi count place) (id : OperandId) :
    Gives (change (·.addPhiOperand phi id)) b fun _ b' => Filling S E b'.arena ∧
      Fills (fun o => o ≠ phi ∧ E o) b b' ∧ PhiOf b'.arena phi (count + 1) place := by
  obtain ⟨⟨vars, result, hk, hlength⟩, hplace⟩ := hkind
  have harena : b.arena.addPhiOperand phi id =
      (b.arena.modifyOp phi fun o => { o with kind := .phi (vars ++ [id]) result }).modifyOperand id
        (·.addUsage phi) := by
    rw [Arena.addPhiOperand, hk]
  have hcalm := Calm.modifyOperand
    (b.arena.modifyOp phi fun o => { o with kind := .phi (vars ++ [id]) result }) id (·.addUsage phi)
  have hfilling : Filling S E (b.arena.addPhiOperand phi id) := by
    rw [harena]
    refine (h.modifyOp hphi _ (by exact fun _ => rfl) ?_).calm hcalm
    rw [hk]
    exact ⟨rfl, rfl, nofun⟩
  have hop (o : OpId) : (b.arena.addPhiOperand phi id).op o =
      if o = phi then { b.arena.op o with kind := .phi (vars ++ [id]) result } else b.arena.op o := by
    rw [harena]
    exact Arena.op_modifyOp_of_lt (h.new phi hphi).2 ..
  have hblocks : (b.arena.addPhiOperand phi id).blocks = b.arena.blocks := by
    rw [harena]
    rfl
  have hself : (b.arena.addPhiOperand phi id).op phi =
      { b.arena.op phi with kind := .phi (vars ++ [id]) result } := (hop phi).trans (if_pos rfl)
  refine ⟨hfilling, ⟨rfl, Nat.le_of_eq (congrArg Array.size hblocks.symm), fun block => ?_,
    fun block _ => ?_, fun o ho => (hop o).trans (if_neg ho.1)⟩,
    ⟨vars ++ [id], result, congrArg Op.kind hself, ?_⟩, (congrArg Op.block hself).trans hplace⟩
  · exact congrArg Block.preds (congrArg (·.getD block.index default) hblocks)
  · exact congrArg Block.dead (congrArg (·.getD block.index default) hblocks)
  · rw [List.length_append, hlength]
    rfl

/-- A search in a block of the body that leaves φ operations that are being filled alone. -/
def Searches (S : Site) (E : OpId → Prop) (read : BlockId → Build OperandId) : Prop :=
  ∀ block b, Filling S E b.arena → b.scope.complete = true → S.Holds b.arena block →
    Gives (read block) b fun _ b' => Filling S E b'.arena ∧ Fills E b b'

/-- A φ operation gets an operand for each of some blocks. -/
theorem addIncoming_fills {read : BlockId → Build OperandId} (hread : Searches S E read)
    {phi : OpId} (hphi : E phi) {count : Nat} {place : Option BlockId} {preds : List BlockId}
    (h : Filling S E b.arena) (hcomplete : b.scope.complete = true)
    (hpreds : ∀ pred ∈ preds, S.Holds b.arena pred) (hkind : PhiOf b.arena phi count place) :
    Gives (addIncoming phi read preds) b fun _ b' => Filling S E b'.arena ∧
      Fills (fun o => o ≠ phi ∧ E o) b b' ∧ PhiOf b'.arena phi (count + preds.length) place := by
  induction preds generalizing b count with
  | nil => exact ⟨h, (Idle.refl b).fills fun o ho => (h.new o ho.2).2, hkind⟩
  | cons pred rest ih =>
    obtain ⟨hpred, hrest⟩ := List.forall_mem_cons.1 hpreds
    refine Gives.bind (hread pred b h hcomplete hpred) ?_
    rintro incoming b₁ ⟨h₁, hf₁⟩
    have hkind₁ := hkind.of_op (hf₁.op phi hphi)
    refine Gives.bind (addPhiOperand_fills h₁ hphi hkind₁ incoming) ?_
    rintro _ b₂ ⟨h₂, hf₂, hkind₂⟩
    have hf := (hf₁.mono fun _ ho => ho.2).trans hf₂
    refine (ih h₂ (hf.complete.trans hcomplete) (fun X hX => (hrest X hX).mono hf.size)
      hkind₂).mono ?_
    rintro _ b₃ ⟨h₃, hf₃, hkind₃⟩
    refine ⟨h₃, hf.trans hf₃, ?_⟩
    rw [List.length_cons, Nat.add_comm rest.length, ← Nat.add_assoc]
    exact hkind₃

/-! ## Searching -/

theorem Filling.idle (h : Filling S E b.arena) (hi : Idle b b') :
    Filling S E b'.arena ∧ Fills E b b' :=
  ⟨h.calm hi.arena, hi.fills fun phi hphi => (h.new phi hphi).2⟩

/-- Live predecessors of blocks of the body are blocks of the body. -/
theorem Footing.holds_livePreds (h : Footing S a) {block : BlockId} (hblock : S.Holds a block) :
    ∀ pred ∈ a.livePreds block, S.Holds a pred :=
  fun pred hpred => h.closed block hblock.1 pred (List.mem_filter.1 hpred).1

theorem Fills.livePreds_eq (h : Fills E b b') (hwired : b.arena.Wired) (block : BlockId) :
    b'.arena.livePreds block = b.arena.livePreds block :=
  hwired.livePreds_eq (h.preds block) h.dead

theorem Fills.attachPhi (b : Builder) (block : BlockId) (phi : OpId) :
    Fills (· ≠ phi) b { b with arena := b.arena.attachPhi block phi } where
  complete := rfl
  size := Nat.le_of_eq (Arena.size_blocks_modifyBlock ..).symm
  preds := block_attachPhi_keep Block.preds (fun _ _ => rfl) block phi
  dead other _ := block_attachPhi_keep Block.dead (fun _ _ => rfl) block phi other
  op o ho := by
    dsimp only
    rw [Arena.attachPhi, Arena.op_modifyOp, if_neg fun hc => ho hc.1.symm, Arena.op_modifyBlock]

theorem PhiOf.attachPhi {phi : OpId} {count : Nat} {place : Option BlockId}
    (h : PhiOf a phi count place) (hlt : phi.index < a.ops.size) (block : BlockId) :
    PhiOf (a.attachPhi block phi) phi count (some block) where
  kind := by
    rw [kind_attachPhi]
    exact h.kind
  block := by
    rw [Arena.attachPhi, Arena.op_modifyOp_of_lt (by exact hlt), if_pos rfl]

/-- A φ operation with as many operands as there are live predecessors is complete. -/
theorem PhiOf.merged {phi : OpId} {block : BlockId} {place : Option BlockId}
    (h : PhiOf b'.arena phi (b.arena.livePreds block).length place) (hf : Fills E b b')
    (hwired : b.arena.Wired) : b'.arena.Merged block phi := by
  obtain ⟨vars, result, hkind, hlength⟩ := h.kind
  refine ⟨vars, result, hkind, ?_⟩
  rw [hf.livePreds_eq hwired]
  exact hlength

/-- A φ operation is made, put into a block, and filled by searches in the live predecessors. -/
theorem join_fills (name : String) {read : BlockId → Build OperandId}
    (hread : ∀ E, Searches S E read) {block : BlockId} (h : Filling S E b.arena)
    (hcomplete : b.scope.complete = true) (hblock : S.Holds b.arena block) :
    Gives (do
      let (value, phi) ← newPhi name
      change (·.attachPhi block phi)
      bindIn block name value
      addIncoming phi read (b.arena.livePreds block)
      return value) b fun _ b' => Filling S E b'.arena ∧ Fills E b b' := by
  refine Gives.bind (newPhi_makes name b) ?_
  rintro ⟨value, phi⟩ b₁ ⟨hi₁, hindex, hlt, hop⟩
  dsimp only at hindex hlt hop ⊢
  obtain ⟨h₁, hf₁⟩ := h.idle hi₁
  have hnew : S.before.ops.size ≤ phi.index := hindex ▸ h.past.ops
  have hfresh : ∀ o, E o → o ≠ phi := fun o ho heq =>
    Nat.ne_of_lt (h.new o ho).2 (heq ▸ hindex)
  have hblock₁ : S.Holds b₁.arena block := hblock.mono hf₁.size
  have h₂ := (h₁.insert hnew hlt).attachPhi hblock₁ (.inl rfl) (congrArg Op.block hop)
  have hkind₂ : PhiOf (b₁.arena.attachPhi block phi) phi 0 (some block) :=
    PhiOf.attachPhi ⟨⟨[], value, congrArg Op.kind hop, rfl⟩, rfl⟩ hlt block
  refine Gives.bind (P := fun _ b₂ => b₂ = { b₁ with arena := b₁.arena.attachPhi block phi }) rfl ?_
  rintro _ _ rfl
  have hf₂ := hf₁.trans ((Fills.attachPhi b₁ block phi).mono hfresh)
  refine Gives.bind (P := fun _ b₃ => Idle { b₁ with arena := b₁.arena.attachPhi block phi } b₃ ∧
    b₃.arena = b₁.arena.attachPhi block phi) ⟨bindIn_rests block name value _, rfl⟩ ?_
  rintro _ b₃ ⟨hi₃, harena⟩
  rw [← harena] at h₂ hkind₂
  have hf₃ := hf₂.trans (hi₃.fills fun o ho => harena ▸ (h₂.new o (.inr ho)).2)
  refine Gives.bind (addIncoming_fills (hread _) (.inl rfl) h₂ (hf₃.complete.trans hcomplete)
    (fun pred hpred => (h.toFooting.holds_livePreds hblock pred hpred).mono hf₃.size) hkind₂) ?_
  rintro _ b₄ ⟨h₄, hf₄, hkind₄⟩
  rw [Nat.zero_add] at hkind₄
  have hf := hf₃.trans (hf₄.mono fun o ho => ⟨hfresh o ho, .inr ho⟩)
  exact ⟨h₄.full hkind₄.block fun hs => hkind₄.merged hf (h.wired hs), hf⟩

theorem readWithin_searches (name : String) (steps : Nat) (E : OpId → Prop) :
    Searches S E (readWithin name steps) := by
  induction steps generalizing E with
  | zero =>
    intro block b h _ _
    exact (Rests.bind (newPhi_rests name) fun made => .pure made.1) b |>.mono fun _ _ => h.idle
  | succ steps ih =>
    intro block b h hcomplete hblock
    rw [readWithin]
    refine Gives.get ?_
    split
    · exact h.idle (.refl b)
    split
    · exact (readInput_rests _ block b).mono fun _ _ => h.idle
    refine Gives.get ?_
    rw [if_pos hcomplete]
    refine Gives.look (Gives.look ?_)
    split
    · rename_i hsingle
      have hone : (b.arena.block block).preds.length = 1 :=
        of_decide_eq_true (Bool.and_eq_true_iff.1 hsingle).1
      obtain ⟨pred, hpred⟩ := List.length_eq_one_iff.1 hone
      rw [hpred]
      have hholds := h.closed block hblock.1 pred (by rw [hpred]; exact List.mem_cons_self)
      refine Gives.bind (ih E pred b h hcomplete hholds) ?_
      rintro value b₁ ⟨h₁, hf₁⟩
      refine Gives.bind (bindIn_rests block name value b₁) fun _ b₂ hi₂ => ?_
      obtain ⟨h₂, hf₂⟩ := h₁.idle hi₂
      exact ⟨h₂, hf₁.trans hf₂⟩
    · exact join_fills name ih h hcomplete hblock

theorem readName_searches (name : String) (E : OpId → Prop) : Searches S E (readName name) :=
  fun block b h hcomplete hblock => Gives.look (readWithin_searches name _ E block b h hcomplete hblock)

/-! ## The end of a body -/

theorem Site.Waits.fills {p : PendingPhi} (h : S.Waits b.arena p) (hf : Fills E b b')
    (hE : E p.phi) (hlt : p.phi.index < b'.arena.ops.size) : S.Waits b'.arena p where
  holds := h.holds.mono hf.size
  new := h.new
  lt := hlt
  loose := by
    rw [hf.op p.phi hE]
    exact h.loose
  empty := by
    rw [hf.op p.phi hE]
    exact h.empty

theorem Site.Waits.phiOf {p : PendingPhi} (h : S.Waits a p) : PhiOf a p.phi 0 none :=
  ⟨let ⟨result, hkind⟩ := h.empty; ⟨[], result, hkind, rfl⟩, h.loose⟩

theorem completePhis_fills {pending : List PendingPhi}
    (hwaits : ∀ p ∈ pending, S.Waits b.arena p) (hdistinct : (pending.map (·.phi)).Nodup)
    (h : Filling S (· ∈ pending.map (·.phi)) b.arena) (hcomplete : b.scope.complete = true) :
    Gives (completePhis pending) b fun _ b' => Filling S (fun _ => False) b'.arena := by
  induction pending generalizing b with
  | nil =>
    have hnone : (fun o : OpId => o ∈ ([] : List PendingPhi).map (·.phi)) = fun _ => False := by
      funext o
      exact eq_false List.not_mem_nil
    rw [hnone] at h
    exact h
  | cons p rest ih =>
    obtain ⟨hp, hrest⟩ := List.forall_mem_cons.1 hwaits
    obtain ⟨hother, hdistinct⟩ := List.nodup_cons.1 hdistinct
    have hsplit : (fun o : OpId => o ∈ (p :: rest).map (·.phi)) =
        fun o => o = p.phi ∨ o ∈ rest.map (·.phi) := by
      funext o
      exact propext List.mem_cons
    rw [hsplit] at h
    refine Gives.look (Gives.bind (addIncoming_fills (readName_searches p.name _) (.inl rfl) h
      hcomplete (h.toFooting.holds_livePreds hp.holds) hp.phiOf) ?_)
    rintro _ b₁ ⟨h₁, hf₁, hkind₁⟩
    rw [Nat.zero_add] at hkind₁
    have hblock₁ := hp.holds.mono hf₁.size
    have h₂ := h₁.attachPhi hblock₁ (.inl rfl) hkind₁.block
    have hkind₂ := hkind₁.attachPhi (h₁.new p.phi (.inl rfl)).2 p.block
    have hne : ∀ o ∈ rest.map (·.phi), o ≠ p.phi := by
      rintro o ho rfl
      exact hother ho
    have hf := (hf₁.mono fun o ho => ⟨hne o ho, .inr ho⟩).trans
      ((Fills.attachPhi b₁ p.block p.phi).mono hne)
    have h₃ := h₂.full hkind₂.block fun hs => hkind₂.merged hf (h.wired hs)
    refine Gives.bind (P := fun _ b₂ =>
      b₂ = { b₁ with arena := b₁.arena.attachPhi p.block p.phi }) rfl ?_
    rintro _ _ rfl
    refine ih (fun q hq => (hrest q hq).fills hf (List.mem_map_of_mem hq) ?_) hdistinct h₃
      (hf.complete.trans hcomplete)
    exact (h₃.new q.phi (List.mem_map_of_mem hq)).2

/-- After the end of a body nothing waits any more. -/
theorem finishBody_grounds {R : Reserve} (h : Ready S R b) :
    Gives finishBody b fun _ b' => Ground S b'.arena := by
  refine Gives.get (Gives.look ?_)
  have hlast : ∀ b₁, Standing S R b₁ → Gives (do
      let pending := (← get).scope.pending
      changeScope fun s => { s with complete := true, pending := #[] }
      completePhis pending.toList) b₁ fun _ b' => Ground S b'.arena := by
    intro b₁ h₁
    refine Gives.get (Gives.bind (P := fun _ b₂ => b₂ = { b₁ with
      scope := { b₁.scope with complete := true, pending := #[] } }) rfl ?_)
    rintro _ _ rfl
    have hwaits : ∀ p ∈ b₁.scope.pending.toList, S.Waits b₁.arena p :=
      fun p hp => h₁.pending p (Array.mem_toList_iff.1 hp)
    refine (completePhis_fills
      (b := { b₁ with scope := { b₁.scope with complete := true, pending := #[] } })
      hwaits h₁.distinctPhis ⟨h₁.ground.toFooting,
      fun hs => (h₁.ground.shaped hs).toWired,
      fun hs block phi hphi _ => (h₁.ground.shaped hs).merged block phi hphi, ?_⟩ rfl).mono ?_
    · intro o ho
      obtain ⟨p, hp, rfl⟩ := List.mem_map.1 ho
      exact ⟨(hwaits p hp).new, (hwaits p hp).lt⟩
    · intro _ b₂ h₂
      exact ⟨h₂.toFooting, fun hs => ⟨h₂.wired hs, fun block phi hphi =>
        h₂.merged hs block phi hphi id⟩⟩
  split
  · exact Gives.bind (emit_leaves h rfl .none) fun _ => hlast
  · exact hlast b h.standing

end QueryTaint.Lower
