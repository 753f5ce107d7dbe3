import QueryTaint.Proofs.Flow.Complete
import QueryTaint.Proofs.Lower.Law
import QueryTaint.Proofs.Lower.Variable

/-!
# Bodies inside of bodies

The body of a function is lowered while the body around it is not finished. It has a `Site` of its
own, whose blocks are the entry of the function and the blocks that are made from then on
(`Ready.start`). When it is done, the outer body goes on where it was, since its own blocks are foreign
to the inner one (`Standing.resume`).
-/

namespace QueryTaint.Lower

variable {S : Site} {R : Reserve} {a a' : Arena} {b b' : Builder} {entry : BlockId}

/-! ## The start of a body -/

/-- A body can be lowered at a block which nothing leads to. -/
theorem Footing.start {strict : Prop} (hlt : entry.index < a.blocks.size)
    (hpreds : (a.block entry).preds = [])
    (hknown : strict → ∀ block, ∀ source ∈ (a.block block).preds, source.index < a.blocks.size)
    (hleaf : strict → ∀ block, entry ∉ (a.block block).preds) :
    Footing ⟨a, entry, strict⟩ a := by
  have hnone {block : BlockId} (hblock : (Site.mk a entry strict).Owns block) :
      (a.block block).preds = [] := by
    rcases hblock with rfl | hle
    · exact hpreds
    · rw [Arena.block_of_le a hle]
      rfl
  refine ⟨fun hs block _ source hsource howns => ?_, ?_, ⟨fun _ => 0, fun block hblock => ?_⟩,
    fun block hblock => ?_⟩
  · rcases howns with rfl | hle
    · exact hleaf hs block hsource
    · exact Nat.not_lt.2 hle (hknown hs block source hsource)
  · exact ⟨Nat.le_refl _, fun _ _ => rfl, Nat.le_refl _, fun _ _ => rfl, Nat.le_refl _,
      fun _ _ => rfl⟩
  · rw [hnone hblock]
    exact nofun
  · rw [hnone hblock]
    exact nofun

/-- A block where a body can start: nothing leads to it, and it goes on. -/
structure Startable (strict : Prop) (a : Arena) (entry : BlockId) : Prop where
  shaped : strict → a.Shaped
  lt : entry.index < a.blocks.size
  preds : (a.block entry).preds = []
  goes : ∀ op ∈ (a.block entry).ops, op.index < a.ops.size ∧ (a.op op).kind.isTerminator = false
  leaf : strict → ∀ block, entry ∉ (a.block block).preds

theorem Ready.start {strict : Prop} (h : Startable strict b.arena entry) (func : FuncId) :
    Ready ⟨b.arena, entry, strict⟩ {} { b with func, scope := {}, block := entry } where
  standing := {
    ground := ⟨.start h.lt h.preds (fun hs _ _ hsource => (h.shaped hs).known hsource) h.leaf,
      h.shaped⟩
    building := rfl
    opens := nofun
    distinct := List.nodup_nil
    targets := nofun
    fed := nofun
    watched := nofun
    deaths := nofun
    entries := nofun
    labels := fun name block hname => by
      rw [show ({} : Scope).labels.get? name = none from Std.TreeMap.getElem?_emptyc] at hname
      cases hname
    pending := fun p hp => absurd hp (Array.not_mem_empty p)
    distinctPhis := List.nodup_nil }
  here := by
    refine ⟨⟨.inl rfl, h.lt⟩, h.goes, fun other hother => ?_⟩
    rcases hother with rfl | hle
    · dsimp only
      rw [h.preds]
      exact List.not_mem_nil
    · rw [Arena.block_of_le b.arena hle]
      exact List.not_mem_nil
  free := List.not_mem_nil

/-! ## Coming back -/

theorem not_owns_inner {strict : Prop} {block : BlockId} (hlt : block.index < a.blocks.size)
    (hne : block ≠ entry) : ¬(Site.mk a entry strict).Owns block :=
  fun howns => howns.elim hne fun hle => Nat.not_lt.2 hle hlt

theorem Site.Past.block_outer {strict : Prop} (h : (Site.mk a entry strict).Past a')
    {block : BlockId} (hblock : ¬(Site.mk a entry strict).Owns block) :
    (a'.block block).ops = (a.block block).ops ∧ (a'.block block).phis = (a.block block).phis ∧
      (a'.block block).preds = (a.block block).preds ∧
      (a'.block block).dead = (a.block block).dead := by
  have hshape := h.shape block hblock
  simp only [Block.shape, Prod.mk.injEq] at hshape
  exact hshape

theorem Site.Open.resume {strict : Prop} {block : BlockId} (h : S.Open a block)
    (hg : Footing ⟨a, entry, strict⟩ a') (hne : block ≠ entry) : S.Open a' block := by
  have houter : ¬(Site.mk a entry strict).Owns block := not_owns_inner h.holds.2 hne
  refine ⟨h.holds.mono hg.past.blocks, fun op hop => ?_, fun other hother hmem => ?_⟩
  · rw [(hg.past.block_outer houter).1] at hop
    obtain ⟨hlt, hterm⟩ := h.goes op hop
    rw [hg.past.op op hlt]
    exact ⟨Nat.lt_of_lt_of_le hlt hg.past.ops, hterm⟩
  · by_cases hinner : (Site.mk a entry strict).Owns other
    · exact houter (hg.closed other hinner block hmem).1
    · rw [(hg.past.block_outer hinner).2.2.1] at hmem
      exact h.leaf other hother hmem

theorem Site.Landing.resume {strict : Prop} {block : BlockId} (h : S.Landing a block)
    (hg : Footing ⟨a, entry, strict⟩ a') (hne : block ≠ entry) : S.Landing a' block := by
  obtain ⟨-, hphis, -, hdead⟩ := hg.past.block_outer (not_owns_inner h.holds.2 hne)
  exact ⟨h.holds.mono hg.past.blocks, hdead.trans h.live, hphis.trans h.bare⟩

/-- What holds of the outer body after an inner one was lowered at an open block of it. -/
theorem Footing.resume (h : Footing S a) (hentry : S.Open a entry)
    (hg : Footing ⟨a, entry, S.strict⟩ a') : Footing S a' := by
  have howns {block : BlockId} (hblock : (Site.mk a entry S.strict).Owns block) : S.Owns block :=
    hblock.elim (fun heq => heq ▸ hentry.holds.1) fun hle => .inr (Nat.le_trans h.past.blocks hle)
  refine ⟨fun hs block hblock source hsource => ?_, ?_, ?_, fun block hblock source hsource => ?_⟩
  · rw [(hg.past.block_outer fun hinner => hblock (howns hinner)).2.2.1] at hsource
    exact h.apart hs block hblock source hsource
  · exact {
      blocks := Nat.le_trans h.past.blocks hg.past.blocks
      shape := fun block hblock => (hg.past.shape block fun hinner => hblock (howns hinner)).trans
        (h.past.shape block hblock)
      ops := Nat.le_trans h.past.ops hg.past.ops
      op := fun op hop =>
        (hg.past.op op (Nat.lt_of_lt_of_le hop h.past.ops)).trans (h.past.op op hop)
      funcs := Nat.le_trans h.past.funcs hg.past.funcs
      entry := fun f hf =>
        (hg.past.entry f (Nat.lt_of_lt_of_le hf h.past.funcs)).trans (h.past.entry f hf) }
  · -- the orders of the two bodies do not meet
    refine (hg.ranked.join h.ranked (fun block hin source hsource =>
      (hg.closed block hin source hsource).1) (fun block hin => (hg.past.block_outer hin).2.2.1)
      fun block hblock _ source hsource => ?_).mono fun _ => .inr
    have hne : source ≠ entry := fun heq => hentry.leaf block hblock (heq ▸ hsource)
    exact not_owns_inner (h.closed block hblock source hsource).2 hne
  · by_cases hin : (Site.mk a entry S.strict).Owns block
    · obtain ⟨hsource, hlt⟩ := hg.closed block hin source hsource
      exact ⟨howns hsource, hlt⟩
    · rw [(hg.past.block_outer hin).2.2.1] at hsource
      exact (h.closed block hblock source hsource).mono hg.past.blocks

theorem Ground.resume (h : Ground S a) (hentry : S.Open a entry)
    (hg : Ground ⟨a, entry, S.strict⟩ a') : Ground S a' :=
  ⟨h.toFooting.resume hentry hg.toFooting, hg.shaped⟩

theorem Standing.resume (h : Standing S (R.keep entry) b) (hR : R.Unknown entry)
    (hnone : (b.arena.block entry).preds = []) (hg : Ground ⟨b.arena, entry, S.strict⟩ a') :
    Standing S R { b with arena := a' } := by
  have hentry := h.opens entry List.mem_cons_self
  have hfree := (List.nodup_cons.1 h.distinct).1
  have hkeep {block : BlockId} (hlt : block.index < b.arena.blocks.size) (hne : block ≠ entry) :=
    hg.past.block_outer (not_owns_inner hlt hne)
  have hfed {block : BlockId} (hpreds : (b.arena.block block).preds ≠ []) :
      block ≠ entry ∧ (a'.block block).preds ≠ [] := by
    have hne : block ≠ entry := fun heq => hpreds (heq ▸ hnone)
    obtain ⟨source, hsource⟩ := List.exists_mem_of_ne_nil _ hpreds
    rw [(hkeep (Arena.block_lt_of_pred hsource) hne).2.2.1]
    exact ⟨hne, hpreds⟩
  exact {
    ground := h.ground.resume hentry hg
    building := h.building
    opens := fun block hblock => (h.opens block (List.mem_cons_of_mem _ hblock)).resume
      hg.toFooting fun heq => hfree (heq ▸ hblock)
    distinct := (List.nodup_cons.1 h.distinct).2
    targets := fun block hblock => (h.targets block hblock).resume hg.toFooting
      fun heq => hR.untargeted (heq ▸ hblock)
    fed := fun block hblock => (hfed (h.fed block hblock)).2
    watched := fun block preds hblock => by
      obtain ⟨hlt, hpreds⟩ := h.watched block preds hblock
      have hne : block ≠ entry := by
        rintro rfl
        cases hR.unwatched.symm.trans hblock
      exact ⟨Nat.lt_of_lt_of_le hlt hg.past.blocks, (hkeep hlt hne).2.2.1.trans hpreds⟩
    deaths := fun block dead hblock => by
      obtain ⟨hlt, hdead⟩ := h.deaths block dead hblock
      have hne : block ≠ entry := by
        rintro rfl
        cases hR.undecided.symm.trans hblock
      exact ⟨Nat.lt_of_lt_of_le hlt hg.past.blocks, (hkeep hlt hne).2.2.2.trans hdead⟩
    entries := fun f block hf => by
      obtain ⟨hlt, hentry⟩ := h.entries f block hf
      exact ⟨Nat.lt_of_lt_of_le hlt hg.past.funcs, (hg.past.entry f hlt).trans hentry⟩
    labels := fun name block hname => by
      obtain ⟨hland, hpreds, hwatched⟩ := h.labels name block hname
      obtain ⟨hne, hpreds'⟩ := hfed hpreds
      exact ⟨hland.resume hg.toFooting hne, hpreds', hwatched⟩
    pending := fun p hp => by
      have hw := h.pending p hp
      have hop := hg.past.op p.phi hw.lt
      exact ⟨hw.holds.mono hg.past.blocks, hw.new, Nat.lt_of_lt_of_le hw.lt hg.past.ops,
        by dsimp only; rw [hop]; exact hw.loose, by dsimp only; rw [hop]; exact hw.empty⟩
    distinctPhis := h.distinctPhis }

theorem Ready.resume (h : Ready S (R.keep entry) b) (hR : R.Unknown entry)
    (hnone : (b.arena.block entry).preds = []) (hg : Ground ⟨b.arena, entry, S.strict⟩ a') :
    Ready S R { b with arena := a' } where
  standing := h.standing.resume hR hnone hg
  here := h.here.resume hg.toFooting fun heq => h.free (heq ▸ List.mem_cons_self)
  free hmem := h.free (List.mem_cons_of_mem _ hmem)

/-! ## Values in blocks of their own -/

theorem inBlock_results {α : Type} {x : Lowering α} (hx : Moves x) {block : BlockId}
    (h : Ready S (R.reserve block) b) :
    Results S (inBlock block x) b fun _ b' => Ready S R b' ∧ b'.block = b.block := by
  have hwithin : ((R.keep b.block).keep block).Within ((R.reserve block).keep b.block) :=
    ⟨(List.Perm.swap ..).subperm, fun _ => .inr, fun _ => id, fun _ _ => id, fun _ _ => id,
      fun _ _ => id⟩
  refine Results.get (Results.bind (.lift (goTo_ready (h.keep.within hwithin))) fun _ b₁ h₁ => ?_)
  refine Results.bind (hx h₁) fun y b₂ h₂ => ?_
  refine Results.bind (P := fun _ b₃ => Ready S R b₃ ∧ b₃.block = b.block)
    (.of_run rfl ⟨h₂.standing.goTo, rfl⟩) ?_
  exact fun _ b₃ h₃ => .pure h₃

theorem apart_results {value : Lowering OperandId} (hvalue : Moves value) (h : Ready S R b) :
    Results S (apart value) b fun _ b' => Ready S R b' ∧ b'.block = b.block := by
  refine Results.bind (.lift (newBlock_ready h)) ?_
  rintro block b₁ ⟨h₁, -, hblock⟩
  refine Results.bind (inBlock_results hvalue h₁) ?_
  rintro y b₂ ⟨h₂, hblock₂⟩
  exact .pure ⟨h₂, hblock₂.trans hblock⟩

theorem defaultApart_results {value : Option (Lowering OperandId)} (hvalue : ∀ x ∈ value, Moves x)
    (h : Ready S R b) :
    Results S (defaultApart value) b fun _ b' => Ready S R b' ∧ b'.block = b.block := by
  cases value with
  | none => exact .pure ⟨h, rfl⟩
  | some x =>
    refine Results.bind (apart_results (hvalue x rfl) h) ?_
    rintro ⟨y, block⟩ b₁ h₁
    exact .pure h₁

/-! ## Bodies -/

theorem param_results {p : Param (Lowering OperandId)} (hp : ∀ x ∈ p.default, Moves x)
    (func : FuncId) (h : Ready S R b) (hblock : b.block = entry) :
    Results S (param func entry p) b fun _ b' => Ready S R b' ∧ b'.block = entry := by
  refine Results.bind (defaultApart_results hp h) ?_
  rintro ⟨default, defaultBlock⟩ b₁ ⟨h₁, hblock₁⟩
  refine Results.bind (.lift (newString_rests p.name b₁)) fun name b₂ hi₂ => ?_
  refine Results.bind (.lift (newOperand_rests (.variable name none) b₂)) fun var b₃ hi₃ => ?_
  refine Results.bind (.lift (newTemporary_rests (some var) b₃)) fun result b₄ hi₄ => ?_
  have hi := (hi₂.trans hi₃).trans hi₄
  have h₄ := h₁.idle hi
  have hentry : b₄.block = entry := (hi.block.trans hblock₁).trans hblock
  generalize hkind : OpKind.param name default defaultBlock p.byRef p.variadic
    (declaredType p.type) func result = kind
  have hgoes : kind.isTerminator = false := by
    rw [← hkind]
    rfl
  refine Results.bind (P := fun op b₅ => op = ⟨b₄.arena.ops.size⟩ ∧
    b₅ = { b₄ with arena := (b₄.arena.addOp kind p.span).2 }) (.of_run rfl ⟨rfl, rfl⟩) ?_
  rintro _ _ ⟨rfl, rfl⟩
  have hplaced := (h₄.place hgoes p.span).idle (.of_arena (Calm.modifyFunc _ func
    (f := fun r => { r with params := r.params ++ [⟨b₄.arena.ops.size⟩] }) fun _ => rfl))
  subst hentry
  exact .of_run rfl ⟨hplaced.idle ⟨.refl _, rfl, rfl, rfl, rfl, rfl⟩, rfl⟩

/-- What a step leaves behind at one site it leaves behind at another one. -/
theorem Results.site {T : Site} {α : Type} {x : Lowering α} {Q : α → Builder → Prop}
    (h : Results T x b Q) (hground : ∀ a, Ground T a → Ground S a) : Results S x b Q :=
  ⟨h.ok, fun e b' he => hground b'.arena (h.error e b' he)⟩

/-- The parts of parameters are lowered at the end of open blocks. -/
def ParamsMove (params : List (Param (Lowering OperandId))) : Prop :=
  ∀ p ∈ params, ∀ x ∈ p.default, Moves x

/-- A body is lowered from its entry on. -/
theorem body_grounds {captured : List (String × OperandId)}
    {params : List (Param (Lowering OperandId))} (hparams : ParamsMove params)
    {steps : List (Lowering Unit)} (hsteps : ∀ x ∈ steps, Moves x) {strict : Prop} {func : FuncId}
    (hentry : (b.arena.func func).entry = entry) (h : Startable strict b.arena entry) :
    Results ⟨b.arena, entry, strict⟩ (body func captured params steps) b fun _ b' =>
      Ground ⟨b.arena, entry, strict⟩ b'.arena ∧ b'.func = b.func ∧ b'.scope = b.scope ∧
        b'.block = b.block := by
  subst hentry
  refine Results.look (Results.get (Results.get (Results.get ?_)))
  generalize (b.arena.func func).entry = entry at h ⊢
  refine Results.bind (P := fun _ b₁ => Ready ⟨b.arena, entry, strict⟩ {} b₁ ∧ b₁.block = entry)
    (.of_run rfl ⟨.start h func, rfl⟩) ?_
  rintro _ b₁ h₁
  refine Results.bind (Results.forM (I := fun b₁ => Ready ⟨b.arena, entry, strict⟩ {} b₁ ∧
    b₁.block = entry) h₁ ?_) fun _ b₂ h₂ => ?_
  · rintro ⟨name, value⟩ - b₂ ⟨h₂, hblock₂⟩
    refine .lift ((bindIn_rests entry name value b₂).mono fun _ _ hi => ⟨h₂.idle hi, ?_⟩)
    exact hi.block.trans hblock₂
  refine Results.bind (Results.forM (I := fun b₁ => Ready ⟨b.arena, entry, strict⟩ {} b₁ ∧
    b₁.block = entry) h₂ fun p hp b₃ h₃ => param_results (hparams p hp) func h₃.1 h₃.2)
    fun _ b₃ h₃ => ?_
  refine Results.bind (inOrder_moves hsteps h₃.1) fun _ b₄ h₄ => ?_
  refine Results.bind (.lift (finishBody_grounds h₄)) fun _ b₅ h₅ => ?_
  exact .of_run rfl ⟨h₅, rfl, rfl, rfl⟩

/-! ## Making functions -/

/-- What is in reserve between making a function and lowering its body. -/
def Reserve.made (R : Reserve) (func : FuncId) (entry : BlockId) : Reserve :=
  ((R.keep entry).enter func entry).watch entry []

/-- Nothing is known of a function and its entry. -/
structure Reserve.Unmade (R : Reserve) (func : FuncId) (entry : BlockId) : Prop
    extends R.Unknown entry where
  unentered : R.entries func = none

theorem Reserve.Unmade.within {func : FuncId} (h : R.Unmade func entry) :
    (R.keep entry).Within (R.made func entry) :=
  (Reserve.within_enter (by exact h.unentered) entry).trans
    (Reserve.within_watch (by exact h.unwatched) [])

theorem Standing.enter (h : Standing S R b) {func : FuncId}
    (hlt : func.index < b.arena.funcs.size) (hentry : (b.arena.func func).entry = entry) :
    Standing S (R.enter func entry) b :=
  { h with
    entries := fun f block hf => by
      simp only [Reserve.enter] at hf
      split at hf
      · rename_i heq
        cases hf
        exact heq ▸ ⟨hlt, hentry⟩
      · exact h.entries f block hf }

theorem entry_newFunc (a : Arena) (name : String) :
    ((a.newFunc name).2.func ⟨a.funcs.size⟩).entry = ⟨a.blocks.size⟩ := by
  rw [show (a.newFunc name).2.func ⟨a.funcs.size⟩ = _ from getD_push .., if_pos rfl]

theorem newFunc_ready (name : String) (span : Span) (returnType : Option TypeHint) (flags : Nat)
    (cls : Option String) (h : Ready S R b) :
    Gives (newFunc name span returnType flags cls) b fun func b' => ∃ entry,
      Ready S (R.made func entry) b' ∧ R.Unmade func entry := by
  refine Gives.get (Gives.bind (P := fun func b₁ => func = ⟨b.arena.funcs.size⟩ ∧
    b₁ = { b with arena := (b.arena.newFunc name).2 }) ⟨rfl, rfl⟩ ?_)
  rintro _ _ ⟨rfl, rfl⟩
  have hcalm := Calm.newFunc b.arena name
  have hlt : b.arena.blocks.size < (b.arena.newFunc name).2.blocks.size :=
    Nat.lt_of_lt_of_eq (Nat.lt_succ_self _) (Array.size_push ..).symm
  have hltFunc : b.arena.funcs.size < (b.arena.newFunc name).2.funcs.size :=
    Nat.lt_of_lt_of_eq (Nat.lt_succ_self _) (Array.size_push ..).symm
  have hpreds : ((b.arena.newFunc name).2.block ⟨b.arena.blocks.size⟩).preds = [] := by
    rw [hcalm.blocks.preds]
    exact congrArg Block.preds (Arena.block_of_le b.arena (Nat.le_refl _))
  have hstanding := (((h.standing.fresh hcalm ⟨b.arena.blocks.size⟩ (Nat.le_refl _) hlt).enter
    hltFunc (entry_newFunc b.arena name)).watch hlt hpreds fun label hlabel =>
      Nat.lt_irrefl _ (h.standing.labels label _ hlabel).1.holds.2)
  have hready : Ready S (R.made ⟨b.arena.funcs.size⟩ ⟨b.arena.blocks.size⟩)
      { b with arena := (b.arena.newFunc name).2 } := by
    refine ⟨hstanding, h.here.calm hcalm, fun hmem => ?_⟩
    rcases List.mem_cons.1 hmem with heq | hmem
    · exact Nat.ne_of_lt h.here.holds.2 (congrArg BlockId.index heq)
    · exact h.free hmem
  refine ⟨_, hready.idle (.of_arena (Calm.modifyFunc _ _ fun _ => rfl)), h.standing.unknown
    (Nat.le_refl _), Option.eq_none_iff_forall_ne_some.2 fun entry hsome => ?_⟩
  exact Nat.lt_irrefl _ (h.standing.entries _ entry hsome).1

/-- The body of a function that was made is lowered, and the outer body goes on. -/
theorem body_results {func : FuncId} (hR : R.Unmade func entry)
    {captured : List (String × OperandId)} {params : List (Param (Lowering OperandId))}
    (hparams : ParamsMove params) {steps : List (Lowering Unit)} (hsteps : ∀ x ∈ steps, Moves x)
    (h : Ready S (R.made func entry) b) :
    Results S (body func captured params steps) b fun _ b' => Ready S R b' := by
  have hopen := h.standing.opens entry List.mem_cons_self
  have hpreds := (h.standing.watched entry [] (if_pos rfl)).2
  have hstart : Startable S.strict b.arena entry := by
    refine ⟨h.standing.ground.shaped, hopen.holds.2, hpreds, hopen.goes, fun hs block hmem => ?_⟩
    by_cases howns : S.Owns block
    · exact hopen.leaf block howns hmem
    · exact h.standing.ground.apart hs block howns entry hmem hopen.holds.1
  have hentry := (h.standing.entries func entry (if_pos rfl)).2
  refine ((body_grounds hparams hsteps hentry hstart).site (S := S) fun _ hg =>
    h.standing.ground.resume hopen hg).mono ?_
  rintro _ b' ⟨hg, -, hscope, hblock⟩
  refine ((h.within hR.within).resume hR.toUnknown hpreds hg).idle ⟨.refl _, hblock, ?_, ?_, ?_, ?_⟩
  all_goals rw [hscope]

end QueryTaint.Lower

/-!
## Declarations build control flow

Functions, methods, closures and static variables go on at the end of an open block if the steps that
lower their parts do. The bodies of functions are lowered in between, and the first values of static
variables stand in blocks of their own.
-/

namespace QueryTaint.Lower

variable {params : List (Param (Lowering OperandId))} {steps : List (Lowering Unit)}

/-! ### Functions -/

theorem setCallable_rests (func : FuncId) (op : OpId) : Rests (setCallable func op) :=
  change_rests fun a => Calm.modifyFunc a func (by exact fun _ => rfl)

theorem listFunction_rests (name : String) (func : FuncId) : Rests (listFunction name func) :=
  fun _ => ⟨.refl _, rfl, rfl, rfl, rfl, rfl⟩

theorem function_moves (name : String) (hparams : ParamsMove params) (byRef : Bool)
    (returnType : Option TypeHint) (hsteps : ∀ x ∈ steps, Moves x) (span : Span) :
    Moves (function name params byRef returnType steps span) := by
  intro S R b h
  refine Results.bind (.lift (newFunc_ready name span returnType (refFlag byRef) none h)) ?_
  rintro func b₁ ⟨entry, h₁, hR⟩
  refine Results.bind ((emit_steps rfl span).moves h₁) fun op b₂ h₂ => ?_
  refine Results.bind ((setCallable_rests func op).moves h₂) fun _ b₃ h₃ => ?_
  refine Results.bind (body_results hR hparams hsteps h₃) fun _ b₄ h₄ => ?_
  exact (listFunction_rests name func).moves h₄

theorem method_moves (name : String) (modifiers : Nat) (hparams : ParamsMove params) (byRef : Bool)
    (returnType : Option TypeHint) (hsteps : ∀ x ∈ steps, Moves x) (span : Span) :
    Moves (method name modifiers params byRef returnType steps span) := by
  intro S R b h
  refine Results.get (Results.bind (.lift (newFunc_ready name span returnType _ b.cls h)) ?_)
  rintro func b₁ ⟨entry, h₁, hR⟩
  refine Results.bind ((emit_steps rfl span).moves h₁) fun op b₂ h₂ => ?_
  refine Results.bind ((setCallable_rests func op).moves h₂) fun _ b₃ h₃ => ?_
  refine Results.bind (body_results hR hparams hsteps h₃) fun _ b₄ h₄ => Results.look ?_
  exact (listFunction_rests _ func).moves h₄

theorem captures_reads (uses : List Capture) : Reads (captures uses) := by
  induction uses with
  | nil => exact .pure _
  | cons used rest ih =>
    intro S R b hb hhere
    refine Gives.get (Gives.bind (readName_stands hb hhere used.name) ?_)
    rintro value b₁ ⟨hb₁, hl₁⟩
    have hrest : Reads (do
        let name ← newString used.name
        let bound ← newOperand (.bound name (some value) used.byRef .locals)
        return (used.name, bound) :: (← captures rest)) :=
      .bind (newString_rests _).reads fun _ => .bind (newOperand_rests _).reads fun _ =>
        .bind ih fun _ => .pure _
    exact (hrest hb₁ (hl₁.holds hhere)).mono fun _ _ ⟨hb₂, hl₂⟩ => ⟨hb₂, hl₁.trans hl₂⟩

theorem closure_moves (hparams : ParamsMove params) (uses : List Capture) (byRef isStatic : Bool)
    (returnType : Option TypeHint) (hsteps : ∀ x ∈ steps, Moves x) (span : Span) :
    Moves (closure params uses byRef isStatic returnType steps span) := by
  intro S R b h
  refine Results.bind (P := fun _ b₁ => Ready S R b₁)
    (.of_run rfl (h.idle ⟨.refl _, rfl, rfl, rfl, rfl, rfl⟩)) fun name b₁ h₁ => ?_
  refine Results.bind (.lift (newFunc_ready name span returnType _ none h₁)) ?_
  rintro func b₂ ⟨entry, h₂, hR⟩
  refine Results.bind ((captures_reads uses).moves h₂) fun captured b₃ h₃ => ?_
  refine Results.bind (body_results hR hparams hsteps h₃) fun _ b₄ h₄ => ?_
  refine Results.bind ((listFunction_rests name func).moves h₄) fun _ b₅ h₅ => ?_
  refine Results.bind ((newTemporary_rests none).moves h₅) fun result b₆ h₆ => ?_
  refine Results.bind ((emit_steps rfl span).moves h₆) fun op b₇ h₇ => ?_
  exact Results.bind ((setCallable_rests func op).moves h₇) fun _ b₈ h₈ => .pure h₈

/-! ### Static variables -/

theorem staticVar_moves {v : Declared (Lowering OperandId)} (hv : ∀ x ∈ v.default, Moves x) :
    Moves (staticVar v) := by
  intro S R b h
  refine Results.bind (defaultApart_results hv h) ?_
  rintro ⟨default, block⟩ b₁ ⟨h₁, -⟩
  refine Moves.bind (newString_rests v.name).moves (fun _ => .bind (newOperand_rests _).moves
    fun _ => .get fun _ => .bind (bindIn_rests _ _ _).moves fun _ =>
      .bind (emit_steps rfl v.span).moves fun _ => .pure _) h₁

end QueryTaint.Lower

/-!
## Lowering syntax trees builds control flow

Going on at the end of an open block is a law of lowering (`moving`): the basic steps do, and so do the
ways of putting them together. Hence lowering any syntax tree does (`stmts_move`). So a file that is
lowered into an arena with well-formed control flow, or that fails on the way, leaves an arena with
well-formed control flow (`shaped_lowerFile`).
-/

namespace QueryTaint

namespace Lower

/-! ### Steps and their parts -/

theorem Aside.idle {b b' : Builder} (h : Aside b b') : Idle b b' := by
  obtain ⟨harena, -, hblock, hscope⟩ := h
  refine ⟨?_, hblock, ?_, ?_, ?_, ?_⟩
  · rw [harena]
    exact .refl _
  all_goals rw [hscope]

/-- What is lowered in a block of its own does not end the block around it. -/
theorem enclose_moves {α β : Type} {x : Lowering α} {next : BlockId → α → Lowering β} (hx : Moves x)
    (hnext : ∀ block y, Moves (next block y)) : Moves (do
      let block ← newBlock
      let y ← inBlock block x
      next block y) := by
  intro S R b h
  refine Results.bind (.lift (newBlock_ready h)) ?_
  rintro block b₁ ⟨h₁, -, -⟩
  refine Results.bind (inBlock_results hx h₁) ?_
  rintro y b₂ ⟨h₂, -⟩
  exact hnext block y h₂

theorem literal_idles (value : Literal) : Idles (current (literal value)) := by
  intro b
  obtain ⟨c, hc⟩ : ∃ c, literal value = newOperand (.scalar c) := by cases value <;> exact ⟨_, rfl⟩
  rw [hc]
  have hkind : ((b.arena.newOperand (.scalar c)).2.operand ⟨b.arena.operands.size⟩).kind =
      .scalar c := by
    rw [Arena.operand_newOperand, if_pos rfl]
  have hrun : (readVariable ⟨b.arena.operands.size⟩).run
      { b with arena := (b.arena.newOperand (.scalar c)).2 } =
      (⟨b.arena.operands.size⟩, { b with arena := (b.arena.newOperand (.scalar c)).2 }) :=
    readVariable_other (by simp [hkind]) (by simp [hkind])
  have hok := congrArg (fun r : OperandId × Builder => ((.ok r.1 : Except Error OperandId), r.2)) hrun
  exact ⟨⟨b.arena.operands.size⟩, _, hok, newOperand_rests (.scalar c) b⟩

/-- The cases of a jump table are literals. -/
theorem jumpTable_idles {choices : List (Case Expr Stmt)} (h : isJumpTable choices = true) :
    ∀ c ∈ cases choices, ∀ x ∈ c.cond, Idles (current x) := by
  induction choices with
  | nil => exact nofun
  | cons first rest ih =>
    obtain ⟨cond, body, span⟩ := first
    obtain ⟨hcond, hrest⟩ := Bool.and_eq_true_iff.1 h
    refine List.forall_mem_cons.2 ⟨?_, ih hrest⟩
    intro x hx
    match cond, hcond, hx with
    | some (.mk (.literal value) s), _, hx =>
      cases hx
      exact literal_idles value

/-! ### All syntax trees -/

/-- Lowering goes on at the end of an open block. -/
def moving : Law where
  Has := Moves
  unit := .pure
  seq := .bind
  builder := fun _ _ _ h => .of_run rfl h
  fail := .throw
  aside h := modify_moves fun b => (h b).idle
  operand kind := (newOperand_rests kind).moves
  touch id _ _ := (change_rests fun a => .modifyOperand a id _).moves
  noteFunc := (changeFunc_rests (by exact fun _ => rfl)).moves
  noteBlock block := (change_rests fun a => .modifyBlock a block (by exact fun _ => rfl)).moves
  place span hkind _ := (emit_steps hkind span).moves
  result span hmake _ := (emitValue_steps hmake span).moves
  answer span hmake _ := (emitCall_steps hmake span).moves
  leave span hkind _ := endHere_moves hkind span
  version id := (readVariable_reads id).moves
  newVersion id := (writeVariable_reads id).moves
  enclose := enclose_moves
  ternary span hcond htrue hfalse := ternary_moves hcond htrue hfalse span
  ifElse span hcond hbody hfurther hother := ifElse_moves hcond hbody hfurther hother span
  loop span hcond hbody := loop_moves hcond hbody span
  doWhile span hbody hcond := doWhile_moves hbody hcond span
  foreach byRef valueSpan span hsubject hkey hvalue hbody :=
    foreach_moves hsubject hkey hvalue hbody byRef valueSpan span
  switch span hsubject hcases := switch_moves hsubject hcases jumpTable_idles span
  goto := goto_moves
  label name span := (label_steps name span).moves
  tryCatch hbody hcatches hfinish := tryCatch_moves hbody hcatches hfinish
  function name byRef returnType span hparams hsteps :=
    function_moves name hparams byRef returnType hsteps span
  method name modifiers byRef returnType span hparams hsteps :=
    method_moves name modifiers hparams byRef returnType hsteps span
  closure uses byRef isStatic returnType span hparams hsteps :=
    closure_moves hparams uses byRef isStatic returnType hsteps span
  staticVar := staticVar_moves

theorem params_move (l : List (Param Expr)) : ParamsMove (params l) := have_params moving l

/-- Lowering a statement goes on at the end of an open block. -/
theorem stmts_move (l : List Stmt) : ∀ x ∈ stmts l, Moves x := have_stmts moving l

/-! ### Files -/

theorem entry_start (a : Arena) (path : String) (labels : Labels) :
    ((Builder.start a path labels).arena.func (Builder.start a path labels).func).entry =
      ⟨a.blocks.size⟩ := by
  have hlt : a.funcs.size < (a.newFunc Func.mainName).2.funcs.size :=
    Nat.lt_of_lt_of_eq (Nat.lt_succ_self _) (Array.size_push ..).symm
  have hcalm := Calm.modifyFunc (a.newFunc Func.mainName).2 ⟨a.funcs.size⟩
    (f := fun f => { f with file := some path }) fun _ => rfl
  exact (hcalm.entry ⟨a.funcs.size⟩ hlt).trans (entry_newFunc a Func.mainName)

/-- The top level of a file starts in a block that nothing leads to. -/
theorem startable_start {a : Arena} (h : a.Shaped) (path : String) (labels : Labels) :
    Startable True (Builder.start a path labels).arena ⟨a.blocks.size⟩ := by
  have hcalm : Calm a (Builder.start a path labels).arena :=
    (Calm.newFunc a Func.mainName).trans (Calm.modifyFunc _ _ fun _ => rfl)
  have hblock : a.block ⟨a.blocks.size⟩ = default := Arena.block_of_le a (Nat.le_refl _)
  refine ⟨fun _ => hcalm.shaped h, ?_, ?_, ?_, fun _ block hmem => ?_⟩
  · exact Nat.lt_of_lt_of_eq (Nat.lt_succ_self _) (Array.size_push ..).symm
  · rw [hcalm.blocks.preds, hblock]
    rfl
  · rw [hcalm.blocks.ops, hblock]
    exact nofun
  · rw [hcalm.blocks.preds] at hmem
    exact Nat.lt_irrefl _ (h.known hmem)

/-- The top level of a file is lowered as a body of its own. -/
theorem file_grounds {a : Arena} (h : a.Shaped) (path : String) (labels : Labels)
    (file : List Stmt) :
    let start := Builder.start a path labels
    let S : Site := ⟨start.arena, ⟨a.blocks.size⟩, True⟩
    Results S (body start.func [] [] (stmts file)) start fun _ b' => Ground S b'.arena :=
  (body_grounds (params_move []) (stmts_move file) (entry_start a path labels)
    (startable_start h path labels)).mono fun _ _ => And.left

end Lower

/-- Whether lowering a file succeeds or fails, control flow stays well formed. -/
theorem shaped_lowerFile {a : Arena} (h : a.Shaped) (path : String) (labels : Labels)
    (stmts : List Stmt) : (lowerFile a path labels stmts).2.Shaped := by
  have hbody := Lower.file_grounds h path labels stmts
  rw [lowerFile]
  match hrun : (Lower.body (Lower.Builder.start a path labels).func [] []
    (Lower.stmts stmts)).run.run (Lower.Builder.start a path labels) with
  | (.ok _, b) => exact (hbody.ok _ b hrun).shaped trivial
  | (.error e, b) => exact (hbody.error e b hrun).shaped trivial

end QueryTaint
