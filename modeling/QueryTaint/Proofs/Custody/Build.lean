import QueryTaint.Proofs.Custody.Basic
import QueryTaint.Proofs.Lower.Induction

/-!
# Lowering keeps computed values in custody

Each step of lowering works on operands that fit the function whose body is lowered, and on blocks of
this function (`fits`). So where it places an operation that can be folded, the operation reads what
this function or the top level computes.
-/

namespace QueryTaint.Custody

open Lower

variable {b b' b'' : Builder} {G : Set Entry} {α β : Type}

/-- What holds of a builder: the current block is one of the function's, the versions of variables fit
the function, and the values of constants fit the top level, which is listed first. -/
structure Kept (b : Builder) : Prop where
  arena : b.arena.Custody b.script.main
  here : (b.arena.block b.block).func = some b.func
  versions {block : BlockId} {name : String} {x : OperandId} :
    b.scope.lookup block name = some x → b.arena.Fits b.script.main b.func x
  consts {name : String} {x : OperandId} : b.consts.get? name = some x →
    b.arena.Fits b.script.main b.script.main x
  first : b.script.ordered.head? = some b.script.main

/-- Later builders of the same function. -/
structure Later (b b' : Builder) : Prop where
  arena : b.arena.Keeps b'.arena
  main : b'.script.main = b.script.main
  func : b'.func = b.func

/-- The operands that fit the function that is lowered, its blocks, and the functions that there
are. -/
def fits (b : Builder) : Set Entry := {e | match e with
  | .operand x => b.arena.Fits b.script.main b.func x
  | .block block => (b.arena.block block).func = some b.func
  | .func f => f.index < b.arena.funcs.size
  | .op _ => True}

theorem Later.fits (h : Later b b') : fits b ⊆ fits b' := by
  obtain ⟨harena, hmain, hfunc⟩ := h
  intro e he
  cases e with
  | operand x =>
    have he : b.arena.Fits b.script.main b.func x := he
    change b'.arena.Fits b'.script.main b'.func x
    rw [hmain, hfunc]
    exact he.keeps harena
  | block block =>
    have he : (b.arena.block block).func = some b.func := he
    change (b'.arena.block block).func = some b'.func
    rw [hfunc]
    exact harena.toLater.func he
  | func f => exact Nat.lt_of_lt_of_le he harena.funcs
  | op => trivial

/-- What lowering keeps. -/
def regime : Regime Unit where
  Holds _ := Kept
  Later := Later
  known := fits
  Fails b := b.arena.Sound
  refl _ := ⟨.refl _, rfl, rfl⟩
  trans h h' := ⟨h.arena.trans h'.arena, h'.main.trans h.main, h'.func.trans h.func⟩
  keep := Later.fits
  fails h := h.arena.toSound

/-- A step that cannot fail, given what fits the function. -/
abbrev Builds {α : Type} (G : Set Entry) (m : Build α) (out : α → Set Entry) : Prop :=
  regime.Builds G m out

/-- A step that may fail, given what fits the function. -/
abbrev Lowers {α : Type} (G : Set Entry) (x : Lowering α) (out : α → Set Entry) : Prop :=
  regime.Lowers G x out

/-! ## Changes of the builder -/

theorem Kept.later (h : Kept b) {a : Arena} (hcustody : a.Custody b.script.main)
    (hkeeps : b.arena.Keeps a) : Kept { b with arena := a } where
  arena := hcustody
  here := hkeeps.toLater.func h.here
  versions hx := (h.versions hx).keeps hkeeps
  consts hx := (h.consts hx).keeps hkeeps
  first := h.first

/-- The arena changes, and nothing is placed that can be folded. -/
theorem Kept.calm (h : Kept b) {a : Arena} (hcalm : b.arena.Calm a) : Kept { b with arena := a } :=
  h.later (hcalm.custody h.arena) hcalm.keeps

theorem Kept.done (h : Kept b) {a : Arena} (hcalm : b.arena.Calm a) {G : Set Entry}
    (hG : G ⊆ fits { b with arena := a }) : regime.Done () b G { b with arena := a } :=
  ⟨h.calm hcalm, ⟨hcalm.keeps, rfl, rfl⟩, hG⟩

theorem change_builds {f : Arena → Arena}
    (h : ∀ b, Kept b → G ⊆ fits b → b.arena.Calm (f b.arena)) : Builds G (change f) fun _ => ∅ :=
  fun _ b hb hG => hb.done (h b hb hG) (Set.empty_subset _)

theorem modify_builds {f : Builder → Builder}
    (h : ∀ b, Kept b → G ⊆ fits b → Kept (f b) ∧ (f b).arena = b.arena ∧
      (f b).script.main = b.script.main ∧ (f b).func = b.func) :
    Builds G (modify f) fun _ => ∅ := fun _ b hb hG => by
  obtain ⟨hkept, harena, hmain, hfunc⟩ := h b hb hG
  exact ⟨hkept, ⟨harena ▸ .refl _, hmain, hfunc⟩, Set.empty_subset _⟩

theorem aside_builds {f : Builder → Builder} (h : ∀ b, Beside b (f b)) :
    Builds G (modify f : Build Unit) fun _ => ∅ :=
  modify_builds fun b hb _ => by
    obtain ⟨⟨harena, hfunc, hblock, hscope⟩, hconsts, hmain, -, hordered⟩ := h b
    refine ⟨⟨?_, ?_, ?_, ?_, ?_⟩, harena, hmain, hfunc⟩
    · rw [harena, hmain]
      exact hb.arena
    · rw [harena, hblock, hfunc]
      exact hb.here
    · rw [harena, hscope, hmain, hfunc]
      exact hb.versions
    · rw [harena, hconsts, hmain]
      exact hb.consts
    · rw [hordered, hmain]
      exact hb.first

theorem changeScope_builds {f : Scope → Scope}
    (h : ∀ b, Kept b → G ⊆ fits b → ∀ block name x, (f b.scope).lookup block name = some x →
      .operand x ∈ fits b) : Builds G (changeScope f) fun _ => ∅ :=
  modify_builds fun b hb hG =>
    ⟨{ hb with versions := fun hx => h b hb hG _ _ _ hx }, rfl, rfl, rfl⟩

theorem bindIn_builds (block : BlockId) (name : String) {value : OperandId}
    (hvalue : .operand value ∈ G) : Builds G (bindIn block name value) fun _ => ∅ :=
  changeScope_builds fun b hb hG other n x hx => by
    rw [Scope.lookup_bind] at hx
    split at hx
    · exact Option.some.inj hx ▸ hG hvalue
    · exact hb.versions hx

theorem goTo_builds {block : BlockId} (hblock : .block block ∈ G) :
    Builds G (goTo block) fun _ => ∅ :=
  modify_builds fun _ hb hG => ⟨{ hb with here := hG hblock }, rfl, rfl, rfl⟩

/-! ## Operands -/

/-- An operand is made. -/
theorem newOperand_done (hb : Kept b) (kind : OperandKind)
    (hlinks : ∀ y ∈ kind.links, y.index < b.arena.operands.size)
    (howner : ∀ y, kind = .temporary (some y) → b.arena.Primary y) :
    Gives (newOperand kind) b fun x b' => regime.Done () b {.operand x} b' ∧
      (b'.arena.operand x).kind = kind := by
  have hcalm : b.arena.Calm (b.arena.newOperand kind).2 := .newOperand hlinks howner
  refine ⟨hb.done hcalm (Set.singleton_subset_iff.2 ⟨?_, fun g hg => ?_⟩), ?_⟩
  · exact Nat.lt_of_lt_of_eq (Nat.lt_succ_self _) (Array.size_push ..).symm
  · exact absurd (hb.arena.computes_lt (hcalm.computes hg)) (Nat.lt_irrefl _)
  · exact congrArg Operand.kind ((Arena.operand_newOperand ..).trans (if_pos rfl))

theorem newOperand_builds {kind : OperandKind} (hlinks : ∀ x ∈ kind.links, .operand x ∈ G)
    (hkind : ∀ owner, kind ≠ .temporary (some owner)) :
    Builds G (newOperand kind) fun x => {.operand x} := fun _ _ hb hG =>
  (newOperand_done hb kind (fun y hy => (hG (hlinks y hy)).lt) fun y hy => absurd hy (hkind y)).mono
    fun _ _ => And.left

theorem newString_builds (s : String) : Builds G (newString s) fun x => {.operand x} :=
  newOperand_builds nofun nofun

theorem newResult_builds : Builds G (newTemporary none) fun x => {.operand x} :=
  newOperand_builds nofun nofun

theorem newVariable_builds (name : String) : Builds G (newVariable name) fun x => {.operand x} :=
  .bind (newString_builds name) fun _ => newOperand_builds (by simp [OperandKind.links]) (by simp)

/-- A version of an operand that is no intermediate value is made. -/
theorem newVersion_done (hb : Kept b) {var : OperandId} (hvar : b.arena.Primary var) :
    Gives (newTemporary (some var)) b fun x b' => regime.Done () b {.operand x} b' :=
  (newOperand_done hb (.temporary (some var)) (by simpa [OperandKind.links] using hvar.lt) (by
    rintro y hy
    cases hy
    exact hvar)).mono fun _ _ => And.left

/-- A version of a new operand is made. -/
theorem version_builds {kind : OperandKind} (hlinks : ∀ x ∈ kind.links, .operand x ∈ G)
    (hkind : ∀ owner, kind ≠ .temporary owner) :
    Builds G (do newTemporary (some (← newOperand kind))) fun x => {.operand x} :=
  fun _ _ hb hG => by
    refine Gives.bind (newOperand_done hb kind (fun y hy => (hG (hlinks y hy)).lt)
      fun y hy => absurd hy (hkind _)) ?_
    rintro var b₁ ⟨h₁, hvar⟩
    exact (newVersion_done h₁.holds ⟨(h₁.known rfl).lt, hvar.trans_ne (hkind none)⟩).mono
      fun _ _ => h₁.trans

/-! ## Blocks -/

theorem newBlock_builds : Builds G newBlock fun block => {.block block} := fun _ b hb _ => by
  have hlt : b.func.index < b.arena.funcs.size := hb.arena.func_lt hb.here
  have hcalm := Arena.Calm.newBlock b.arena hlt
  refine Gives.get (hb.done hcalm (Set.singleton_subset_iff.2 ?_))
  change ((b.arena.newBlock (some b.func)).2.block ⟨b.arena.blocks.size⟩).func = some b.func
  rw [block_newBlock, if_pos rfl]

theorem calm_builds {f : Arena → Arena} (h : ∀ a : Arena, a.Calm (f a)) :
    Builds G (change f) fun _ => ∅ :=
  change_builds fun b _ _ => h b.arena

theorem goDead_builds : Builds G goDead fun _ => ∅ :=
  .bind newBlock_builds fun block => .bind (calm_builds fun a => .modifyBlock a block
    (by exact fun _ => rfl) (by exact fun _ => rfl)) fun _ => goTo_builds (by simp)

theorem changeFunc_builds {f : Func → Func} (hentry : ∀ r, (f r).entry = r.entry)
    (hblocks : ∀ r, (f r).blocks = r.blocks) : Builds G (changeFunc f) fun _ => ∅ :=
  fun _ b hb _ => hb.done (.modifyFunc b.arena b.func hentry hblocks) (Set.empty_subset _)

theorem guardBlock_builds (block : BlockId) : Builds G (guardBlock block) fun _ => ∅ := by
  refine .get fun _ b _ => calm_builds fun a => ?_
  induction b.scope.conditions.reverse generalizing a with
  | nil => exact .refl a
  | cons cond rest ih => exact (Arena.Calm.addGuard a block cond).trans (ih _)

/-! ## Operations -/

/-- An operation that cannot be folded is made at the end of a block. -/
theorem calm_place {a : Arena} (h : a.Tidy) (kind : OpKind) (hkind : kind.folded? = none)
    (span : Span) (block : BlockId) :
    a.Calm ((a.addOp kind span).2.append block ⟨a.ops.size⟩) := by
  refine (Arena.Calm.addOp h kind span).trans (.append ?_ ?_ block)
  · exact Nat.lt_of_lt_of_eq (Nat.lt_succ_self _) (Array.size_push ..).symm
  · rw [Arena.op_addOp]
    exact (congrArg (OpKind.folded? ∘ Op.kind) (if_pos rfl)).trans hkind

theorem detached_builds (kind : OpKind) (span : Span) : Builds G (detached kind span) fun _ => ∅ :=
  fun _ _ hb _ => hb.done (.addOp hb.arena.toTidy kind span) (Set.empty_subset _)

/-- After an operation is placed, the function may list it. -/
theorem emit_done (kind : OpKind) (span : Span)
    (h : Kept { b with arena := (b.arena.addOp kind span).2.append b.block ⟨b.arena.ops.size⟩ }) :
    Gives (emit kind span) b fun _ b' => regime.Done ()
      { b with arena := (b.arena.addOp kind span).2.append b.block ⟨b.arena.ops.size⟩ } ∅ b' := by
  have hlist (op : OpId) : Builds ∅ (do
      if ← look fun a => kind.reads.any fun id => (a.operand id).tainted then
        changeFunc fun f => { f with sources := f.sources ++ [op] }
      return op) fun _ => ∅ := by
    refine .look fun _ => ?_
    split
    · exact .bind (changeFunc_builds (by exact fun _ => rfl) (by exact fun _ => rfl)) fun _ =>
        .pure (Set.empty_subset _)
    · exact .pure (Set.empty_subset _)
  exact hlist _ h (Set.empty_subset _)

theorem emit_builds {kind : OpKind} (hkind : kind.folded? = none) (span : Span) :
    Builds G (emit kind span) fun _ => ∅ := fun _ b hb _ => by
  have hcalm := calm_place hb.arena.toTidy kind hkind span b.block
  exact (emit_done kind span (hb.calm hcalm)).mono fun _ _ h => (hb.done hcalm (Set.empty_subset _)).trans h

/-- A value is placed that the function computes, from what fits it. -/
theorem emitValue_builds {make : OperandId → OpKind}
    (hreads : ∀ r, ∀ x ∈ (make r).reads, x = r ∨ .operand x ∈ G)
    (hmake : ∀ r, (make r).folded? = none ∨ (make r).folded? = some r) (span : Span) :
    Builds G (emitValue span make) fun x => {.operand x} := fun i b hb hG => by
  rcases hmake ⟨b.arena.operands.size⟩ with hnone | hsome
  · have hresult : Gives (newTemporary none) b fun r b₁ => regime.Done () b {.operand r} b₁ ∧
        r = ⟨b.arena.operands.size⟩ := ⟨newResult_builds (i := i) hb hG, rfl⟩
    refine Gives.bind hresult ?_
    rintro _ b₁ ⟨h₁, rfl⟩
    refine Gives.bind (emit_builds hnone span h₁.holds h₁.known) fun _ b₂ h₂ => ?_
    exact h₁.trans ⟨h₂.holds, h₂.later, h₁.known.trans (Later.fits h₂.later)⟩
  · obtain ⟨hcustody, hkeeps, hfits⟩ := hb.arena.compute span hsome hb.here fun x hx =>
      (hreads _ x hx).imp_right fun hx => hG hx
    have hlater : Later b { b with arena := b.arena.compute make span b.block } := ⟨hkeeps, rfl, rfl⟩
    have h₂ := emit_done (b := { b with arena := (b.arena.newOperand (.temporary none)).2 })
      (make ⟨b.arena.operands.size⟩) span (hb.later hcustody hkeeps)
    exact Gives.bind (P := fun r b₁ => r = ⟨b.arena.operands.size⟩ ∧
      b₁ = { b with arena := (b.arena.newOperand (.temporary none)).2 }) ⟨rfl, rfl⟩
      fun _ _ ⟨hr, hb₁⟩ => hr ▸ hb₁ ▸ h₂.bind fun _ b₂ h₂ =>
        ⟨h₂.holds, regime.trans hlater h₂.later, Set.singleton_subset_iff.2 (Later.fits h₂.later hfits)⟩

theorem emitCall_builds {make : OperandId → OpKind} (hmake : ∀ r, (make r).folded? = none)
    (span : Span) : Builds G (emitCall span make) fun x => {.operand x} :=
  .bind newResult_builds fun r => .bind (emit_builds (hmake r) span) fun _ =>
    .bind (changeFunc_builds (by exact fun _ => rfl) (by exact fun _ => rfl)) fun _ =>
    .pure (by simp)

theorem jump_builds (target : BlockId) (span : Span) : Builds G (jump target span) fun _ => ∅ :=
  .bind (emit_builds rfl span) fun _ => .get fun _ b _ => calm_builds fun a => .link a b.block target

/-! ## Variables -/

/-- A φ without operands is a version of a new variable. -/
theorem newPhi_builds (name : String) : Builds G (newPhi name) fun made => {.operand made.1} := by
  have hphi : newPhi name = (do
      let text ← newString name
      let result ← (do newTemporary (some (← newOperand (.variable text none))))
      return (result, ← detached (.phi [] result) .none)) := rfl
  rw [hphi]
  exact .bind (newString_builds name) fun text => .bind (version_builds (by simp [OperandKind.links])
    nofun) fun result => .bind (detached_builds _ _) fun _ => .pure (by simp)

theorem readInput_builds (tag : String) (block : BlockId) :
    Builds G (readInput tag block) fun x => {.operand x} :=
  .bind (changeFunc_builds (by exact fun _ => rfl) (by exact fun _ => rfl)) fun _ =>
    .bind (calm_builds fun a => .modifyBlock a block (by exact fun _ => rfl) (by exact fun _ => rfl))
    fun _ => .bind (newOperand_builds nofun nofun) fun x =>
    .bind (calm_builds fun a => .modifyOperand a x (by exact fun _ => rfl)) fun _ => .pure (by simp)

theorem addIncoming_builds (phi : OpId) {read : BlockId → Build OperandId} {preds : List BlockId}
    (hread : ∀ pred ∈ preds, Builds G (read pred) fun x => {.operand x}) :
    Builds G (addIncoming phi read preds) fun _ => ∅ := by
  induction preds with
  | nil => exact .pure (Set.empty_subset _)
  | cons pred rest ih =>
    refine .bind (hread pred List.mem_cons_self) fun x =>
      .bind (calm_builds fun a => .addPhiOperand a phi x) fun _ => ?_
    exact (ih fun pred hpred => hread pred (List.mem_cons_of_mem _ hpred)).mono
      (fun e he => by simp [he]) fun _ => subset_rfl

theorem readWithin_builds (name : String) (steps : Nat) (block : BlockId) :
    Builds G (readWithin name steps block) fun x => {.operand x} := by
  induction steps generalizing block G with
  | zero => exact .bind (newPhi_builds name) fun _ => .pure (by simp)
  | succ steps ih =>
    rw [readWithin]
    refine .get fun _ b hb => ?_
    split
    · rename_i value hvalue
      refine .pure ?_
      rintro _ rfl
      exact .inl (hb.versions hvalue)
    · split
      · exact readInput_builds _ block
      · refine .get fun _ b₁ _ => ?_
        split
        · refine .look fun preds => .look fun live => ?_
          dsimp only
          split
          · exact .bind (ih _) fun _ => .bind (bindIn_builds _ _ (by simp)) fun _ => .pure (by simp)
          · exact .bind (newPhi_builds name) fun made =>
              .bind (calm_builds fun a => .attachPhi a block made.2) fun _ =>
              .bind (bindIn_builds _ _ (by simp)) fun _ =>
              .bind (addIncoming_builds _ fun pred _ => ih pred) fun _ => .pure (by simp)
        · exact .bind (newPhi_builds name) fun made =>
            .bind (changeScope_builds fun _ hb _ _ _ _ hx => hb.versions hx) fun _ =>
            .bind (bindIn_builds _ _ (by simp)) fun _ => .pure (by simp)

theorem readName_builds (name : String) (block : BlockId) :
    Builds G (readName name block) fun x => {.operand x} :=
  .look fun _ => readWithin_builds name _ block

theorem readHere_builds (name : String) : Builds G (readHere name) fun x => {.operand x} :=
  .get fun _ _ _ => .bind (readName_builds name _) fun _ =>
    .bind (modify_builds fun _ hb _ => ⟨{ hb with }, rfl, rfl, rfl⟩) fun _ => .pure (by simp)

theorem completePhis_builds (pending : List PendingPhi) :
    Builds G (completePhis pending) fun _ => ∅ := by
  induction pending generalizing G with
  | nil => exact .pure (Set.empty_subset _)
  | cons p rest ih =>
    exact .look fun live => .bind (addIncoming_builds _ fun pred _ => readName_builds p.name pred)
      fun _ => .bind (calm_builds fun a => .attachPhi a p.block p.phi) fun _ => ih

/-- The current version of an operand fits the function if the operand does; the operand of an
assertion need not. -/
theorem readVariable_finds (id : OperandId) :
    Builds G (readVariable id) fun x => {e | e = .operand x ∧ .operand id ∈ G} := by
  induction id using WellFounded.induction (measure OperandId.index).wf generalizing G with
  | _ id ih =>
    rw [readVariable]
    refine .get fun _ b hb => ?_
    have hself : Builds (fits b ∪ G) (pure id) fun x => {e | e = .operand x ∧ .operand id ∈ G} :=
      .pure fun e he => he.1 ▸ .inr he.2
    split
    · rename_i name value hkind
      split
      · exact (readHere_builds _).mono subset_rfl fun x e he => he.1
      · split
        · rename_i hlt
          exact .bind (ih name hlt) fun _ => .pure fun e he => .inr (he.1 ▸ .inr he.2)
        · exact hself
    · rename_i owner hkind
      have howner : Builds (fits b ∪ G)
          (if _h : owner.index < id.index then readVariable owner else pure id)
          fun x => {e | e = .operand x ∧ .operand id ∈ G} := by
        split
        · rename_i hlt
          exact (ih owner hlt).mono subset_rfl fun x e he =>
            ⟨he.1, .inl (hb.arena.toSound.fits (hb.arena.owner hkind))⟩
        · exact hself
      dsimp only
      split
      · split
        · exact hself
        · exact howner
      · exact howner
    · exact hself

theorem readVariable_builds {id : OperandId} (hid : .operand id ∈ G) :
    Builds G (readVariable id) fun x => {.operand x} :=
  (readVariable_finds id).mono subset_rfl fun _ _ he => ⟨he, hid⟩

/-- A version belongs at last to an operand that is no intermediate value. -/
theorem rootOf_primary {a : Arena} (h : a.Rooted) (id : OperandId) :
    rootOf a id = id ∨ a.Primary (rootOf a id) := by
  induction id using WellFounded.induction (measure OperandId.index).wf with
  | _ id ih =>
    rw [rootOf]
    split
    · rename_i owner hkind
      split
      · rename_i hlt
        rcases ih owner hlt with heq | howner
        · rw [heq]
          exact .inr (h.owner hkind)
        · exact .inr howner
      · exact .inl rfl
    · exact .inl rfl

/-- A new version fits the function; an operand that has none does so if it did before. -/
theorem writeVariable_finds (id : OperandId) :
    Builds G (writeVariable id) fun x => {e | e = .operand x ∧ .operand id ∈ G} := fun i b hb hG => by
  refine Gives.get ?_
  dsimp only
  have hroot := rootOf_primary hb.arena.toRooted id
  generalize rootOf b.arena id = var at hroot
  have hself : Builds ({e | e = .operand var ∧ .operand id ∈ G} ∪ G) (pure var)
      fun x => {e | e = .operand x ∧ .operand id ∈ G} := .pure fun e he => .inl he
  have hvar : {e | e = .operand var ∧ .operand id ∈ G} ∪ G ⊆ fits b := by
    rintro e (⟨rfl, hid⟩ | he)
    · rcases hroot with rfl | hprimary
      · exact hG hid
      · exact hb.arena.toSound.fits hprimary
    · exact hG he
  split
  · rename_i name value hkind
    have hprimary : b.arena.Primary var :=
      ⟨Arena.lt_of_kind fun c => by simp [hkind], by simp [hkind]⟩
    split
    · rename_i text hname
      have hbind (x : OperandId) (b' : Builder) (h : regime.Done () b {.operand x} b') :
          Gives (do
            bindIn b.block text x
            return x) b' fun x b' =>
            regime.Done () b {e | e = .operand x ∧ .operand id ∈ G} b' := by
        have hx : Builds {.operand x} (do
            bindIn b.block text x
            return x) fun x => {e | e = .operand x ∧ .operand id ∈ G} :=
          .bind (bindIn_builds _ _ rfl) fun _ => .pure fun e he => .inr he.1
        exact (hx h.holds h.known).mono fun _ _ => h.trans
      split
      · refine Gives.bind (P := fun v b₁ => v = var ∧ b₁ = b) ⟨rfl, rfl⟩ ?_
        rintro _ _ ⟨rfl, rfl⟩
        exact Gives.bind (newVersion_done hb hprimary) hbind
      · have hlink : name ∈ (b.arena.operand var).kind.links := by simp [hkind, OperandKind.links]
        have hnamed : b.arena.Primary name := ⟨hb.arena.linked hlink, fun hnone => by
          simp [Arena.stringOf?, hnone, OperandKind.string?] at hname⟩
        have hversion : Builds {.operand name} (do
            newTemporary (some (← newOperand (.variable name none)))) fun x => {.operand x} :=
          version_builds (by simp [OperandKind.links]) (by simp)
        have hgives := Gives.bind (hversion hb (Set.singleton_subset_iff.2
          (hb.arena.toSound.fits hnamed))) hbind
        exact hgives
    · exact Gives.bind (readVariable_finds name hb hvar) fun _ b₁ h₁ =>
        (hself h₁.holds (hvar.trans (Later.fits h₁.later))).mono fun _ _ => h₁.trans
  · exact hself hb hvar

theorem writeVariable_builds {id : OperandId} (hid : .operand id ∈ G) :
    Builds G (writeVariable id) fun x => {.operand x} :=
  (writeVariable_finds id).mono subset_rfl fun _ _ he => ⟨he, hid⟩

mutual

theorem readAssertion_builds : ∀ s : Assertion, Builds G (readAssertion s) fun _ => ∅
  | .type value negated => by
    rw [readAssertion]
    exact .bind (readVariable_finds value) fun _ => .pure (Set.empty_subset _)
  | .composite children mode negated => by
    rw [readAssertion]
    exact .bind (readAssertions_builds children) fun _ => .pure (Set.empty_subset _)

theorem readAssertions_builds : ∀ l : List Assertion, Builds G (readAssertions l) fun _ => ∅
  | [] => by
    rw [readAssertions]
    exact .pure (Set.empty_subset _)
  | s :: rest => by
    rw [readAssertions]
    exact .bind (readAssertion_builds s) fun _ => .bind ((readAssertions_builds rest).mono
      Set.subset_union_right fun _ => subset_rfl) fun _ => .pure (Set.empty_subset _)

end

/-! ## Assertions -/

theorem assertIn_builds {block : BlockId} (hblock : .block block ∈ G) (negated : Bool)
    (asserted : VarAssertion) : Builds G (assertIn block negated asserted) fun _ => ∅ := by
  refine .look fun _ => ?_
  split
  · exact .bind (goTo_builds hblock) fun _ => .bind (readVariable_finds _) fun _ =>
      .bind (writeVariable_finds _) fun _ => .bind (readAssertion_builds _) fun _ =>
      .bind (emit_builds rfl .none) fun _ => .pure (Set.empty_subset _)
  · exact .pure (Set.empty_subset _)

theorem assertBranches_builds (cond : OperandId) {ifBlock elseBlock : BlockId}
    (hif : .block ifBlock ∈ G) (helse : .block elseBlock ∈ G) :
    Builds G (assertBranches cond ifBlock elseBlock) fun _ => ∅ :=
  .get fun _ _ hb => .look fun _ => .bind (.forM fun asserted _ =>
    .bind (assertIn_builds (.inr hif) false asserted) fun _ =>
    assertIn_builds (.inr (.inr helse)) true asserted) fun _ => goTo_builds (.inr (.inl hb.here))

theorem addAssertion_builds (cond var : OperandId) (assertion : Assertion) :
    Builds G (addAssertion cond var assertion) fun _ => ∅ :=
  calm_builds fun a => .modifyOperand a cond (by exact fun _ => rfl)

theorem copyAssertions_builds (edit : Assertion → Assertion) (source cond : OperandId) :
    Builds G (copyAssertions edit source cond) fun _ => ∅ :=
  .look fun _ => .forM fun _ _ => addAssertion_builds _ _ _

theorem assertType_builds (negated : Bool) (left right result : OperandId) :
    Builds G (assertType negated left right result) fun _ => ∅ := by
  refine .look fun _ => ?_
  split
  · exact .bind (newString_builds _) fun _ => addAssertion_builds _ _ _
  · exact .pure (Set.empty_subset _)

/-! ## Known values -/

theorem valueOf_lt {a : Arena} (h : a.Rooted) {id : OperandId} (hid : id.index < a.operands.size) :
    (a.valueOf id).index < a.operands.size :=
  Arena.valueWithin_mem (S := {e | ∀ x, e = .operand x → x.index < a.operands.size})
    (fun _ _ _ hy _ hz => Entry.operand.inj hz ▸ h.linked hy) _ (fun _ hx => Entry.operand.inj hx ▸ hid)
    _ rfl

/-- A constant that is assigned becomes the known value of the target. -/
theorem settle_lowers (whole : Bool) {value target result : OperandId} (hvalue : .operand value ∈ G)
    (hresult : .operand result ∈ G) : Lowers G (do
      let resolved ← look (·.valueOf value)
      let kind ← look fun a => (a.operand resolved).kind
      if whole && kind.isConstantLike then
        change (·.setValue target resolved)
        return if kind.scalar?.isSome then resolved else result
      else return result) fun x => {.operand x} := fun _ b hb hG => by
  refine Regime.Ends.look (Regime.Ends.look ?_)
  have hlt := valueOf_lt hb.arena.toRooted (hG hvalue).lt
  generalize b.arena.valueOf value = resolved at hlt
  split
  · have hcalm := Arena.Calm.setValue hlt target
    refine Regime.Ends.bind
      (P := fun _ b₁ => b₁ = { b with arena := b.arena.setValue target resolved }) (.lift rfl) ?_
    rintro _ _ rfl
    refine .of_run rfl (hb.done hcalm (Set.singleton_subset_iff.2 ?_))
    split
    · rename_i hscalar
      have hprimary : b.arena.Primary resolved := ⟨hlt, fun hnone => by
        simp [hnone, OperandKind.scalar?] at hscalar⟩
      exact (hb.arena.toSound.fits hprimary).keeps hcalm.keeps
    · exact (hG hresult).keeps hcalm.keeps
  · exact .of_run rfl ⟨hb, regime.refl b, Set.singleton_subset_iff.2 (hG hresult)⟩

/-- A constant is known in all of the file once the top level defines it. -/
theorem define_builds (name : String) {value : OperandId} (hvalue : .operand value ∈ G) :
    Builds G (define name value) fun _ => ∅ := by
  refine modify_builds fun b hb hG => ?_
  split
  · rename_i hmain
    refine ⟨{ hb with consts := fun {n x} hx => ?_ }, rfl, rfl, rfl⟩
    rw [Std.TreeMap.get?_eq_getElem?, Std.TreeMap.getElem?_insert] at hx
    split at hx
    · have hfits : b.arena.Fits b.script.main b.func value := hG hvalue
      rw [hmain] at hfits
      exact Option.some.inj hx ▸ hfits
    · exact hb.consts hx
  · exact ⟨hb, rfl, rfl, rfl⟩

/-! ## Labels -/

theorem goto_lowers (label : String) (span : Span) : Lowers G (goto label span) fun _ => ∅ := by
  refine .get fun _ b _ => ?_
  split
  · exact .bind (.lift (jump_builds _ span)) fun _ => .lift goDead_builds
  · exact .get fun _ b₁ _ => .bind (.lift (changeScope_builds fun _ hb _ _ _ _ hx =>
      hb.versions hx)) fun _ => .lift goDead_builds

/-- A jump that waited for a label is made. -/
theorem lateJump_builds (source block : BlockId) (span : Span) :
    Builds G (do
      let op ← detached (.jump block) span
      change fun a => (a.append source op).link source block) fun _ => ∅ := fun _ b hb _ => by
  have hcalm := (calm_place hb.arena.toTidy (.jump block) rfl span source).trans
    (.link _ source block)
  exact Gives.bind (P := fun op b₁ => op = ⟨b.arena.ops.size⟩ ∧
    b₁ = { b with arena := (b.arena.addOp (.jump block) span).2 }) ⟨rfl, rfl⟩
    fun _ _ ⟨hop, hb₁⟩ => hop ▸ hb₁ ▸ hb.done hcalm (Set.empty_subset _)

theorem label_builds (name : String) (span : Span) : Builds G (label name span) fun _ => ∅ := by
  refine .get fun _ _ _ => ?_
  split
  · exact .pure (Set.empty_subset _)
  · refine .bind newBlock_builds fun block => .bind (jump_builds block span) fun _ =>
      .bind (guardBlock_builds block) fun _ => .get fun _ b₁ _ => ?_
    dsimp only
    exact .bind (.forM fun g _ => lateJump_builds g.2 block span) fun _ =>
      .bind (changeScope_builds fun _ hb _ _ _ _ hx => hb.versions hx) fun _ => goTo_builds (by simp)

/-! ## The basic steps -/

/-- A φ joins values in a new block. -/
theorem join_lowers {x : BlockId → Lowering (List OperandId)} (span : Span)
    (hx : ∀ last, Lowers ({.block last} ∪ G) (x last) Entry.operands) : Lowers G (do
      let last ← newBlock
      let values ← x last
      let result ← newTemporary none
      let phi ← detached (.phi values result) span
      change (·.attachPhi last phi)
      return result) fun x => {.operand x} :=
  .bind (.lift newBlock_builds) fun last => .bind (hx last) fun _ => .bind (.lift newResult_builds)
    fun _ => .bind (.lift (detached_builds _ span)) fun phi =>
    .bind (.lift (calm_builds fun a => .attachPhi a last phi)) fun _ => .pure (by simp)

theorem under_lowers {cond : OperandId} {x : Lowering α} {out : α → Set Entry}
    (hx : Lowers G x out) : Lowers G (Lower.under cond x) out :=
  .bind (.lift (changeScope_builds fun _ hb _ _ _ _ h => hb.versions h)) fun _ =>
    .bind (hx.mono Set.subset_union_right fun _ => subset_rfl) fun _ =>
    .bind (.lift (changeScope_builds fun _ hb _ _ _ _ h => hb.versions h)) fun _ => .pure (by simp)

theorem held_subset_fits (hb : Kept b) : b.held ⊆ fits b := by
  rintro _ (_ | hconst)
  · exact hb.here
  · obtain ⟨hlt, hcomputes⟩ := hb.consts hconst
    exact ⟨hlt, fun g hg => .inr ((hcomputes g hg).elim id id)⟩

/-- Lowering keeps computed values in custody. -/
def custody : Logic where
  Lowers := Lowers
  unit := .pure
  seq := .bind
  weaken h := h.mono
  builder := fun {G} => by
    have hget : Lowers G (get >>= pure : Lowering Builder) Builder.held :=
      .get fun _ b hb => .pure fun _ he => .inl (held_subset_fits hb he)
    exact hget
  fail := .throw
  aside h := .lift (aside_builds h)
  define name h := .lift (define_builds name h)
  operand hlinks _ hkind := .lift (newOperand_builds hlinks hkind)
  version hlinks _ hkind := .lift (version_builds hlinks hkind)
  noteFunc := fun {G} =>
    have hnote : Builds G (changeFunc fun f => { f with readsInput := true }) fun _ => ∅ :=
      changeFunc_builds (by exact fun _ => rfl) (by exact fun _ => rfl)
    .lift hnote
  mark _ hf := .lift (calm_builds fun a => .modifyBlock a _ hf.ops hf.func)
  newBlock := fun {G} =>
    have hnew : Builds G newBlock fun block => {.block block} := newBlock_builds
    .lift hnew
  goTo h := .lift (goTo_builds h)
  link _ _ := .lift (calm_builds fun a => .link a _ _)
  addGuard _ _ := .lift (calm_builds fun a => .addGuard a _ _)
  guardBlock _ := .lift (guardBlock_builds _)
  under _ := under_lowers
  place span _ _ hkind := .lift (emit_builds (OpKind.folded?_of_sole? hkind) span)
  result span hwithin _ hsole := .lift (emitValue_builds
    (fun r x hx => ((hwithin r).1 x (OpKind.mem_operands_of_mem_reads hx)).imp_left
      Entry.operand.inj)
    (fun r => (OpKind.folded?_eq_sole? _).elim .inl fun heq => heq ▸ hsole r) span)
  answer span _ hsole := .lift (emitCall_builds (fun r => OpKind.folded?_of_sole? (hsole r)) span)
  condition span _ _ _ := .bind (.lift newResult_builds) fun r =>
    .bind (.lift (detached_builds _ span)) fun _ => .pure (by simp)
  join := join_lowers
  read h := .lift (readVariable_builds h)
  write h := .lift (writeVariable_builds h)
  settle whole hvalue _ hresult := settle_lowers whole hvalue hresult
  addAssertion assertion _ _ := .lift (addAssertion_builds _ _ assertion)
  copyAssertions edit _ _ := .lift (copyAssertions_builds edit _ _)
  assertType negated _ _ _ := .lift (assertType_builds negated _ _ _)
  assertBranches _ hif helse := .lift (assertBranches_builds _ hif helse)
  goto := goto_lowers
  label name span := .lift (label_builds name span)

end QueryTaint.Custody
