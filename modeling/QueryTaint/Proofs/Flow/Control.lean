import QueryTaint.Lower.Control
import QueryTaint.Proofs.Flow.Value

/-!
# Statements build control flow

Each way of building a statement goes on at the end of an open block if the steps that lower its parts
do. The blocks that a statement makes are in reserve until it goes on in them: no part of the
statement can end them or lead to them, so that every one is entered and left as the statement means
it.
-/

namespace QueryTaint.Lower

variable {S : Site} {R : Reserve} {b b' : Builder}

theorem inOrder_moves {steps : List (Lowering Unit)} (h : ∀ x ∈ steps, Moves x) :
    Moves (inOrder steps) :=
  .forM h

theorem ifGiven_moves {step : Option (Lowering Unit)} (h : ∀ x ∈ step, Moves x) :
    Moves (ifGiven step) := by
  cases step with
  | none => exact .pure ()
  | some x => exact h x rfl

/-! ## Entering and leaving blocks -/

theorem Standing.feed (h : Standing S R b) {block : BlockId}
    (hblock : (b.arena.block block).preds ≠ []) : Standing S (R.feed block) b :=
  { h with fed := fun other hother => hother.elim (fun heq => heq ▸ hblock) (h.fed other) }

theorem goTo_ready {block : BlockId} (h : Standing S (R.keep block) b) :
    Gives (goTo block) b fun _ b' => Ready S R b' :=
  h.goTo

/-- The current block is left for a block in reserve. -/
theorem jump_stands (h : Ready S R b) {target : BlockId} (ht : R.targets target)
    (hway : target ∈ R.opens ∨ R.fed target) (hw : R.watched target = none) (span : Span) :
    Gives (jump target span) b fun _ b' => Standing S (R.feed target) b' := by
  refine (jump_leaves h (h.standing.reach ht hway h.free) span).mono ?_
  rintro _ b' ⟨h', -, hmem⟩
  rw [Reserve.linked_of_unwatched hw] at h'
  exact h'.feed (List.ne_nil_of_mem hmem)

/-- The current block is left for one of two blocks in reserve, where what the condition asserts is
put. -/
theorem branchOff_stands {β : Type} {Q : β → Builder → Prop} (h : Ready S R b) (cond : OperandId)
    {ifBlock elseBlock : BlockId} (hif : R.targets ifBlock) (helse : R.targets elseBlock)
    (hifWay : ifBlock ∈ R.opens ∨ R.fed ifBlock) (helseWay : elseBlock ∈ R.opens ∨ R.fed elseBlock)
    (hifUnwatched : R.watched ifBlock = none) (helseUnwatched : R.watched elseBlock = none)
    (span : Span) {next : Lowering β} (hnext : ∀ b', Standing S R b' → Results S next b' Q) :
    Results S (do
      jumpIf cond ifBlock elseBlock span
      assertBranches cond ifBlock elseBlock
      next) b Q := by
  refine Results.bind (.lift (jumpIf_leaves h cond (h.standing.reach hif hifWay h.free)
    (h.standing.reach helse helseWay h.free) span)) ?_
  rintro _ b₁ ⟨h₁, -⟩
  rw [Reserve.linked_of_unwatched hifUnwatched, Reserve.linked_of_unwatched helseUnwatched] at h₁
  refine Results.bind (.lift (assertBranches_stands h₁ cond (h₁.targets ifBlock hif).holds
    (h₁.targets elseBlock helse).holds)) ?_
  exact fun _ b₂ h₂ => hnext b₂ h₂

/-- A step that is run under one more condition does what it does. -/
theorem under_results {α : Type} {x : Lowering α} {Q : α → Builder → Prop} (cond : OperandId)
    (hx : ∀ b₁, Idle b b₁ → Results S x b₁ Q)
    (hQ : ∀ y b₁ b₂, Q y b₁ → Idle b₁ b₂ → Q y b₂) : Results S (under cond x) b Q := by
  refine Results.bind (.lift (changeConditions_rests (cond :: ·) b)) fun _ b₁ h₁ => ?_
  refine Results.bind (hx b₁ h₁) fun y b₂ hy => ?_
  refine Results.bind (.lift (changeConditions_rests List.tail b₂)) fun _ b₃ h₃ => ?_
  exact Results.pure (hQ y b₂ b₃ hy h₃)

/-- Lowering goes on in a block that was kept, under one more condition. -/
theorem underIn_results {α : Type} {x : Lowering α} {Q : α → Builder → Prop} {block : BlockId}
    (h : Standing S (R.keep block) b) (cond : OperandId)
    (hx : ∀ b₁, Ready S R b₁ → Results S x b₁ Q)
    (hQ : ∀ y b₁ b₂, Q y b₁ → Idle b₁ b₂ → Q y b₂) :
    Results S (under cond do
      guardBlock block
      goTo block
      x) b Q := by
  refine under_results cond (fun b₁ h₁ => ?_) hQ
  refine Results.bind (.lift (guardBlock_rests block b₁)) fun _ b₂ h₂ => ?_
  exact Results.bind (.lift (goTo_ready (h.idle (h₁.trans h₂)))) fun _ b₃ h₃ => hx b₃ h₃

theorem underIn_stands {x : Lowering Unit} {T : Reserve} {block : BlockId}
    (h : Standing S (R.keep block) b) (cond : OperandId)
    (hx : ∀ b₁, Ready S R b₁ → Results S x b₁ fun _ b' => Standing S T b') :
    Results S (under cond do
      guardBlock block
      goTo block
      x) b fun _ b' => Standing S T b' :=
  underIn_results h cond hx fun _ _ _ => Standing.idle

/-! ## Branches -/

/-- What is left of a reserve when two blocks were entered by jumps and lowering goes on in them. -/
theorem Reserve.within_pair (R : Reserve) (first second : BlockId) :
    ((R.keep second).keep first).Within ((R.reserve first).reserve second) :=
  ⟨(List.Perm.swap ..).subperm, fun _ h => .inr (.inr h), fun _ => id, fun _ _ => id,
    fun _ _ => id, fun _ _ => id⟩

theorem branch_stands {last : BlockId} (hlast : R.targets last)
    (hway : last ∈ R.opens ∨ R.fed last) (hw : R.watched last = none) (span : Span)
    {cond : Lowering OperandId} (hcond : Moves cond) {body otherwise : Lowering Unit}
    (hbody : Moves body)
    (hother : ∀ b, Ready S R b → Results S otherwise b fun _ b' => Standing S R b')
    (h : Ready S R b) :
    Results S (branch last span cond body otherwise) b fun _ b' => Standing S R b' := by
  refine Results.bind (current_moves hcond h) fun c b₁ h₁ => ?_
  refine Results.bind (.lift (newBlock_ready h₁)) ?_
  rintro ifBlock b₂ ⟨h₂, hif, -⟩
  refine Results.bind (.lift (newBlock_ready h₂)) ?_
  rintro elseBlock b₃ ⟨h₃, helse, -⟩
  refine branchOff_stands h₃ c (.inr (.inl rfl)) (.inl rfl)
    (.inl (List.mem_cons_of_mem _ List.mem_cons_self)) (.inl List.mem_cons_self) hif.unwatched
    helse.unwatched span fun b₄ h₄ => ?_
  refine Results.bind (underIn_stands (T := R.keep elseBlock)
    (h₄.within (R.within_pair ifBlock elseBlock)) c fun b₅ h₅ => ?_) fun _ b₅ h₅ => ?_
  · refine Results.bind (hbody h₅) fun _ b₆ h₆ => ?_
    have hway : last ∈ elseBlock :: R.opens ∨ R.fed last := hway.imp_left (List.mem_cons_of_mem _)
    exact Results.lift ((jump_stands h₆ hlast hway hw span).mono fun _ b₇ h₇ =>
      h₇.within (Reserve.within_feed _ last))
  · refine Results.bind (.lift (negate_rests c b₅)) fun negated b₆ h₆ => ?_
    exact underIn_stands (h₅.idle h₆) negated hother

theorem branches_stands {last : BlockId} (hlast : R.targets last)
    (hway : last ∈ R.opens ∨ R.fed last) (hw : R.watched last = none)
    {otherwise : Option (Lowering Unit)} (hother : ∀ x ∈ otherwise, Moves x)
    {further : List (ElseIf (Lowering OperandId) (Lowering Unit))}
    (hfurther : ∀ e ∈ further, Moves e.cond ∧ ∀ x ∈ e.body, Moves x) (span : Span)
    {cond : Lowering OperandId} (hcond : Moves cond) {body : Lowering Unit} (hbody : Moves body)
    (h : Ready S R b) :
    Results S (branches last span cond body further otherwise) b fun _ b' => Standing S R b' := by
  induction further generalizing b span cond body with
  | nil =>
    refine branch_stands hlast hway hw span hcond hbody (fun b₁ h₁ => ?_) h
    refine Results.bind (ifGiven_moves hother h₁) fun _ b₂ h₂ => ?_
    exact Results.lift ((jump_stands h₂ hlast hway hw span).mono fun _ b₃ h₃ =>
      h₃.within (R.within_feed last))
  | cons next rest ih =>
    obtain ⟨⟨hnext, hinside⟩, hrest⟩ := List.forall_mem_cons.1 hfurther
    refine branch_stands hlast hway hw span hcond hbody (fun b₁ h₁ => ?_) h
    exact ih hrest next.span hnext (inOrder_moves hinside) h₁

/-- Lowering goes on in a block that was made for it. -/
theorem goToReserved_ready {block : BlockId} (h : Standing S (R.reserve block) b) :
    Gives (goTo block) b fun _ b' => Ready S R b' :=
  (h.within ((R.keep block).within_aim block)).goTo

theorem ifElse_moves {cond : Lowering OperandId} {body : Lowering Unit}
    {further : List (ElseIf (Lowering OperandId) (Lowering Unit))}
    {otherwise : Option (Lowering Unit)} (hcond : Moves cond) (hbody : Moves body)
    (hfurther : ∀ e ∈ further, Moves e.cond ∧ ∀ x ∈ e.body, Moves x)
    (hother : ∀ x ∈ otherwise, Moves x) (span : Span) :
    Moves (ifElse cond body further otherwise span) := by
  intro S R b h
  refine Results.bind (.lift (newBlock_ready h)) ?_
  rintro last b₁ ⟨h₁, hlast, -⟩
  refine Results.bind (branches_stands (R := R.reserve last) (.inl rfl) (.inl List.mem_cons_self) hlast.unwatched hother
    hfurther span hcond hbody h₁) fun _ b₂ h₂ => ?_
  exact Results.lift (goToReserved_ready h₂)

/-! ## Loops -/

theorem leaveLoop_results {last : BlockId} (h : Standing S (R.keep last) b) (cond : OperandId) :
    Results S (leaveLoop cond last) b fun _ b' => Ready S R b' := by
  refine Results.bind (.lift (negate_rests cond b)) fun negated b₁ h₁ => ?_
  refine Results.bind (P := fun _ b₂ => Idle b₁ b₂) (under_results negated
    (fun b₂ h₂ => ?_) fun _ _ _ => Idle.trans) fun _ b₂ h₂ => ?_
  · exact Results.lift ((guardBlock_rests last b₂).mono fun _ _ => h₂.trans)
  · exact Results.lift (h.idle (h₁.trans h₂)).goTo

/-- What is in reserve where the condition of a loop is tested. -/
def Reserve.looping (R : Reserve) (header inside last : BlockId) : Reserve :=
  (((R.reserve last).reserve inside).aim header).feed header

/-- What is in reserve inside a loop. -/
def Reserve.repeating (R : Reserve) (header last : BlockId) : Reserve :=
  ((R.keep last).aim header).feed header

theorem Reserve.within_looping (R : Reserve) (header inside last : BlockId) :
    ((R.looping header inside last).keep header).Within
      ((((R.reserve header).reserve inside).reserve last).feed header) where
  opens := ((List.reverse_perm [last, inside, header]).append_right R.opens).subperm
  targets block h := by
    rcases h with h | h | h | h
    · exact .inr (.inr (.inl h))
    · exact .inr (.inl h)
    · exact .inl h
    · exact .inr (.inr (.inr h))
  fed _ := id
  watched _ _ := id
  deaths _ _ := id
  entries _ _ := id

theorem Reserve.within_repeating (R : Reserve) (header inside last : BlockId) :
    ((R.repeating header last).keep inside).Within (R.looping header inside last) :=
  { Within.refl (R.looping header inside last) with
    targets := fun _ h => h.imp_right fun h => .inr (.inr h) }

theorem Reserve.within_left (R : Reserve) (header last : BlockId) :
    (R.keep last).Within (R.repeating header last) :=
  ((R.keep last).within_aim header).trans (Reserve.within_feed _ header)

/-- The blocks of a loop are made, and lowering goes on where its condition is tested. -/
theorem enterLoop_results {β : Type} {Q : β → Builder → Prop} (h : Ready S R b) (span : Span)
    {next : BlockId → BlockId → BlockId → Lowering β}
    (hnext : ∀ header inside last b', R.watched header = none → R.watched inside = none →
      R.watched last = none → Ready S (R.looping header inside last) b' →
      Results S (next header inside last) b' Q) :
    Results S (do
      let header ← newBlock
      let inside ← newBlock
      let last ← newBlock
      jump header span
      goTo header
      next header inside last) b Q := by
  refine Results.bind (.lift (newBlock_ready h)) ?_
  rintro header b₁ ⟨h₁, hheader, -⟩
  refine Results.bind (.lift (newBlock_ready h₁)) ?_
  rintro inside b₂ ⟨h₂, hinside, -⟩
  refine Results.bind (.lift (newBlock_ready h₂)) ?_
  rintro last b₃ ⟨h₃, hlast, -⟩
  refine Results.bind (.lift (jump_stands h₃ (.inr (.inr (.inl rfl)))
    (.inl (List.mem_cons_of_mem _ (List.mem_cons_of_mem _ List.mem_cons_self))) hheader.unwatched
    span)) fun _ b₄ h₄ => ?_
  refine Results.bind (.lift (goTo_ready (h₄.within (R.within_looping header inside last))))
    fun _ b₅ h₅ => ?_
  exact hnext header inside last b₅ hheader.unwatched hinside.unwatched hlast.unwatched h₅

/-- The end of the inside of a loop leads back. -/
theorem repeat_stands {header last : BlockId} (h : Ready S (R.repeating header last) b)
    (hw : R.watched header = none) (span : Span) :
    Gives (jump header span) b fun _ b' => Standing S (R.keep last) b' :=
  (jump_stands h (.inl rfl) (.inr (.inl rfl)) hw span).mono fun _ _ h' =>
    h'.within ((R.within_left header last).trans (Reserve.within_feed _ header))

theorem loop_moves {cond : Lowering OperandId} {body : Lowering Unit} (hcond : Moves cond)
    (hbody : Moves body) (span : Span) : Moves (loop cond body span) := by
  intro S R b h
  refine enterLoop_results h span fun header inside last b₁ hheader hinside hlast h₁ => ?_
  refine Results.bind (hcond h₁) fun c b₂ h₂ => ?_
  refine branchOff_stands h₂ c (.inr (.inl rfl)) (.inr (.inr (.inl rfl)))
    (.inl List.mem_cons_self) (.inl (List.mem_cons_of_mem _ List.mem_cons_self)) hinside hlast span
    fun b₃ h₃ => ?_
  refine Results.bind (underIn_stands (T := R.keep last)
    (h₃.within (R.within_repeating header inside last)) c fun b₄ h₄ => ?_) fun _ b₄ h₄ => ?_
  · exact Results.bind (hbody h₄) fun _ b₅ h₅ => Results.lift (repeat_stands h₅ hheader span)
  · exact leaveLoop_results h₄ c

theorem doWhile_moves {body : Lowering Unit} {cond : Lowering OperandId} (hbody : Moves body)
    (hcond : Moves cond) (span : Span) : Moves (doWhile body cond span) := by
  intro S R b h
  refine Results.bind (.lift (newBlock_ready h)) ?_
  rintro inside b₁ ⟨h₁, hinside, -⟩
  refine Results.bind (.lift (newBlock_ready h₁)) ?_
  rintro last b₂ ⟨h₂, hlast, -⟩
  refine Results.bind (.lift (jump_stands h₂ (.inr (.inl rfl))
    (.inl (List.mem_cons_of_mem _ List.mem_cons_self)) hinside.unwatched span)) fun _ b₃ h₃ => ?_
  -- the start of the inside stays a target until the condition is tested
  have hinside₃ : Standing S ((((R.reserve last).aim inside).feed inside).keep inside) b₃ := by
    refine h₃.within ?_
    refine ⟨(List.Perm.swap ..).subperm, fun _ hX => ?_, fun _ => id, fun _ _ => id, fun _ _ => id,
      fun _ _ => id⟩
    rcases hX with hX | hX | hX
    · exact .inr (.inl hX)
    · exact .inl hX
    · exact .inr (.inr hX)
  refine Results.bind (.lift (goTo_ready hinside₃)) fun _ b₄ h₄ => ?_
  refine Results.bind (hbody h₄) fun _ b₅ h₅ => ?_
  refine Results.bind (current_moves hcond h₅) fun c b₆ h₆ => ?_
  refine branchOff_stands h₆ c (.inl rfl) (.inr (.inl rfl)) (.inr (.inl rfl))
    (.inl List.mem_cons_self) hinside.unwatched hlast.unwatched span fun b₇ h₇ => ?_
  refine leaveLoop_results (h₇.within ?_) c
  exact ((Reserve.within_aim _ last).trans (Reserve.within_aim _ inside)).trans
    (Reserve.within_feed _ inside)

/-- The rest of a loop over a value, where each element is taken. -/
theorem takeElement_results {value : OperandId → Lowering Unit} (hvalue : ∀ v, Moves (value v))
    {body : Lowering Unit} (hbody : Moves body) {header last : BlockId}
    (h : Ready S (R.repeating header last) b) (hw : R.watched header = none) (subject : OperandId)
    (byRef : Bool) (valueSpan span : Span) :
    Results S (do
      value (← emitValue valueSpan (.iterValue subject byRef ·))
      body
      let _ ← emit (.next subject) span
      jump header span
      goTo last) b fun _ b' => Ready S R b' := by
  refine Results.bind (.lift (emitValue_steps (by exact fun _ => rfl) valueSpan h))
    fun v b₁ h₁ => ?_
  refine Results.bind (hvalue v h₁) fun _ b₂ h₂ => ?_
  refine Results.bind (hbody h₂) fun _ b₃ h₃ => ?_
  refine Results.bind (.lift (emit_steps (by rfl) span h₃)) fun _ b₄ h₄ => ?_
  refine Results.bind (.lift (repeat_stands h₄ hw span)) fun _ b₅ h₅ => ?_
  exact Results.lift h₅.goTo

theorem foreach_moves {subject : Lowering OperandId} {key : Option (Span × Lowering OperandId)}
    {value : OperandId → Lowering Unit} {body : Lowering Unit} (hsubject : Moves subject)
    (hkey : ∀ k ∈ key, Moves k.2) (hvalue : ∀ v, Moves (value v)) (hbody : Moves body)
    (byRef : Bool) (valueSpan span : Span) :
    Moves (foreach subject key byRef valueSpan value body span) := by
  intro S R b hb
  refine Results.bind (current_moves hsubject hb) fun s b₀ h₀ => ?_
  refine Results.bind (.lift (emit_steps (by rfl) span h₀)) fun _ b h => ?_
  refine enterLoop_results h span fun header inside last b₁ hheader hinside hlast h₁ => ?_
  refine Results.bind (.lift (emitValue_steps (by exact fun _ => rfl) span h₁))
    fun valid b₂ h₂ => ?_
  refine Results.bind (.lift (jumpIf_leaves h₂ valid
    (h₂.standing.reach (.inr (.inl rfl)) (.inl List.mem_cons_self) h₂.free)
    (h₂.standing.reach (.inr (.inr (.inl rfl)))
      (.inl (List.mem_cons_of_mem _ List.mem_cons_self)) h₂.free) span)) ?_
  rintro _ b₃ ⟨h₃, -⟩
  rw [Reserve.linked_of_unwatched (R := R.looping header inside last) hinside,
    Reserve.linked_of_unwatched (R := R.looping header inside last) hlast] at h₃
  refine Results.bind (.lift (goTo_ready (h₃.within (R.within_repeating header inside last))))
    fun _ b₃ hready => ?_
  dsimp only
  split
  · rename_i keySpan target
    refine Results.bind (.lift (emitValue_steps (by exact fun _ => rfl) keySpan hready))
      fun k b₄ h₄ => ?_
    refine Results.bind (hkey _ rfl h₄) fun t b₅ h₅ => ?_
    refine Results.bind (.lift (emitValue_steps (by exact fun _ => rfl) keySpan h₅))
      fun _ b₆ h₆ => ?_
    exact takeElement_results hvalue hbody h₆ hheader s byRef valueSpan span
  · exact takeElement_results hvalue hbody hready hheader s byRef valueSpan span

/-! ## Switches -/

/-- Blocks that jumps may lead to are kept. -/
def Reserve.reserveAll (R : Reserve) (blocks : List BlockId) : Reserve :=
  { R with
    opens := blocks ++ R.opens
    targets := fun block => block ∈ blocks ∨ R.targets block }

theorem Reserve.within_reserveAll_cons (R : Reserve) (block : BlockId) (blocks : List BlockId) :
    (R.reserveAll (block :: blocks)).Within ((R.reserve block).reserveAll blocks) where
  opens := List.perm_middle.symm.subperm
  targets other h := by
    rcases h with h | h
    · rcases List.mem_cons.1 h with rfl | h
      · exact .inr (.inl rfl)
      · exact .inl h
    · exact .inr (.inr h)
  fed _ := id
  watched _ _ := id
  deaths _ _ := id
  entries _ _ := id

theorem Reserve.reserveAll_nil_within (R : Reserve) : (R.reserveAll []).Within R :=
  { Within.refl R with targets := fun _ h => h.elim nofun id }

theorem Reserve.within_reserveAll_nil (R : Reserve) : R.Within (R.reserveAll []) :=
  { Within.refl R with targets := fun _ h => .inr h }

/-- Blocks that a switch may lead to. -/
def Reserve.Offers (R : Reserve) (block : BlockId) : Prop :=
  R.targets block ∧ block ∈ R.opens ∧ R.watched block = none

theorem placeCases_results (h : Ready S R b)
    (cases : List (Case (Lowering OperandId) (Lowering Unit))) :
    Results S (cases.mapM fun case => do return (case, ← newBlock)) b fun placed b' =>
      Ready S (R.reserveAll (placed.map (·.2))) b' ∧
        ∀ c ∈ placed, c.1 ∈ cases ∧ R.watched c.2 = none := by
  induction cases generalizing R b with
  | nil =>
    rw [List.mapM_nil]
    exact .pure ⟨h.within R.reserveAll_nil_within, nofun⟩
  | cons case rest ih =>
    rw [List.mapM_cons]
    refine Results.bind (P := fun placed b₁ => Ready S (R.reserve placed.2) b₁ ∧
      Fresh R b₁ placed.2 ∧ placed.1 = case) ?_ ?_
    · refine Results.bind (.lift (newBlock_ready h)) ?_
      rintro block b₁ ⟨h₁, hfresh, -⟩
      exact .pure ⟨h₁, hfresh, rfl⟩
    · rintro ⟨_, block⟩ b₁ ⟨h₁, hfresh, rfl⟩
      refine Results.bind (ih h₁) ?_
      rintro placed b₂ ⟨h₂, hplaced⟩
      refine .pure ⟨h₂.within (R.within_reserveAll_cons block _), ?_⟩
      refine List.forall_mem_cons.2 ⟨⟨List.mem_cons_self, hfresh.unwatched⟩, fun c hc => ?_⟩
      exact ⟨List.mem_cons_of_mem _ (hplaced c hc).1, (hplaced c hc).2⟩

/-- A step that may fail but does not, and leaves control flow alone. -/
def Idles {α : Type} (x : Lowering α) : Prop :=
  ∀ b, ∃ y b', x.run.run b = (.ok y, b') ∧ Idle b b'

/-- A block is being left: it has no end yet, but may be a predecessor. -/
structure Leaving (S : Site) (R : Reserve) (b : Builder) (source : BlockId) : Prop where
  standing : Standing S R b
  holds : S.Holds b.arena source
  goes : ∀ op ∈ (b.arena.block source).ops, op.index < b.arena.ops.size ∧
    (b.arena.op op).kind.isTerminator = false
  free : source ∉ R.opens ++ b.scope.gotos.map (·.2)

theorem Ready.leaving (h : Ready S R b) : Leaving S R b b.block :=
  ⟨h.standing, h.here.holds, h.here.goes, h.free⟩

theorem Leaving.idle {source : BlockId} (h : Leaving S R b source) (hi : Idle b b') :
    Leaving S R b' source where
  standing := h.standing.idle hi
  holds := h.holds.mono hi.arena.blocks.size
  goes op hop := by
    rw [hi.arena.blocks.ops] at hop
    obtain ⟨hlt, hterm⟩ := h.goes op hop
    rw [hi.arena.op op hlt]
    exact ⟨Nat.lt_of_lt_of_le hlt hi.arena.ops, hterm⟩
  free := by
    rw [hi.gotos]
    exact h.free

theorem Leaving.link {source target : BlockId} (h : Leaving S R b source) (ht : R.Offers target) :
    Leaving S R { b with arena := b.arena.link source target } source := by
  obtain ⟨htarget, hopen, hw⟩ := ht
  have hreach := h.standing.reach htarget (.inl hopen) h.free
  have hstanding := h.standing.link h.holds h.free (fun op hop => (h.goes op hop).2)
    hreach.landing hreach.first
  rw [Reserve.linked_of_unwatched hw] at hstanding
  refine ⟨hstanding, h.holds.mono (Nat.le_of_eq (blocks_size_link ..).symm), ?_, h.free⟩
  dsimp only
  rw [Arena.block_link_keep Block.ops fun _ _ => rfl]
  exact h.goes

/-- A block that a block being left leads to knows it afterwards. -/
structure Table (S : Site) (R : Reserve) (source : BlockId) (b b' : Builder) : Prop where
  leaving : Leaving S R b' source
  block : b'.block = b.block
  preds : ∀ block, source ∈ (b.arena.block block).preds → source ∈ (b'.arena.block block).preds

theorem Table.trans {source : BlockId} {b₁ b₂ : Builder} (h : Table S R source b b₁)
    (h' : Table S R source b₁ b₂) : Table S R source b b₂ :=
  ⟨h'.leaving, h'.block.trans h.block, fun block hmem => h'.preds block (h.preds block hmem)⟩

theorem Leaving.table_idle {source : BlockId} (h : Leaving S R b source) (hi : Idle b b') :
    Table S R source b b' :=
  ⟨h.idle hi, hi.block, fun block hmem => by rw [hi.arena.blocks.preds]; exact hmem⟩

theorem Leaving.table_link {source target : BlockId} (h : Leaving S R b source)
    (ht : R.Offers target) :
    Table S R source b { b with arena := b.arena.link source target } := by
  have hlt := (h.standing.targets target ht.1).holds.2
  refine ⟨h.link ht, rfl, fun block hmem => ?_⟩
  dsimp only
  rw [Arena.preds_link hlt]
  split
  · exact mem_addNew.2 (.inl hmem)
  · exact hmem

theorem tableEntries_results {source : BlockId} (subject : OperandId) {cases : PlacedCases}
    (hcond : ∀ c ∈ cases, ∀ x ∈ c.1.cond, Idles (current x)) (h : Leaving S R b source)
    (hcases : ∀ c ∈ cases, R.Offers c.2) :
    Results S (tableEntries source subject cases) b fun entries b' => Table S R source b b' ∧
      (∀ c ∈ cases, source ∈ (b'.arena.block c.2).preds) ∧
      ∀ target ∈ entries.2, ∃ c ∈ cases, c.2 = target := by
  induction cases generalizing b with
  | nil => exact .pure ⟨h.table_idle (.refl b), nofun, nofun⟩
  | cons first rest ih =>
    obtain ⟨case, block⟩ := first
    obtain ⟨hfirst, hrest⟩ := List.forall_mem_cons.1 hcases
    obtain ⟨hcondFirst, hcondRest⟩ := List.forall_mem_cons.1 hcond
    refine Results.bind (P := fun _ b₁ => Table S R source b b₁ ∧
      source ∈ (b₁.arena.block block).preds) (.of_run rfl ⟨h.table_link hfirst,
        mem_preds_link (h.standing.targets block hfirst.1).holds.2⟩) ?_
    rintro _ b₁ ⟨h₁, hmem⟩
    split
    · rename_i cond hsome
      obtain ⟨value, b₂, hrun, hidle⟩ := hcondFirst cond hsome b₁
      refine Results.bind (P := fun _ b' => Idle b₁ b') (.of_run hrun hidle) fun value b₂ h₂ => ?_
      refine Results.bind (.lift (newTemporary_rests none b₂)) fun equal b₃ h₃ => ?_
      refine Results.bind (.lift (detached_rests (.binary .equal subject value equal) case.span b₃))
        fun _ b₄ h₄ => ?_
      refine Results.bind (.lift (change_rests (fun a => Calm.addGuard a block equal) b₄))
        fun _ b₅ h₅ => ?_
      have ht := h₁.trans (h₁.leaving.table_idle (((h₂.trans h₃).trans h₄).trans h₅))
      have hmem := (h₁.leaving.table_idle (((h₂.trans h₃).trans h₄).trans h₅)).preds block hmem
      refine Results.bind (ih hcondRest ht.leaving hrest) ?_
      rintro ⟨values, targets⟩ b₆ ⟨h₆, hpreds, htargets⟩
      refine .pure ⟨ht.trans h₆, List.forall_mem_cons.2 ⟨h₆.preds block hmem, hpreds⟩, ?_⟩
      intro target htarget
      rcases List.mem_cons.1 htarget with rfl | htarget
      · exact ⟨_, List.mem_cons_self, rfl⟩
      · obtain ⟨c, hc, heq⟩ := htargets target htarget
        exact ⟨c, List.mem_cons_of_mem _ hc, heq⟩
    · refine (ih hcondRest h₁.leaving hrest).mono ?_
      rintro entries b₂ ⟨h₂, hpreds, htargets⟩
      refine ⟨h₁.trans h₂, List.forall_mem_cons.2 ⟨h₂.preds block hmem, hpreds⟩, fun t ht => ?_⟩
      obtain ⟨c, hc, heq⟩ := htargets t ht
      exact ⟨c, List.mem_cons_of_mem _ hc, heq⟩

theorem jumpTable_stands (h : Ready S R b) (subject : OperandId) {cases : PlacedCases}
    {last : BlockId} (hcond : ∀ c ∈ cases, ∀ x ∈ c.1.cond, Idles (current x))
    (hcases : ∀ c ∈ cases, R.Offers c.2) (hlast : R.Offers last) (span : Span) :
    Results S (jumpTable subject cases last span) b fun _ b' => Standing S R b' := by
  refine Results.get (Results.bind (tableEntries_results subject hcond h.leaving hcases) ?_)
  rintro ⟨values, targets⟩ b₁ ⟨h₁, hpreds, htargets⟩
  have hother : R.Offers ((defaultBlock? cases).getD last) := getD_defaultBlock? hcases hlast
  dsimp only
  generalize (defaultBlock? cases).getD last = otherwise at hother
  refine Results.bind (P := fun _ b₂ => Table S R b.block b₁ b₂ ∧
    b.block ∈ (b₂.arena.block otherwise).preds) (.of_run rfl ⟨h₁.leaving.table_link hother,
      mem_preds_link (h₁.leaving.standing.targets otherwise hother.1).holds.2⟩) ?_
  rintro _ b₂ ⟨h₂, hmem⟩
  rw [← h₁.block, ← h₂.block] at h₂ hmem hpreds
  refine Results.bind (.lift (emit_places (.switch subject values targets otherwise) span b₂)) ?_
  rintro _ _ ⟨-, f, hf, rfl⟩
  have hplaced : Standing S R { b₂ with
      arena := placed b₂.arena b₂.block (.switch subject values targets otherwise) span } := by
    refine h₂.leaving.standing.place h₂.leaving.holds _ span (fun _ => h₂.leaving.free) fun hs =>
      shaped_placed (h₂.leaving.standing.ground.shaped hs) h₂.leaving.holds.2 _ span
        (fun op hop => (h₂.leaving.goes op hop).2) (fun target ht => ?_) nofun
    rcases List.mem_append.1 ht with ht | ht
    · obtain ⟨c, hc, rfl⟩ := htargets target ht
      exact ⟨(h₂.leaving.standing.targets _ (hcases c hc).1).live, h₂.preds _ (hpreds c hc)⟩
    · rw [List.mem_singleton.1 ht]
      exact ⟨(h₂.leaving.standing.targets _ hother.1).live, hmem⟩
  refine .lift ((change_rests (fun a => Calm.modifyBlock a b.block ?_) _).mono fun _ _ h₃ =>
    (hplaced.idle (.of_arena (Calm.modifyFunc _ b₂.func hf))).idle h₃)
  exact fun _ => rfl

theorem compareCases_results (subject : OperandId) {cases : PlacedCases}
    (hcond : ∀ c ∈ cases, ∀ x ∈ c.1.cond, Moves x) (hcases : ∀ c ∈ cases, R.Offers c.2)
    (h : Ready S R b) :
    Results S (compareCases subject cases) b fun _ b' => Ready S R b' := by
  induction cases generalizing b with
  | nil => exact .pure h
  | cons first rest ih =>
    obtain ⟨case, block⟩ := first
    obtain ⟨⟨htarget, hopen, hw⟩, hrest⟩ := List.forall_mem_cons.1 hcases
    obtain ⟨hcondFirst, hcondRest⟩ := List.forall_mem_cons.1 hcond
    rw [compareCases]
    dsimp only
    split
    · rename_i cond hsome
      refine Results.bind (current_moves (hcondFirst cond hsome) h) fun value b₁ h₁ => ?_
      refine Results.bind (.lift (emitValue_steps (by exact fun _ => rfl) case.span h₁))
        fun equal b₂ h₂ => ?_
      refine Results.bind (.lift (newBlock_ready h₂)) ?_
      rintro next b₃ ⟨h₃, hnext, -⟩
      refine Results.bind (.lift (jumpIf_leaves h₃ equal
        (h₃.standing.reach (.inr htarget) (.inl (List.mem_cons_of_mem _ hopen)) h₃.free)
        (h₃.standing.reach (.inl rfl) (.inl List.mem_cons_self) h₃.free) case.span)) ?_
      rintro _ b₄ ⟨h₄, -⟩
      rw [Reserve.linked_of_unwatched (R := R.reserve next) hw,
        Reserve.linked_of_unwatched (R := R.reserve next) hnext.unwatched] at h₄
      refine Results.bind (.lift (change_rests (fun a => Calm.addGuard a block equal) b₄))
        fun _ b₅ h₅ => ?_
      refine Results.bind (.lift (goToReserved_ready (h₄.idle h₅))) fun _ b₆ h₆ => ?_
      exact ih hcondRest hrest h₆
    · exact ih hcondRest hrest h

/-- A block may be kept. -/
def Reserve.keepOption (R : Reserve) : Option BlockId → Reserve
  | none => R
  | some block => R.keep block

theorem fallThrough_stands {previous : Option BlockId} (h : Standing S (R.keepOption previous) b)
    {target : BlockId} (ht : R.Offers target) (span : Span) :
    Results S (fallThrough previous target span) b fun _ b' => Standing S R b' := by
  obtain ⟨htarget, hopen, hw⟩ := ht
  cases previous with
  | none => exact .pure h
  | some previous =>
    refine Results.bind (P := fun _ b' => b' = b) (.of_run rfl rfl) ?_
    rintro dead _ rfl
    split
    · refine Results.bind (.lift (goTo_ready h)) fun _ b₁ h₁ => ?_
      exact Results.lift ((jump_stands h₁ htarget (.inl hopen) hw span).mono fun _ b₂ h₂ =>
        h₂.within (R.within_feed target))
    · exact .pure (h.within (R.within_keep previous))

theorem Reserve.within_reserveAll (R : Reserve) (block : BlockId) (blocks : List BlockId) :
    ((R.reserveAll blocks).keep block).Within (R.reserveAll (block :: blocks)) :=
  { Within.refl (R.reserveAll (block :: blocks)) with
    targets := fun _ h => h.imp_left (List.mem_cons_of_mem _) }

theorem caseBodies_stands {cases : PlacedCases} (previous : Option BlockId)
    (hbody : ∀ c ∈ cases, ∀ x ∈ c.1.body, Moves x) (hw : ∀ c ∈ cases, R.watched c.2 = none)
    (h : Standing S ((R.reserveAll (cases.map (·.2))).keepOption previous) b) :
    Results S (caseBodies previous cases) b fun last b' => Standing S (R.keepOption last) b' := by
  induction cases generalizing previous b with
  | nil =>
    refine .pure (h.within ?_)
    cases previous with
    | none => exact R.within_reserveAll_nil
    | some block => exact { R.within_reserveAll_nil with opens := List.Subperm.refl _ }
  | cons first rest ih =>
    obtain ⟨case, block⟩ := first
    obtain ⟨hfirst, hbodies⟩ := List.forall_mem_cons.1 hbody
    obtain ⟨hblock, hrest⟩ := List.forall_mem_cons.1 hw
    refine Results.bind (fallThrough_stands h ⟨.inl List.mem_cons_self, List.mem_cons_self, hblock⟩
      case.span) fun _ b₁ h₁ => ?_
    refine Results.bind (.lift (goTo_ready (h₁.within (R.within_reserveAll block _))))
      fun _ b₂ h₂ => ?_
    refine Results.bind (inOrder_moves hfirst h₂) fun _ b₃ h₃ => ?_
    exact Results.get (ih _ hbodies hrest h₃.keep)

/-- The parts of cases are lowered at the end of open blocks. -/
def CasesMove (cases : List (Case (Lowering OperandId) (Lowering Unit))) : Prop :=
  ∀ c ∈ cases, (∀ x ∈ c.cond, Moves x) ∧ ∀ x ∈ c.body, Moves x

theorem switch_moves {subject : Lowering OperandId} (hsubject : Moves subject) {table : Bool}
    {cases : List (Case (Lowering OperandId) (Lowering Unit))} (hcases : CasesMove cases)
    (htable : table = true → ∀ c ∈ cases, ∀ x ∈ c.cond, Idles (current x)) (span : Span) :
    Moves (switch subject table cases span) := by
  intro S R b hb
  refine Results.bind (current_moves hsubject hb) fun s b₀ h₀ => ?_
  refine Results.bind (.lift (newBlock_ready h₀)) ?_
  rintro last b₁ ⟨h₁, hlast, -⟩
  refine Results.bind (placeCases_results h₁ cases) ?_
  rintro placed b₂ ⟨h₂, hplaced⟩
  have hoffers : ∀ c ∈ placed, ((R.reserve last).reserveAll (placed.map (·.2))).Offers c.2 :=
    fun c hc => ⟨.inl (List.mem_map_of_mem hc), List.mem_append_left _ (List.mem_map_of_mem hc),
      (hplaced c hc).2⟩
  have hofferLast : ((R.reserve last).reserveAll (placed.map (·.2))).Offers last :=
    ⟨.inr (.inl rfl), List.mem_append_right _ List.mem_cons_self, hlast.unwatched⟩
  have hbodies : ∀ b₃, Standing S ((R.reserve last).reserveAll (placed.map (·.2))) b₃ →
      Results S (do
        let previous ← caseBodies none placed
        fallThrough previous last span
        goTo last) b₃ fun _ b' => Ready S R b' := by
    intro b₃ h₃
    refine Results.bind (caseBodies_stands none
      (fun c hc => (hcases c.1 (hplaced c hc).1).2) (fun c hc => (hplaced c hc).2) h₃)
      fun previous b₄ h₄ => ?_
    refine Results.bind (fallThrough_stands h₄ ⟨.inl rfl, List.mem_cons_self, hlast.unwatched⟩ span)
      fun _ b₅ h₅ => ?_
    exact Results.lift (goToReserved_ready h₅)
  dsimp only
  split
  · rename_i ht
    refine Results.bind (jumpTable_stands h₂ s (fun c hc => htable ht c.1 (hplaced c hc).1) hoffers
      hofferLast span) fun _ b₃ h₃ => hbodies b₃ h₃
  · refine Results.bind (compareCases_results s (fun c hc => (hcases c.1 (hplaced c hc).1).1) hoffers
      h₂) fun _ b₃ h₃ => ?_
    obtain ⟨htarget, hopen, hw⟩ := getD_defaultBlock? (P := Reserve.Offers _) hoffers hofferLast
    refine Results.bind (.lift (jump_stands h₃ htarget (.inl hopen) hw span)) fun _ b₄ h₄ => ?_
    exact hbodies b₄ (h₄.within (Reserve.within_feed _ _))

/-! ## Jumps to labels -/

/-- The current block waits for a label. -/
theorem Ready.wait (h : Ready S R b) (label : String) :
    Standing S R { b with
      scope := { b.scope with gotos := b.scope.gotos ++ [(label, b.block)] } } := by
  have hmem {block : BlockId} :
      block ∈ R.opens ++ (b.scope.gotos ++ [(label, b.block)]).map (·.2) ↔
        block ∈ R.opens ++ b.scope.gotos.map (·.2) ∨ block = b.block := by
    rw [List.map_append, ← List.append_assoc, List.mem_append, List.map_singleton,
      List.mem_singleton]
  refine { h.standing with opens := fun block hblock => ?_, distinct := ?_ }
  · rcases hmem.1 hblock with hblock | rfl
    · exact h.standing.opens block hblock
    · exact h.here
  · dsimp only
    rw [List.map_append, ← List.append_assoc, List.map_singleton]
    refine List.nodup_append.2 ⟨h.standing.distinct, List.pairwise_singleton _ _, ?_⟩
    rintro block hblock other hother rfl
    rw [List.mem_singleton.1 hother] at hblock
    exact h.free hblock

theorem goto_moves (label : String) (span : Span) : Moves (goto label span) := by
  intro S R b h
  refine Results.get ?_
  split
  · rename_i target hlabel
    refine Results.bind (.lift (jump_leaves h (h.standing.reachLabel hlabel _) span)) ?_
    rintro _ b₁ ⟨h₁, -⟩
    rw [Reserve.linked_of_unwatched (h.standing.labels label target hlabel).2.2] at h₁
    exact Results.lift (goDead_ready h₁)
  · refine Results.get (Results.bind (P := fun _ b₁ => Standing S R b₁)
      (.of_run rfl (h.wait label)) fun _ b₁ h₁ => ?_)
    exact Results.lift (goDead_ready h₁)

/-- Some blocks are kept. -/
def Reserve.keepAll (R : Reserve) (blocks : List BlockId) : Reserve :=
  { R with opens := blocks ++ R.opens }

/-- Blocks that waited for a label are kept instead. -/
theorem Standing.release (h : Standing S R b) {waiting others : List (String × BlockId)}
    (hperm : b.scope.gotos.Perm (waiting ++ others)) :
    Standing S (R.keepAll (waiting.map (·.2)))
      { b with scope := { b.scope with gotos := others } } := by
  have hall : (R.keepAll (waiting.map (·.2))).opens ++ others.map (·.2) |>.Perm
      (R.opens ++ b.scope.gotos.map (·.2)) := by
    refine List.Perm.trans ?_ ((hperm.map (·.2)).symm.append_left R.opens)
    rw [Reserve.keepAll, List.map_append, ← List.append_assoc]
    exact List.perm_append_comm.append_right _
  exact { h with
    opens := fun block hblock => h.opens block (hall.subset hblock)
    distinct := hall.nodup_iff.2 h.distinct }

/-- The jumps that waited for a label are made. -/
theorem resolve_stands {target : BlockId} {waiting : List (String × BlockId)} {scope : Scope}
    (htarget : R.targets target) (hfed : R.fed target) (hw : R.watched target = none) (span : Span)
    (h : Standing S (R.keepAll (waiting.map (·.2))) { b with scope }) :
    Gives (waiting.forM fun (_, source) => do
      let op ← detached (.jump target) span
      change fun a => (a.append source op).link source target) b fun _ b' =>
        Standing S R { b' with scope } ∧ b'.scope = b.scope := by
  induction waiting generalizing b with
  | nil => exact ⟨h, rfl⟩
  | cons first rest ih =>
    obtain ⟨label, source⟩ := first
    have hkeep : Standing S ((R.keepAll (rest.map (·.2))).keep source) { b with scope } := h
    have hfree := (List.nodup_cons.1 hkeep.distinct).1
    have hrest := hkeep.within (Reserve.within_keep _ source)
    have hleave := hkeep.leave (.jump target) span [target] (fun _ => id)
      (by rintro _ ⟨⟩; rfl)
      (by simpa using hrest.reach htarget (.inr hfed) hfree)
    have harena : (placed b.arena source (.jump target) span).link source target =
        placed (linkAll b.arena source [target]) source (.jump target) span :=
      Arena.link_append ..
    rw [show (R.keepAll (rest.map (·.2))).linkedAll source [target] =
      R.keepAll (rest.map (·.2)) from Reserve.linked_of_unwatched hw] at hleave
    refine Gives.bind (P := fun _ b₁ => b₁ = { b with
      arena := (placed b.arena source (.jump target) span).link source target }) rfl ?_
    rintro _ _ rfl
    refine ih ?_
    rw [harena]
    exact hleave

theorem label_steps (name : String) (span : Span) : Steps (label name span) := by
  intro S R b h
  refine Gives.get ?_
  split
  · exact h
  refine Gives.bind (newBlock_ready h) ?_
  rintro block b₁ ⟨h₁, hblock, -⟩
  refine Gives.bind (jump_stands h₁ (.inl rfl) (.inl List.mem_cons_self) hblock.unwatched span)
    fun _ b₂ h₂ => ?_
  refine Gives.bind (guardBlock_rests block b₂) fun _ b₃ h₃ => ?_
  have h₃ := h₂.idle h₃
  refine Gives.get ?_
  rw [List.partition_eq_filter_filter]
  dsimp only
  have hperm : b₃.scope.gotos.Perm (b₃.scope.gotos.filter (·.1 == name) ++
      b₃.scope.gotos.filter (not ∘ (·.1 == name))) :=
    (List.filter_append_perm (·.1 == name) b₃.scope.gotos).symm
  refine Gives.bind (resolve_stands (R := (R.reserve block).feed block) (.inl rfl) (.inl rfl) hblock.unwatched span
    (h₃.release hperm)) ?_
  rintro _ b₄ ⟨h₄, hscope⟩
  -- the new label leads to a block that is known to have a predecessor
  have hlabel : Standing S ((R.reserve block).feed block) { b₄ with scope := { b₄.scope with
      gotos := b₃.scope.gotos.filter (not ∘ (·.1 == name)),
      labels := b₄.scope.labels.insert name block } } := by
    rw [hscope]
    refine { h₄ with labels := fun other target htarget => ?_ }
    rw [Std.TreeMap.get?_eq_getElem?, Std.TreeMap.getElem?_insert] at htarget
    split at htarget
    · cases htarget
      exact ⟨h₄.targets block (.inl rfl), h₄.fed block (.inl rfl), hblock.unwatched⟩
    · exact h₄.labels other target htarget
  exact goToReserved_ready (hlabel.within (Reserve.within_feed _ block))

/-! ## Handlers -/

theorem handler_stands {caught : Catch (Lowering Unit)} (hbody : ∀ x ∈ caught.body, Moves x)
    (h : Standing S R b) : Results S (handler caught) b fun _ b' => Standing S R b' := by
  refine Results.bind (.lift (newBlock_reserves h)) ?_
  rintro block b₁ ⟨h₁, -⟩
  refine Results.bind (.lift (goToReserved_ready h₁)) fun _ b₂ h₂ => ?_
  dsimp only
  have hrest : Moves (inOrder caught.body) := inOrder_moves hbody
  split
  · refine Results.bind (.lift (newVariable_rests _ b₂)) fun var b₃ h₃ => ?_
    refine Results.bind (.lift ((writeVariable_reads var).steps (h₂.idle h₃))) fun _ b₄ h₄ => ?_
    exact (hrest h₄).mono fun _ _ h₅ => h₅.standing
  · exact (hrest h₂).mono fun _ _ h₅ => h₅.standing

theorem tryCatch_moves {body : Lowering Unit} (hbody : Moves body)
    {catches : List (Catch (Lowering Unit))}
    (hcatches : ∀ c ∈ catches, ∀ x ∈ c.body, Moves x) {finish : Option (Lowering Unit)}
    (hfinish : ∀ x ∈ finish, Moves x) : Moves (tryCatch body catches finish) := by
  intro S R b h
  refine Results.bind (hbody h) fun _ b₁ h₁ => ?_
  refine Results.get (Results.bind (Results.forM (I := Standing S (R.keep b₁.block)) h₁.keep
    fun c hc b₂ h₂ => handler_stands (hcatches c hc) h₂) fun _ b₂ h₂ => ?_)
  refine Results.bind (.lift (goTo_ready h₂)) fun _ b₃ h₃ => ?_
  exact ifGiven_moves hfinish h₃

/-! ## Choosing between values -/

theorem Ready.know (h : Ready S R b) {block : BlockId} (hlt : block.index < b.arena.blocks.size) :
    Ready S (R.know block (b.arena.block block).dead) b where
  standing := { h.standing with
    deaths := fun other dead hother => by
      simp only [Reserve.know] at hother
      split at hother
      · rename_i heq
        cases hother
        exact ⟨heq ▸ hlt, by rw [heq]⟩
      · exact h.standing.deaths other dead hother }
  here := h.here
  free := h.free

theorem Standing.watch (h : Standing S R b) {block : BlockId} {preds : List BlockId}
    (hlt : block.index < b.arena.blocks.size) (hpreds : (b.arena.block block).preds = preds)
    (hlabels : ∀ name, b.scope.labels.get? name ≠ some block) :
    Standing S (R.watch block preds) b :=
  { h with
    watched := fun other known hother => by
      simp only [Reserve.watch] at hother
      split at hother
      · rename_i heq
        cases hother
        exact ⟨heq ▸ hlt, heq ▸ hpreds⟩
      · exact h.watched other known hother
    labels := fun name target htarget => by
      obtain ⟨hland, hne, hw⟩ := h.labels name target htarget
      have hother : target ≠ block := by
        rintro rfl
        exact hlabels name htarget
      refine ⟨hland, hne, ?_⟩
      simp only [Reserve.watch, if_neg hother, hw] }

/-- A value is lowered in a block, which then leads to a block all predecessors of which are known.
The value counts unless the end of the block is dead. -/
theorem arm_results {block last : BlockId} {preds : List BlockId} {value : Lowering OperandId}
    (hvalue : Moves value) (hlast : R.targets last) (hopen : last ∈ R.opens)
    (hw : R.watched last = some preds) (cond : OperandId) (span : Span)
    (h : Standing S (R.keep block) b) :
    Results S (under cond do
      guardBlock block
      goTo block
      let value ← value
      let dead ← isDead (← get).block
      jump last span
      return if dead then [] else [value]) b fun values b' => ∃ source dead,
        Standing S ((R.know source dead).linked source last) b' ∧ source ∉ preds ∧
          (∀ known, R.deaths source = some known → known = dead) ∧
          values.length = if dead then 0 else 1 := by
  refine underIn_results h cond (fun b₁ h₁ => ?_) ?_
  · refine Results.bind (hvalue h₁) fun v b₂ h₂ => Results.get ?_
    refine Results.bind (P := fun dead b₃ => b₃ = b₂ ∧ dead = (b₂.arena.block b₂.block).dead)
      (.of_run rfl ⟨rfl, rfl⟩) ?_
    rintro dead b₃ ⟨hb, hdead⟩
    subst hb hdead
    have hsource := h₂.here.leaf last (h₂.standing.targets last hlast).holds.1
    rw [(h₂.standing.watched last preds hw).2] at hsource
    have hknow := h₂.know h₂.here.holds.2
    refine Results.bind (.lift (jump_leaves hknow (hknow.standing.reach hlast (.inl hopen)
      hknow.free) span)) ?_
    rintro _ b₄ ⟨h₄, -⟩
    refine .pure ⟨_, _, h₄, hsource, fun known hknown => ?_, ?_⟩
    · exact (h₂.standing.deaths _ known hknown).2.symm
    · split <;> rfl
  · rintro values b₁ b₂ ⟨source, dead, h₁, hrest⟩ hi
    exact ⟨source, dead, h₁.idle hi, hrest⟩

theorem block_attachPhi_keep {a : Arena} {β : Type} (get : Block → β)
    (hget : ∀ b phis, get { b with phis } = get b) (block : BlockId) (phi : OpId) (other : BlockId) :
    get ((a.attachPhi block phi).block other) = get (a.block other) :=
  Arena.block_modifyBlock_keep a get block other fun b => hget b _

theorem kind_attachPhi (a : Arena) (block : BlockId) (phi op : OpId) :
    ((a.attachPhi block phi).op op).kind = (a.op op).kind :=
  Arena.op_modifyOp_keep _ Op.kind _ _ fun _ => rfl

/-- A complete φ operation is put into a block that jumps do not lead to any more. -/
theorem Standing.attachPhi (h : Standing S R b) {block : BlockId} {phi : OpId}
    (hblock : S.Holds b.arena block) (hlt : phi.index < b.arena.ops.size)
    (hnew : S.before.ops.size ≤ phi.index) (hpending : ∀ p ∈ b.scope.pending, p.phi ≠ phi)
    (hloose : (b.arena.op phi).block = none) (huntargeted : ¬R.targets block)
    (hunlabelled : ∀ name, b.scope.labels.get? name ≠ some block)
    (hmerged : S.strict → b.arena.Merged block phi) :
    Standing S R { b with arena := b.arena.attachPhi block phi } := by
  have hpreds := block_attachPhi_keep (a := b.arena) Block.preds (fun _ _ => rfl) block phi
  have hops := block_attachPhi_keep (a := b.arena) Block.ops (fun _ _ => rfl) block phi
  have hdead := block_attachPhi_keep (a := b.arena) Block.dead (fun _ _ => rfl) block phi
  have hsize : (b.arena.attachPhi block phi).blocks.size = b.arena.blocks.size :=
    Arena.size_blocks_modifyBlock ..
  have hopsSize : (b.arena.attachPhi block phi).ops.size = b.arena.ops.size :=
    Arena.size_ops_modifyOp ..
  have hholds {other : BlockId} (hother : S.Holds b.arena other) :
      S.Holds (b.arena.attachPhi block phi) other := hother.mono (Nat.le_of_eq hsize.symm)
  have hland {other : BlockId} (hne : other ≠ block) (hother : S.Landing b.arena other) :
      S.Landing (b.arena.attachPhi block phi) other := by
    refine ⟨hholds hother.holds, (hdead other).trans hother.live, ?_⟩
    rw [Arena.attachPhi, Arena.block_modifyOp, Arena.block_modifyBlock_of_lt hblock.2, if_neg hne]
    exact hother.bare
  refine ⟨⟨h.ground.toFooting.attachPhi hblock hnew, fun hs => (h.ground.shaped hs).attachPhi
    hblock.2 hlt hloose (hmerged hs)⟩, h.building, fun other hother => ?_, h.distinct, fun other hother => ?_,
    fun other hother => ?_, fun other preds hother => ?_, fun other dead hother => ?_, h.entries,
    fun name other hname => ?_, fun p hp => ?_, h.distinctPhis⟩
  · have hopen := h.opens other hother
    refine ⟨hholds hopen.holds, fun op hop => ?_, fun Y hY => ?_⟩
    · dsimp only at hop ⊢
      rw [hops] at hop
      rw [hopsSize, kind_attachPhi]
      exact hopen.goes op hop
    · dsimp only
      rw [hpreds]
      exact hopen.leaf Y hY
  · exact hland (fun heq => huntargeted (heq ▸ hother)) (h.targets other hother)
  · dsimp only
    rw [hpreds]
    exact h.fed other hother
  · dsimp only
    rw [hpreds, hsize]
    exact h.watched other preds hother
  · dsimp only
    rw [hdead, hsize]
    exact h.deaths other dead hother
  · dsimp only
    rw [hpreds]
    obtain ⟨hland', hne, hw⟩ := h.labels name other hname
    exact ⟨hland (fun heq => hunlabelled name (heq ▸ hname)) hland', hne, hw⟩
  · have hw := h.pending p hp
    have hop : (b.arena.attachPhi block phi).op p.phi = b.arena.op p.phi := by
      rw [Arena.attachPhi, Arena.op_modifyOp, if_neg fun hc => hpending p hp hc.1.symm,
        Arena.op_modifyBlock]
    refine ⟨hholds hw.holds, hw.new, ?_, ?_, ?_⟩ <;> dsimp only
    · rw [hopsSize]
      exact hw.lt
    · rw [hop]
      exact hw.loose
    · rw [hop]
      exact hw.empty

/-- A φ operation is made that joins the two arms of a choice. -/
theorem joinArms_results {last first second : BlockId} {firstDead secondDead : Bool}
    {firsts seconds : List OperandId} (h : Ready S R b) (hblock : b.block = last)
    (huntargeted : ¬R.targets last) (hw : R.watched last = some [first, second])
    (hfirst : R.deaths first = some firstDead) (hsecond : R.deaths second = some secondDead)
    (hfirsts : firsts.length = if firstDead then 0 else 1)
    (hseconds : seconds.length = if secondDead then 0 else 1) (span : Span) :
    Results S (do
      let result ← newTemporary none
      let phi ← detached (.phi (firsts ++ seconds) result) span
      change (·.attachPhi last phi)
      return result) b fun _ b' => Ready S R b' := by
  refine Results.bind (.lift (newTemporary_rests none b)) fun result b₁ hi₁ => ?_
  have h₁ := h.idle hi₁
  refine Results.bind (P := fun phi b₂ => phi = ⟨b₁.arena.ops.size⟩ ∧
    b₂ = { b₁ with arena := (b₁.arena.addOp (.phi (firsts ++ seconds) result) span).2 })
    (.of_run rfl ⟨rfl, rfl⟩) ?_
  rintro _ _ ⟨rfl, rfl⟩
  have hcalm := Calm.addOp b₁.arena (.phi (firsts ++ seconds) result) span
  have h₂ := h₁.idle (.of_arena hcalm)
  have hop := op_addOp_self b₁.arena (.phi (firsts ++ seconds) result) span
  have hlive : (b₁.arena.addOp (.phi (firsts ++ seconds) result) span).2.livePreds last =
      (if firstDead then [] else [first]) ++ if secondDead then [] else [second] := by
    rw [Arena.livePreds, (h₂.standing.watched last _ hw).2]
    have hf := (h₂.standing.deaths first _ hfirst).2
    have hs := (h₂.standing.deaths second _ hsecond).2
    dsimp only at hf hs
    cases firstDead <;> cases secondDead <;> simp [hf, hs]
  have hlast : S.Holds b₁.arena last := by
    rw [← hblock, ← hi₁.block]
    exact h₁.here.holds
  have hnone (name : String) : b₁.scope.labels.get? name ≠ some last := fun hname => by
    have hunwatched := (h₁.standing.labels name last hname).2.2
    rw [hw] at hunwatched
    cases hunwatched
  have hpending : ∀ p ∈ b₁.scope.pending, p.phi ≠ ⟨b₁.arena.ops.size⟩ := fun p hp heq => by
    have hlt := (h₁.standing.pending p hp).lt
    rw [heq] at hlt
    exact Nat.lt_irrefl _ hlt
  have hcount : (firsts ++ seconds).length =
      ((if firstDead then [] else [first]) ++ if secondDead then [] else [second]).length := by
    rw [List.length_append, hfirsts, hseconds]
    cases firstDead <;> cases secondDead <;> rfl
  have hmerged : (b₁.arena.addOp (.phi (firsts ++ seconds) result) span).2.Merged last
      ⟨b₁.arena.ops.size⟩ :=
    ⟨_, _, congrArg Op.kind hop, hcount.trans (congrArg List.length hlive.symm)⟩
  have hattach := h₂.keep.attachPhi hlast (lt_ops_addOp ..) h₁.standing.ground.past.ops
    hpending (congrArg Op.block hop) huntargeted hnone fun _ => hmerged
  exact Results.of_run rfl hattach.goTo

/-- What is in reserve in the arms of a choice that go on to a block all predecessors of which are
known. -/
def Reserve.choosing (R : Reserve) (last : BlockId) : Reserve := (R.reserve last).watch last []

theorem Reserve.within_choosing (R : Reserve) (ifBlock elseBlock last : BlockId) :
    (((R.choosing last).keep elseBlock).keep ifBlock).Within
      ((((R.reserve ifBlock).reserve elseBlock).reserve last).watch last []) where
  opens := ((List.reverse_perm [last, elseBlock, ifBlock]).append_right R.opens).subperm
  targets _ h := h.imp_right fun h => .inr (.inr h)
  fed _ := id
  watched _ _ := id
  deaths _ _ := id
  entries _ _ := id

/-- What is in reserve behind a choice. -/
def Reserve.chosen (R : Reserve) (first second last : BlockId) (firstDead secondDead : Bool) :
    Reserve :=
  ((R.watch last [first, second]).know first firstDead).know second secondDead

theorem Reserve.within_chosen {first second last : BlockId} {firstDead secondDead : Bool}
    (hlast : R.watched last = none)
    (hfirst : ∀ known, R.deaths first = some known → known = firstDead)
    (hsecond : ∀ known, R.deaths second = some known → known = secondDead) :
    R.Within (R.chosen first second last firstDead secondDead) :=
  { R.within_watch hlast [first, second] with
    deaths := fun block dead hblock => by
      simp only [chosen, know, watch]
      split
      · rename_i heq
        rw [hsecond dead (heq ▸ hblock)]
      · split
        · rename_i heq
          rw [hfirst dead (heq ▸ hblock)]
        · exact hblock }

theorem ternary_moves {cond : Lowering OperandId} {ifTrue : Option (Lowering OperandId)}
    {ifFalse : Lowering OperandId} (hcond : Moves cond) (htrue : ∀ x ∈ ifTrue, Moves x)
    (hfalse : Moves ifFalse) (span : Span) : Moves (ternary cond ifTrue ifFalse span) := by
  intro S R b hb
  refine Results.bind (current_moves hcond hb) fun c b₀ h₀ => ?_
  refine Results.bind (.lift (newBlock_ready h₀)) ?_
  rintro ifBlock b₁ ⟨h₁, hif, -⟩
  refine Results.bind (.lift (newBlock_ready h₁)) ?_
  rintro elseBlock b₂ ⟨h₂, helse, -⟩
  refine Results.bind (.lift (newBlock_ready h₂)) ?_
  rintro last b₃ ⟨h₃, hlast, -⟩
  have hlt := (h₃.standing.opens last List.mem_cons_self).holds.2
  have hnodup := (List.nodup_cons.1 h₃.standing.distinct).1
  have hifNe : ifBlock ≠ last := fun heq =>
    hnodup (heq ▸ List.mem_cons_of_mem _ List.mem_cons_self)
  have helseNe : elseBlock ≠ last := fun heq => hnodup (heq ▸ List.mem_cons_self)
  have h₃ : Ready S ((((R.reserve ifBlock).reserve elseBlock).reserve last).watch last []) b₃ :=
    ⟨h₃.standing.watch hlt hlast.preds hlast.unlabelled, h₃.here, h₃.free⟩
  refine branchOff_stands h₃ c (.inr (.inr (.inl rfl))) (.inr (.inl rfl))
    (.inl (List.mem_cons_of_mem _ (List.mem_cons_of_mem _ List.mem_cons_self)))
    (.inl (List.mem_cons_of_mem _ List.mem_cons_self)) ((if_neg hifNe).trans hif.unwatched)
    ((if_neg helseNe).trans helse.unwatched) span fun b₄ h₄ => ?_
  refine Results.bind (arm_results (R := (R.choosing last).keep elseBlock) ?value (.inl rfl)
    (List.mem_cons_of_mem _ List.mem_cons_self) (if_pos rfl) c span
    (h₄.within (R.within_choosing ifBlock elseBlock last))) ?_
  case value =>
    split
    · exact current_moves (htrue _ rfl)
    · exact .pure c
  rintro firsts b₅ ⟨first, firstDead, h₅, -, hfirstKnown, hfirsts⟩
  refine Results.bind (.lift (negate_rests c b₅)) fun negated b₆ hi₆ => ?_
  have h₆ : Standing S ((((R.choosing last).know first firstDead).linked first last).keep elseBlock)
      b₆ := h₅.idle hi₆
  have hw₆ : (((R.choosing last).know first firstDead).linked first last).watched last =
      some [first] := by
    simp [Reserve.linked, Reserve.know, Reserve.choosing, Reserve.watch, addNew]
  refine Results.bind (arm_results
    (R := ((R.choosing last).know first firstDead).linked first last) (current_moves hfalse)
    (.inl rfl) List.mem_cons_self hw₆ negated span h₆) ?_
  rintro seconds b₇ ⟨second, secondDead, h₇, hne, hsecondKnown, hseconds⟩
  have hne : second ≠ first := fun heq => hne (heq ▸ List.mem_cons_self)
  have hsecondKnown : ∀ known, R.deaths second = some known → known = secondDead :=
    fun known hknown => hsecondKnown known ((if_neg hne).trans hknown)
  -- both arms lead to the last block now, and nothing else will
  have hwithin : ((R.chosen first second last firstDead secondDead).keep last).Within
      (((((R.choosing last).know first firstDead).linked first last).know second secondDead).linked
        second last) := by
    refine ⟨.refl _, fun _ => .inr, fun _ => id, fun block preds hblock => ?_, fun _ _ => id,
      fun _ _ => id⟩
    simp only [Reserve.chosen, Reserve.keep, Reserve.know, Reserve.watch] at hblock
    simp only [Reserve.linked, Reserve.know]
    split at hblock
    · rename_i heq
      subst heq
      cases hblock
      rw [if_pos rfl, if_pos rfl]
      simp [Reserve.choosing, Reserve.watch, addNew, hne]
    · rename_i hother
      rw [if_neg hother, if_neg hother]
      exact (if_neg hother).trans hblock
  refine Results.bind (P := fun _ b₈ => Ready S (R.chosen first second last firstDead secondDead) b₈ ∧
    b₈.block = last) (.of_run rfl ⟨(h₇.within hwithin).goTo, rfl⟩) ?_
  rintro _ b₈ ⟨h₈, hblock⟩
  have huntargeted : ¬R.targets last := fun h => hlast.untargeted (.inr (.inr h))
  have hfirstKnows : (R.chosen first second last firstDead secondDead).deaths first =
      some firstDead := (if_neg hne.symm).trans (if_pos rfl)
  refine (joinArms_results h₈ hblock huntargeted (if_pos rfl) hfirstKnows (if_pos rfl) hfirsts
    hseconds span).mono fun _ _ h₉ => ?_
  exact h₉.within (Reserve.within_chosen hlast.unwatched hfirstKnown hsecondKnown)

end QueryTaint.Lower
