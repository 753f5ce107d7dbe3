import QueryTaint.Lower.Control
import QueryTaint.Proofs.Lower.Value

/-!
# Lowering control flow keeps the invariant

Each way of building a statement keeps the invariant if the steps that lower its parts do. Blocks
that jumps lead to are made before the jumps, so that a jump has a target of the body; a jump to a
label that is not met yet waits with the block that it leaves.
-/

namespace QueryTaint.Lower

variable {F : Base} {b b' : Builder}

/-- A step that lowers statements. -/
def Runs (F : Base) (x : Lowering Unit) : Prop :=
  ∀ ⦃b⦄, Inv F {} b → Succeeds x b fun _ b' => After F {} b b'

theorem inOrder_runs {steps : List (Lowering Unit)} (h : ∀ x ∈ steps, Runs F x) :
    Runs F (inOrder steps) := by
  intro b hb
  refine Succeeds.forM (I := After F {} b) ⟨hb, .refl _⟩ fun x hx b₁ h₁ => ?_
  exact (h x hx h₁.inv).mono fun _ b₂ h₂ => h₁.trans h₂

theorem ifGiven_runs {step : Option (Lowering Unit)} (h : ∀ x ∈ step, Runs F x) :
    Runs F (ifGiven step) := by
  cases step with
  | none => exact fun b hb => Succeeds.pure ⟨hb, .refl _⟩
  | some x => exact h x rfl

/-- A step that is run in a block under one more condition. -/
theorem underIn_succeeds (h : Inv F {} b) (cond : OperandId) {block : BlockId}
    (hblock : F.Target b.arena block) {x : Lowering Unit}
    (hx : ∀ b₁, After F {} b b₁ → Succeeds x b₁ fun _ b' => After F {} b₁ b') :
    Succeeds (under cond do
      guardBlock block
      goTo block
      x) b fun _ b' => After F {} b b' := by
  refine (under_succeeds (R := fun _ _ => True) h cond fun b₁ h₁ _ => ?_).mono fun _ _ => And.left
  refine Succeeds.bind (.lift (guardBlock_gives h₁.inv block)) ?_
  rintro _ b₂ ⟨h₂, -⟩
  refine Succeeds.bind (.lift (goTo_gives h₂.inv (hblock.grows (h₁.trans h₂).grows).holds)) ?_
  rintro _ b₃ ⟨h₃, -, -⟩
  refine (hx b₃ ((h₁.trans h₂).trans h₃)).mono ?_
  exact fun _ b₄ h₄ => ⟨(h₂.trans h₃).trans h₄, trivial⟩

/-! ## Branches -/

theorem branch_succeeds (h : Inv F {} b) {last : BlockId} (hlast : F.Target b.arena last)
    (span : Span) {cond : Lowering OperandId} (hcond : Keeps F cond F.Mine)
    {body otherwise : Lowering Unit} (hbody : Runs F body)
    (hother : ∀ b₁, After F {} b b₁ → Succeeds otherwise b₁ fun _ b' => After F {} b₁ b') :
    Succeeds (branch last span cond body otherwise) b fun _ b' => After F {} b b' := by
  refine Succeeds.bind (current_keeps hcond h) ?_
  rintro c b₁ ⟨h₁, hc⟩
  refine Succeeds.bind (.lift (newBlock_gives h₁.inv)) ?_
  rintro ifBlock b₂ ⟨h₂, -, hif⟩
  refine Succeeds.bind (.lift (newBlock_gives h₂.inv)) ?_
  rintro elseBlock b₃ ⟨h₃, -, helse⟩
  have hif := hif.grows h₃.grows
  have hc := (hc.grows h₂.grows).grows h₃.grows
  have hlast := hlast.grows ((h₁.trans h₂).trans h₃).grows
  refine branchOff_succeeds h₃.inv hc hif helse span fun b₅ h₅ => ?_
  refine Succeeds.bind (underIn_succeeds h₅.inv c (hif.grows h₅.grows) fun b₆ h₆ => ?_) ?_
  · refine Succeeds.bind (hbody h₆.inv) ?_
    intro _ b₇ h₇
    have hlast := hlast.grows ((h₅.trans h₆).trans h₇).grows
    exact Succeeds.lift ((jump_gives h₇.inv hlast span).mono fun _ b₈ ⟨h₈, _⟩ => h₇.trans h₈)
  intro _ b₆ h₆
  have h₆ := h₅.trans h₆
  refine Succeeds.bind (.lift (negate_gives h₆.inv (hc.grows h₆.grows))) ?_
  rintro negated b₇ ⟨h₇, -, -⟩
  have h₇ := h₆.trans h₇
  have hbefore := ((h₁.trans h₂).trans h₃).trans h₇
  refine (underIn_succeeds h₇.inv negated (helse.grows h₇.grows) fun b₈ h₈ => ?_).mono
    fun _ b₉ h₉ => hbefore.trans h₉
  exact hother b₈ (hbefore.trans h₈)

/-- An arm that goes on to the last block. -/
theorem arrive_succeeds (h : Inv F {} b) {last : BlockId} (hlast : F.Target b.arena last)
    (span : Span) {x : Lowering Unit} (hx : Runs F x) :
    Succeeds (do
      x
      jump last span) b fun _ b' => After F {} b b' := by
  refine Succeeds.bind (hx h) ?_
  intro _ b₁ h₁
  refine Succeeds.lift ((jump_gives h₁.inv (hlast.grows h₁.grows) span).mono ?_)
  exact fun _ b₂ ⟨h₂, _⟩ => h₁.trans h₂

theorem branches_succeeds {last : BlockId} {otherwise : Option (Lowering Unit)}
    (hother : ∀ x ∈ otherwise, Runs F x)
    {further : List (ElseIf (Lowering OperandId) (Lowering Unit))}
    (hfurther : ∀ e ∈ further, Keeps F e.cond F.Mine ∧ ∀ x ∈ e.body, Runs F x) :
    ∀ {b : Builder}, Inv F {} b → F.Target b.arena last → ∀ (span : Span)
      {cond : Lowering OperandId} {body : Lowering Unit}, Keeps F cond F.Mine → Runs F body →
      Succeeds (branches last span cond body further otherwise) b fun _ b' => After F {} b b' := by
  induction further with
  | nil =>
    intro b h hlast span cond body hcond hbody
    refine branch_succeeds h hlast span hcond hbody fun b₁ h₁ => ?_
    exact arrive_succeeds h₁.inv (hlast.grows h₁.grows) span (ifGiven_runs hother)
  | cons next rest ih =>
    intro b h hlast span cond body hcond hbody
    obtain ⟨hnext, hinside⟩ := hfurther next List.mem_cons_self
    refine branch_succeeds h hlast span hcond hbody fun b₁ h₁ => ?_
    exact ih (fun e he => hfurther e (List.mem_cons_of_mem _ he)) h₁.inv (hlast.grows h₁.grows)
      next.span hnext (inOrder_runs hinside)

theorem ifElse_runs {cond : Lowering OperandId} {body : Lowering Unit}
    {further : List (ElseIf (Lowering OperandId) (Lowering Unit))}
    {otherwise : Option (Lowering Unit)} (hcond : Keeps F cond F.Mine) (hbody : Runs F body)
    (hfurther : ∀ e ∈ further, Keeps F e.cond F.Mine ∧ ∀ x ∈ e.body, Runs F x)
    (hother : ∀ x ∈ otherwise, Runs F x) (span : Span) :
    Runs F (ifElse cond body further otherwise span) := by
  intro b h
  refine Succeeds.bind (.lift (newBlock_gives h)) ?_
  rintro last b₁ ⟨h₁, -, hlast⟩
  refine Succeeds.bind (branches_succeeds hother hfurther h₁.inv hlast span hcond hbody) ?_
  intro _ b₂ h₂
  refine Succeeds.lift ((goTo_gives h₂.inv (hlast.grows h₂.grows).holds).mono ?_)
  exact fun _ b₃ ⟨h₃, _, _⟩ => (h₁.trans h₂).trans h₃

/-! ## Loops -/

theorem leaveLoop_succeeds (h : Inv F {} b) {cond : OperandId} (hcond : F.Mine b.arena cond)
    {last : BlockId} (hlast : F.Target b.arena last) :
    Succeeds (leaveLoop cond last) b fun _ b' => After F {} b b' := by
  refine Succeeds.bind (.lift (negate_gives h hcond)) ?_
  rintro negated b₁ ⟨h₁, -, -⟩
  refine Succeeds.bind (under_succeeds (R := fun _ _ => True) h₁.inv negated fun b₂ h₂ _ =>
    Succeeds.lift ((guardBlock_gives h₂.inv last).mono fun _ _ h => ⟨h.1, trivial⟩)) ?_
  rintro _ b₂ ⟨h₂, -⟩
  have h₂ := h₁.trans h₂
  refine Succeeds.lift ((goTo_gives h₂.inv (hlast.grows h₂.grows).holds).mono ?_)
  exact fun _ b₃ ⟨h₃, _, _⟩ => h₂.trans h₃

theorem loop_runs {cond : Lowering OperandId} {body : Lowering Unit} (hcond : Keeps F cond F.Mine)
    (hbody : Runs F body) (span : Span) : Runs F (loop cond body span) := by
  intro b h
  refine Succeeds.bind (.lift (newBlock_gives h)) ?_
  rintro header b₁ ⟨h₁, -, hheader⟩
  refine Succeeds.bind (.lift (newBlock_gives h₁.inv)) ?_
  rintro inside b₂ ⟨h₂, -, hinside⟩
  refine Succeeds.bind (.lift (newBlock_gives h₂.inv)) ?_
  rintro last b₃ ⟨h₃, -, hlast⟩
  have hheader := (hheader.grows h₂.grows).grows h₃.grows
  have hinside := hinside.grows h₃.grows
  refine Succeeds.bind (.lift (jump_gives h₃.inv hheader span)) ?_
  rintro _ b₄ ⟨h₄, -⟩
  refine Succeeds.bind (.lift (goTo_gives h₄.inv (hheader.grows h₄.grows).holds)) ?_
  rintro _ b₅ ⟨h₅, -, -⟩
  refine Succeeds.bind (hcond h₅.inv) ?_
  rintro c b₆ ⟨h₆, hc⟩
  have h₆ := (h₄.trans h₅).trans h₆
  refine branchOff_succeeds h₆.inv hc (hinside.grows h₆.grows) (hlast.grows h₆.grows) span
    fun b₇ h₇ => ?_
  have hc := hc.grows h₇.grows
  have h₇ := h₆.trans h₇
  refine Succeeds.bind (underIn_succeeds h₇.inv c (hinside.grows h₇.grows) fun b₈ h₈ => ?_) ?_
  · exact arrive_succeeds h₈.inv (hheader.grows (h₇.trans h₈).grows) span hbody
  intro _ b₈ h₈
  have hbefore := ((h₁.trans h₂).trans h₃).trans (h₇.trans h₈)
  refine (leaveLoop_succeeds h₈.inv (hc.grows h₈.grows) (hlast.grows (h₇.trans h₈).grows)).mono ?_
  exact fun _ b₉ h₉ => hbefore.trans h₉

theorem lastCondition_keeps {conds : List (Lowering OperandId)}
    (h : ∀ x ∈ conds, Keeps F x F.Mine) : Keeps F (lastCondition conds) F.Mine := by
  intro b hb
  refine Succeeds.bind (mapM_keeps (fun x hx => current_keeps (h x hx)) hb) ?_
  rintro cs b₁ ⟨h₁, hcs⟩
  split
  · rename_i c hc
    exact Succeeds.pure ⟨h₁, hcs c (List.mem_of_getLast? hc)⟩
  · refine Succeeds.lift ((newOperand_gives h₁.inv (.scalar (.bool true)) trivial).mono ?_)
    exact fun x b₂ ⟨h₂, _, hx, _⟩ => ⟨h₁.trans h₂, hx⟩

/-- Expressions that are lowered for what they do. -/
theorem effects_runs {steps : List (Lowering OperandId)} (h : ∀ x ∈ steps, Keeps F x F.Mine) :
    Runs F (do let _ ← steps.mapM current) := by
  intro b hb
  refine Succeeds.bind (mapM_keeps (fun x hx => current_keeps (h x hx)) hb) ?_
  exact fun _ b₁ h₁ => Succeeds.pure h₁.1

theorem forLoop_runs {init cond step : List (Lowering OperandId)} {body : Lowering Unit}
    (hinit : ∀ x ∈ init, Keeps F x F.Mine) (hcond : ∀ x ∈ cond, Keeps F x F.Mine)
    (hstep : ∀ x ∈ step, Keeps F x F.Mine) (hbody : Runs F body) (span : Span) :
    Runs F (forLoop init cond step body span) := by
  intro b h
  refine Succeeds.bind (mapM_keeps (fun x hx => current_keeps (hinit x hx)) h) ?_
  rintro _ b₁ ⟨h₁, -⟩
  refine (loop_runs (lastCondition_keeps hcond) (fun b₂ h₂ => ?_) span h₁.inv).mono
    fun _ b₃ h₃ => h₁.trans h₃
  refine Succeeds.bind (hbody h₂) ?_
  intro _ b₃ h₃
  exact (effects_runs hstep h₃.inv).mono fun _ b₄ h₄ => h₃.trans h₄

theorem doWhile_runs {body : Lowering Unit} {cond : Lowering OperandId} (hbody : Runs F body)
    (hcond : Keeps F cond F.Mine) (span : Span) : Runs F (doWhile body cond span) := by
  intro b h
  refine Succeeds.bind (.lift (newBlock_gives h)) ?_
  rintro inside b₁ ⟨h₁, -, hinside⟩
  refine Succeeds.bind (.lift (newBlock_gives h₁.inv)) ?_
  rintro last b₂ ⟨h₂, -, hlast⟩
  have hinside := hinside.grows h₂.grows
  refine Succeeds.bind (.lift (jump_gives h₂.inv hinside span)) ?_
  rintro _ b₃ ⟨h₃, -⟩
  refine Succeeds.bind (.lift (goTo_gives h₃.inv (hinside.grows h₃.grows).holds)) ?_
  rintro _ b₄ ⟨h₄, -, -⟩
  refine Succeeds.bind (hbody h₄.inv) ?_
  intro _ b₅ h₅
  refine Succeeds.bind (current_keeps hcond h₅.inv) ?_
  rintro c b₆ ⟨h₆, hc⟩
  have h₆ := ((h₃.trans h₄).trans h₅).trans h₆
  refine branchOff_succeeds h₆.inv hc (hinside.grows h₆.grows) (hlast.grows h₆.grows) span
    fun b₇ h₇ => ?_
  refine (leaveLoop_succeeds h₇.inv (hc.grows h₇.grows) (hlast.grows (h₆.trans h₇).grows)).mono ?_
  exact fun _ b₈ h₈ => ((h₁.trans h₂).trans (h₆.trans h₇)).trans h₈

theorem valueOp_iterValid {subject : OperandId} (hsubject : F.Mine b.arena subject) :
    ValueOp F b (.iterValid subject ·) where
  slots _ := ⟨OpKind.one .var subject, rfl, forall_mem_one.2 ⟨hsubject, rfl⟩⟩
  successors _ := rfl
  noPhi _ := nofun
  noAssertion _ := nofun

theorem valueOp_iterKey {subject : OperandId} (hsubject : F.Mine b.arena subject) :
    ValueOp F b (.iterKey subject ·) where
  slots _ := ⟨OpKind.one .var subject, rfl, forall_mem_one.2 ⟨hsubject, rfl⟩⟩
  successors _ := rfl
  noPhi _ := nofun
  noAssertion _ := nofun

theorem valueOp_iterValue {subject : OperandId} (hsubject : F.Mine b.arena subject) (byRef : Bool) :
    ValueOp F b (.iterValue subject byRef ·) where
  slots _ := ⟨OpKind.one .var subject, rfl, forall_mem_one.2 ⟨hsubject, rfl⟩⟩
  successors _ := rfl
  noPhi _ := nofun
  noAssertion _ := nofun

/-- The rest of a loop over a value, where each element is taken. -/
theorem takeElement_succeeds {value : OperandId → Lowering Unit}
    (hvalue : ∀ ⦃b⦄, Inv F {} b → ∀ v, F.Mine b.arena v →
      Succeeds (value v) b fun _ b' => After F {} b b')
    {body : Lowering Unit} (hbody : Runs F body) (h : Inv F {} b) {subject : OperandId}
    (hsubject : F.Mine b.arena subject) {header last : BlockId} (hheader : F.Target b.arena header)
    (hlast : F.Target b.arena last) (byRef : Bool) (valueSpan span : Span) :
    Succeeds (do
      value (← emitValue valueSpan (.iterValue subject byRef ·))
      body
      let _ ← emit (.next subject) span
      jump header span
      goTo last) b fun _ b' => After F {} b b' := by
  refine Succeeds.bind (.lift (emitValue_gives h (valueOp_iterValue hsubject byRef) valueSpan)) ?_
  rintro v b₁ ⟨h₁, -, hv⟩
  refine Succeeds.bind (hvalue h₁.inv v hv) ?_
  intro _ b₂ h₂
  refine Succeeds.bind (hbody h₂.inv) ?_
  intro _ b₃ h₃
  have h₃ := (h₁.trans h₂).trans h₃
  refine Succeeds.bind (.lift (emitReads_gives h₃.inv (.next subject)
    (forall_mem_one.2 ⟨hsubject.grows h₃.grows, rfl⟩) rfl nofun nofun span)) ?_
  rintro _ b₄ ⟨h₄, -⟩
  have h₄ := h₃.trans h₄
  refine Succeeds.bind (.lift (jump_gives h₄.inv (hheader.grows h₄.grows) span)) ?_
  rintro _ b₅ ⟨h₅, -⟩
  have h₅ := h₄.trans h₅
  refine Succeeds.lift ((goTo_gives h₅.inv (hlast.grows h₅.grows).holds).mono ?_)
  exact fun _ b₆ ⟨h₆, _, _⟩ => h₅.trans h₆

theorem foreach_runs {subject : Lowering OperandId} {key : Option (Span × Lowering OperandId)}
    {value : OperandId → Lowering Unit} {body : Lowering Unit} (hsubject : Keeps F subject F.Mine)
    (hkey : ∀ k ∈ key, Targets F k.2)
    (hvalue : ∀ ⦃b⦄, Inv F {} b → ∀ v, F.Mine b.arena v →
      Succeeds (value v) b fun _ b' => After F {} b b')
    (hbody : Runs F body) (byRef : Bool) (valueSpan span : Span) :
    Runs F (foreach subject key byRef valueSpan value body span) := by
  intro b h
  refine Succeeds.bind (current_keeps hsubject h) ?_
  rintro s b₁ ⟨h₁, hs⟩
  refine Succeeds.bind (.lift (emitReads_gives h₁.inv (.reset s)
    (forall_mem_one.2 ⟨hs, rfl⟩) rfl nofun nofun span)) ?_
  rintro _ b₂ ⟨h₂, -⟩
  refine Succeeds.bind (.lift (newBlock_gives h₂.inv)) ?_
  rintro header b₃ ⟨h₃, -, hheader⟩
  refine Succeeds.bind (.lift (newBlock_gives h₃.inv)) ?_
  rintro inside b₄ ⟨h₄, -, hinside⟩
  refine Succeeds.bind (.lift (newBlock_gives h₄.inv)) ?_
  rintro last b₅ ⟨h₅, -, hlast⟩
  have hs := hs.grows (((h₂.trans h₃).trans h₄).trans h₅).grows
  have hheader := (hheader.grows h₄.grows).grows h₅.grows
  have hinside := hinside.grows h₅.grows
  have hbefore := (((h₁.trans h₂).trans h₃).trans h₄).trans h₅
  refine Succeeds.bind (.lift (jump_gives h₅.inv hheader span)) ?_
  rintro _ b₆ ⟨h₆, -⟩
  refine Succeeds.bind (.lift (goTo_gives h₆.inv (hheader.grows h₆.grows).holds)) ?_
  rintro _ b₇ ⟨h₇, -, -⟩
  have h₇ := h₆.trans h₇
  refine Succeeds.bind (.lift (emitValue_gives h₇.inv (valueOp_iterValid (hs.grows h₇.grows))
    span)) ?_
  rintro valid b₈ ⟨h₈, -, hvalid⟩
  have h₈ := h₇.trans h₈
  refine Succeeds.bind (.lift (jumpIf_gives h₈.inv hvalid (hinside.grows h₈.grows)
    (hlast.grows h₈.grows) span)) ?_
  rintro _ b₉ ⟨h₉, -⟩
  have h₉ := h₈.trans h₉
  refine Succeeds.bind (.lift (goTo_gives h₉.inv (hinside.grows h₉.grows).holds)) ?_
  rintro _ b₁₀ ⟨h₁₀, -, -⟩
  have h₁₀ := h₉.trans h₁₀
  have hrest : ∀ b', After F {} b₅ b' → Succeeds _ b' _ := fun b' h' =>
    (takeElement_succeeds hvalue hbody h'.inv (hs.grows h'.grows) (hheader.grows h'.grows)
      (hlast.grows h'.grows) byRef valueSpan span).mono fun _ b'' h'' =>
        (hbefore.trans h').trans h''
  split
  · rename_i keySpan target
    refine Succeeds.bind (.lift (emitValue_gives h₁₀.inv (valueOp_iterKey (hs.grows h₁₀.grows))
      keySpan)) ?_
    rintro k b₁₁ ⟨h₁₁, -, hk⟩
    refine emitTarget_succeeds (hkey _ rfl) h₁₁.inv hk keySpan fun _ b₁₂ h₁₂ => ?_
    exact hrest b₁₂ ((h₁₀.trans h₁₁).trans h₁₂)
  · exact hrest b₁₀ h₁₀

/-! ## Switches -/

/-- The cases of a switch whose parts keep the invariant, in blocks of the body. -/
def CasesRun (F : Base) (cases : List (Case (Lowering OperandId) (Lowering Unit))) : Prop :=
  ∀ c ∈ cases, (∀ x ∈ c.cond, Keeps F x F.Mine) ∧ ∀ x ∈ c.body, Runs F x

/-- The blocks of cases are targets. -/
def Base.Places (F : Base) (a : Arena) (cases : PlacedCases) : Prop :=
  ∀ c ∈ cases, F.Target a c.2

theorem Base.Places.grows {a a' : Arena} {cases : PlacedCases} (h : F.Places a cases)
    (hg : Grows a a') : F.Places a' cases :=
  fun c hc => (h c hc).grows hg

/-- A step that stays in its block. -/
def Stays (F : Base) (x : Lowering OperandId) : Prop :=
  ∀ ⦃b⦄, Inv F {} b → Succeeds x b fun y b' =>
    After F {} b b' ∧ b'.block = b.block ∧ F.Mine b'.arena y

theorem placeCases_succeeds {cases : List (Case (Lowering OperandId) (Lowering Unit))} :
    ∀ {b : Builder}, Inv F {} b →
      Succeeds (cases.mapM fun case => do return (case, ← newBlock)) b fun placed b' =>
        After F {} b b' ∧ placed.map (·.1) = cases ∧ F.Places b'.arena placed := by
  induction cases with
  | nil => exact fun h => Succeeds.pure ⟨⟨h, .refl _⟩, rfl, nofun⟩
  | cons case rest ih =>
    intro b h
    rw [List.mapM_cons]
    refine Succeeds.bind (P := fun y b₁ => After F {} b b₁ ∧ y.1 = case ∧ F.Target b₁.arena y.2)
      (Succeeds.bind (.lift (newBlock_gives h)) fun block b₁ h₁ =>
        Succeeds.pure ⟨h₁.1, rfl, h₁.2.2⟩) ?_
    rintro ⟨_, block⟩ b₁ ⟨h₁, rfl, hblock⟩
    refine Succeeds.bind (ih h₁.inv) ?_
    rintro placed b₂ ⟨h₂, hplaced, hall⟩
    refine Succeeds.pure ⟨h₁.trans h₂, by rw [List.map_cons, hplaced], fun c hc => ?_⟩
    rcases List.mem_cons.1 hc with rfl | hc
    · exact hblock.grows h₂.grows
    · exact hall c hc

/-- A predecessor is recorded before the jump. -/
theorem link_gives (h : Inv F {} b) (source : BlockId) {target : BlockId}
    (ht : F.Target b.arena target) :
    Gives (change (·.link source target)) b fun _ b' => After F {} b b' ∧ b'.block = b.block ∧
      source ∈ (b'.arena.block target).preds := by
  obtain ⟨hinv, hg⟩ := h.link {} source ht nofun rfl
  refine ⟨⟨hinv, hg⟩, rfl, ?_⟩
  change source ∈ ((b.arena.link source target).block target).preds
  rw [Arena.link, Arena.block_modifyBlock_of_lt ht.2.1, if_pos rfl]
  exact mem_addNew.2 (.inr rfl)

/-- An equation that guards a case of a table is made. -/
theorem guardCase_succeeds {β : Type} {Q : β → Builder → Prop} (h : Inv F {} b)
    {subject value : OperandId} (hsubject : F.Mine b.arena subject)
    (hvalue : F.Mine b.arena value) (block : BlockId) (span : Span) {next : Lowering β}
    (hnext : ∀ b', After F {} b b' → b'.block = b.block → Succeeds next b' Q) :
    Succeeds (do
      let equal ← newTemporary none
      let _ ← detached (.binary .equal subject value equal) span
      change (·.addGuard block equal)
      next) b Q := by
  refine Succeeds.bind (.lift (newTemporary_gives h)) ?_
  rintro r b₁ ⟨h₁, hs₁, hr, -⟩
  refine Succeeds.bind (.lift (detached_gives h₁.inv (.binary .equal subject value r) span ?_)) ?_
  · intro sort x hx
    obtain ⟨slot, hm, -⟩ := OpKind.mem_mentioned.1 hx
    simp only [OpKind.slots, OpKind.one, List.mem_append, List.mem_singleton] at hm
    rcases hm with (hm | hm) | hm <;> cases hm
    · exact hsubject.grows h₁.grows
    · exact hvalue.grows h₁.grows
    · exact hr
  · rintro op b₂ ⟨h₂, hs₂, -⟩
    obtain ⟨hinv, hg⟩ := h₂.inv.addGuard block r
    refine Succeeds.bind (P := fun _ b₃ => After F {} b₂ b₃ ∧ b₃.block = b₂.block)
      (.lift ⟨⟨hinv, hg⟩, rfl⟩) ?_
    rintro _ b₃ ⟨h₃, hb₃⟩
    exact hnext b₃ ((h₁.trans h₂).trans h₃) (hb₃.trans (hs₂.block.trans hs₁.block))

/-- A block that a table may lead to: a target that has the block of the table as a predecessor. -/
def Base.Linked (F : Base) (a : Arena) (source block : BlockId) : Prop :=
  F.Target a block ∧ source ∈ (a.block block).preds

theorem Base.Linked.grows {a a' : Arena} {source block : BlockId} (h : F.Linked a source block)
    (hg : Grows a a') : F.Linked a' source block :=
  ⟨h.1.grows hg, hg.preds block h.2⟩

theorem tableEntries_succeeds (source : BlockId) {subject : OperandId} {cases : PlacedCases}
    (hcases : ∀ c ∈ cases, ∀ x ∈ c.1.cond, Stays F (current x)) :
    ∀ {b : Builder}, Inv F {} b → F.Mine b.arena subject → F.Places b.arena cases →
      Succeeds (tableEntries source subject cases) b fun y b' =>
        After F {} b b' ∧ b'.block = b.block ∧ F.AllMine b'.arena y.1 ∧
          ∀ target ∈ y.2, F.Linked b'.arena source target := by
  induction cases with
  | nil => exact fun h _ _ => Succeeds.pure ⟨⟨h, .refl _⟩, rfl, nofun, nofun⟩
  | cons first rest ih =>
    obtain ⟨case, block⟩ := first
    intro b h hsubject hplaces
    have hrest : ∀ c ∈ rest, ∀ x ∈ c.1.cond, Stays F (current x) :=
      fun c hc => hcases c (List.mem_cons_of_mem _ hc)
    have hblock := hplaces (case, block) List.mem_cons_self
    have hplaces : F.Places b.arena rest := fun c hc => hplaces c (List.mem_cons_of_mem _ hc)
    refine Succeeds.bind (.lift (link_gives h source hblock)) ?_
    rintro _ b₁ ⟨h₁, hb₁, hpred⟩
    have hlinked : F.Linked b₁.arena source block := ⟨hblock.grows h₁.grows, hpred⟩
    dsimp only
    split
    · rename_i cond hcond
      refine Succeeds.bind (hcases _ List.mem_cons_self cond hcond h₁.inv) ?_
      rintro value b₂ ⟨h₂, hb₂, hvalue⟩
      have hsubject := hsubject.grows (h₁.trans h₂).grows
      refine guardCase_succeeds h₂.inv hsubject hvalue block case.span fun b₃ h₃ hb₃ => ?_
      refine Succeeds.bind (ih hrest h₃.inv (hsubject.grows h₃.grows)
        (hplaces.grows ((h₁.trans h₂).trans h₃).grows)) ?_
      rintro ⟨values, targets⟩ b₄ ⟨h₄, hb₄, hvalues, htargets⟩
      have h₃₄ := h₃.trans h₄
      refine Succeeds.pure ⟨(h₁.trans h₂).trans h₃₄,
        ((hb₄.trans hb₃).trans hb₂).trans hb₁, ?_, ?_⟩
      · intro x hx
        rcases List.mem_cons.1 hx with rfl | hx
        · exact hvalue.grows h₃₄.grows
        · exact hvalues x hx
      · intro target ht
        rcases List.mem_cons.1 ht with rfl | ht
        · exact hlinked.grows (h₂.trans h₃₄).grows
        · exact htargets target ht
    · refine (ih hrest h₁.inv (hsubject.grows h₁.grows) (hplaces.grows h₁.grows)).mono ?_
      rintro ⟨values, targets⟩ b₂ ⟨h₂, hb₂, hvalues, htargets⟩
      exact ⟨h₁.trans h₂, hb₂.trans hb₁, hvalues, htargets⟩

/-- What is due was done before. -/
theorem Inv.linked {D : Due} (h : Inv F D b) (hversion : D.version = none)
    (hlinks : ∀ l ∈ D.links, l.1 ∈ (b.arena.block l.2).preds) : Inv F {} b :=
  h.settle ⟨.refl _, fun _ => rfl, rfl, rfl, rfl, rfl, rfl, rfl, rfl⟩ (fun _ _ _ => .inl) h.tidy
    h.start hversion.symm fun l hl => .inr (hlinks l hl)

theorem jumpTable_succeeds (h : Inv F {} b) {subject : OperandId}
    (hsubject : F.Mine b.arena subject) {cases : PlacedCases}
    (hcases : ∀ c ∈ cases, ∀ x ∈ c.1.cond, Stays F (current x)) (hplaces : F.Places b.arena cases)
    {last : BlockId} (hlast : F.Target b.arena last) (span : Span) :
    Succeeds (jumpTable subject cases last span) b fun _ b' => After F {} b b' := by
  refine Succeeds.get (Succeeds.bind (tableEntries_succeeds b.block hcases h hsubject hplaces) ?_)
  rintro ⟨values, targets⟩ b₁ ⟨h₁, hb₁, hvalues, htargets⟩
  have hother : F.Target b₁.arena ((defaultBlock? cases).getD last) :=
    getD_defaultBlock? (hplaces.grows h₁.grows) (hlast.grows h₁.grows)
  refine Succeeds.bind (.lift (link_gives h₁.inv b.block hother)) ?_
  rintro _ b₂ ⟨h₂, hb₂, hpred⟩
  have hlinked : ∀ target ∈ targets ++ [(defaultBlock? cases).getD last],
      F.Linked b₂.arena b.block target := by
    intro target ht
    rcases List.mem_append.1 ht with ht | ht
    · exact (htargets target ht).grows h₂.grows
    · rw [List.mem_singleton.1 ht]
      exact ⟨hother.grows h₂.grows, hpred⟩
  have hemits : Emits F {} b₂
      (.switch subject values targets ((defaultBlock? cases).getD last)) := by
    refine .of_reads rfl ?_ (fun target ht => (hlinked target ht).1) nofun nofun
    simp only [Base.ReadsAll, OpKind.slots, List.forall_mem_append, forall_mem_one, forall_mem_many]
    exact ⟨⟨(hsubject.grows h₁.grows).grows h₂.grows, rfl⟩,
      fun i x hx => ⟨(hvalues x (List.mem_of_getElem? hx)).grows h₂.grows, rfl⟩⟩
  refine Succeeds.bind (.lift (emit_gives h₂.inv hemits span)) ?_
  rintro _ b₃ ⟨h₃, -⟩
  -- the links that the table makes are there already
  have hinv₃ : Inv F {} b₃ := by
    refine h₃.inv.linked rfl fun l hl => ?_
    obtain ⟨target, ht, rfl⟩ := List.mem_map.1 hl
    rw [hb₂, hb₁]
    exact h₃.grows.preds target (hlinked target ht).2
  obtain ⟨hinv₄, hg₄⟩ := hinv₃.changeBlocks
    (b₃.arena.modifyBlock b.block fun block => { block with guarded := true }) rfl rfl
    (.of_modify _ _ fun _ => ⟨rfl, rfl, rfl, rfl⟩)
  exact Succeeds.lift ⟨hinv₄, ((h₁.grows.trans h₂.grows).trans h₃.grows).trans hg₄⟩

theorem compareCases_succeeds {subject : OperandId} {cases : PlacedCases}
    (hcases : ∀ c ∈ cases, ∀ x ∈ c.1.cond, Keeps F x F.Mine) :
    ∀ {b : Builder}, Inv F {} b → F.Mine b.arena subject → F.Places b.arena cases →
      Succeeds (compareCases subject cases) b fun _ b' => After F {} b b' := by
  induction cases with
  | nil => exact fun h _ _ => Succeeds.pure ⟨h, .refl _⟩
  | cons first rest ih =>
    obtain ⟨case, block⟩ := first
    intro b h hsubject hplaces
    have hrest : ∀ b', After F {} b b' →
        Succeeds (compareCases subject rest) b' fun _ b'' => After F {} b b'' := by
      intro b' h'
      refine (ih (fun c hc => hcases c (List.mem_cons_of_mem _ hc)) h'.inv
        (hsubject.grows h'.grows) fun c hc => ?_).mono fun _ b'' h'' => h'.trans h''
      exact (hplaces c (List.mem_cons_of_mem _ hc)).grows h'.grows
    have hblock := hplaces (case, block) List.mem_cons_self
    rw [compareCases]
    split
    · rename_i cond hcond
      refine Succeeds.bind (current_keeps (hcases _ List.mem_cons_self cond hcond) h) ?_
      rintro value b₁ ⟨h₁, hvalue⟩
      refine Succeeds.bind (.lift (emitValue_gives h₁.inv
        (valueOp_binary .equal (hsubject.grows h₁.grows) hvalue) case.span)) ?_
      rintro equal b₂ ⟨h₂, -, hequal⟩
      refine Succeeds.bind (.lift (newBlock_gives h₂.inv)) ?_
      rintro next b₃ ⟨h₃, -, hnext⟩
      have h₃' := (h₁.trans h₂).trans h₃
      refine Succeeds.bind (.lift (jumpIf_gives h₃.inv (hequal.grows h₃.grows)
        (hblock.grows h₃'.grows) hnext case.span)) ?_
      rintro _ b₄ ⟨h₄, -⟩
      obtain ⟨hinv₅, hg₅⟩ := h₄.inv.addGuard block equal
      refine Succeeds.bind (P := fun _ b₅ => After F {} b₄ b₅) (.lift ⟨hinv₅, hg₅⟩) ?_
      intro _ b₅ h₅
      refine Succeeds.bind (.lift (goTo_gives h₅.inv
        (hnext.grows (h₄.trans h₅).grows).holds)) ?_
      rintro _ b₆ ⟨h₆, -, -⟩
      exact hrest b₆ ((h₃'.trans (h₄.trans h₅)).trans h₆)
    · exact hrest b ⟨h, .refl _⟩

theorem fallThrough_succeeds (h : Inv F {} b) {previous : Option BlockId}
    (hprevious : ∀ p ∈ previous, F.Holds b.arena p) {target : BlockId}
    (ht : F.Target b.arena target) (span : Span) :
    Succeeds (fallThrough previous target span) b fun _ b' => After F {} b b' := by
  unfold fallThrough
  split
  · rename_i p
    refine Succeeds.bind (P := fun _ b₁ => b = b₁) (.lift rfl) ?_
    rintro dead _ rfl
    split
    · refine Succeeds.bind (.lift (goTo_gives h (hprevious p rfl))) ?_
      rintro _ b₁ ⟨h₁, -, -⟩
      refine Succeeds.lift ((jump_gives h₁.inv (ht.grows h₁.grows) span).mono ?_)
      exact fun _ b₂ ⟨h₂, _⟩ => h₁.trans h₂
    · exact Succeeds.pure ⟨h, .refl _⟩
  · exact Succeeds.pure ⟨h, .refl _⟩

theorem caseBodies_succeeds {cases : PlacedCases} (hcases : ∀ c ∈ cases, ∀ x ∈ c.1.body, Runs F x) :
    ∀ {b : Builder} {previous : Option BlockId}, Inv F {} b →
      (∀ p ∈ previous, F.Holds b.arena p) → F.Places b.arena cases →
      Succeeds (caseBodies previous cases) b fun y b' =>
        After F {} b b' ∧ ∀ p ∈ y, F.Holds b'.arena p := by
  induction cases with
  | nil => exact fun h hp _ => Succeeds.pure ⟨⟨h, .refl _⟩, hp⟩
  | cons first rest ih =>
    obtain ⟨case, block⟩ := first
    intro b previous h hprevious hplaces
    have hblock := hplaces (case, block) List.mem_cons_self
    refine Succeeds.bind (fallThrough_succeeds h hprevious hblock case.span) ?_
    intro _ b₁ h₁
    refine Succeeds.bind (.lift (goTo_gives h₁.inv (hblock.grows h₁.grows).holds)) ?_
    rintro _ b₂ ⟨h₂, -, -⟩
    refine Succeeds.bind (inOrder_runs (hcases _ List.mem_cons_self) h₂.inv) ?_
    intro _ b₃ h₃
    have h₃ := (h₁.trans h₂).trans h₃
    refine Succeeds.get ((ih (fun c hc => hcases c (List.mem_cons_of_mem _ hc)) h₃.inv ?_ ?_).mono ?_)
    · intro p hp
      cases hp
      exact h₃.inv.here
    · exact fun c hc => (hplaces c (List.mem_cons_of_mem _ hc)).grows h₃.grows
    · exact fun y b₄ ⟨h₄, hy⟩ => ⟨h₃.trans h₄, hy⟩

theorem switch_runs {subject : Lowering OperandId} (hsubject : Keeps F subject F.Mine)
    {table : Bool} {cases : List (Case (Lowering OperandId) (Lowering Unit))}
    (hcases : CasesRun F cases)
    (htable : table = true → ∀ c ∈ cases, ∀ x ∈ c.cond, Stays F (current x)) (span : Span) :
    Runs F (switch subject table cases span) := by
  intro b h
  refine Succeeds.bind (current_keeps hsubject h) ?_
  rintro s b₁ ⟨h₁, hs⟩
  refine Succeeds.bind (.lift (newBlock_gives h₁.inv)) ?_
  rintro last b₂ ⟨h₂, -, hlast⟩
  refine Succeeds.bind (placeCases_succeeds h₂.inv) ?_
  rintro placed b₃ ⟨h₃, rfl, hplaces⟩
  have hplaced : ∀ c ∈ placed, c.1 ∈ placed.map (·.1) := fun c hc => List.mem_map.2 ⟨c, hc, rfl⟩
  have hs := (hs.grows h₂.grows).grows h₃.grows
  have hlast := hlast.grows h₃.grows
  have hbefore := (h₁.trans h₂).trans h₃
  have hrest : ∀ b₄, After F {} b₃ b₄ → Succeeds (do
      let previous ← caseBodies none placed
      fallThrough previous last span
      goTo last) b₄ fun _ b' => After F {} b b' := by
    intro b₄ h₄
    refine Succeeds.bind (caseBodies_succeeds (fun c hc => (hcases c.1 (hplaced c hc)).2) h₄.inv
      nofun (hplaces.grows h₄.grows)) ?_
    rintro previous b₅ ⟨h₅, hprevious⟩
    have h₅ := h₄.trans h₅
    refine Succeeds.bind (fallThrough_succeeds h₅.inv hprevious (hlast.grows h₅.grows) span) ?_
    intro _ b₆ h₆
    have h₆ := h₅.trans h₆
    refine Succeeds.lift ((goTo_gives h₆.inv (hlast.grows h₆.grows).holds).mono ?_)
    exact fun _ b₇ ⟨h₇, _, _⟩ => (hbefore.trans h₆).trans h₇
  split
  · rename_i htrue
    refine Succeeds.bind (jumpTable_succeeds h₃.inv hs (fun c hc =>
      htable htrue c.1 (hplaced c hc)) hplaces hlast span) ?_
    exact fun _ b₄ h₄ => hrest b₄ h₄
  · refine Succeeds.bind (compareCases_succeeds (fun c hc => (hcases c.1 (hplaced c hc)).1) h₃.inv
      hs hplaces) ?_
    intro _ b₄ h₄
    refine Succeeds.bind (.lift (jump_gives h₄.inv (getD_defaultBlock? (hplaces.grows h₄.grows)
      (hlast.grows h₄.grows)) span)) ?_
    rintro _ b₅ ⟨h₅, -⟩
    exact hrest b₅ (h₄.trans h₅)

/-! ## Labels -/

theorem goto_runs (label : String) (span : Span) : Runs F (goto label span) := by
  intro b h
  refine Succeeds.get ?_
  have hdead : ∀ b', After F {} b b' → Succeeds (liftM goDead) b' fun _ b'' => After F {} b b'' :=
    fun b' h' => Succeeds.lift ((goDead_gives h'.inv).mono fun _ b'' h'' => h'.trans h'')
  split
  · rename_i target ht
    refine Succeeds.bind (.lift (jump_gives h (h.labels label target ht) span)) ?_
    exact fun _ b₁ ⟨h₁, _⟩ => hdead b₁ h₁
  · refine Succeeds.get ?_
    have hinv := h.changeLabels (b.scope.gotos ++ [(label, b.block)]) b.scope.labels
      (fun g hg => ?_) h.labels
    · refine Succeeds.bind (P := fun _ b₁ => After F {} b b₁) (.lift ⟨hinv, .refl _⟩) ?_
      exact fun _ b₁ h₁ => hdead b₁ h₁
    · rcases List.mem_append.1 hg with hg | hg
      · exact h.gotos g hg
      · rw [List.mem_singleton.1 hg]
        exact h.here

/-- A jump that waited for its label is made. -/
theorem lateJump_gives (h : Inv F {} b) {source block : BlockId} (hsource : F.Holds b.arena source)
    (hblock : F.Target b.arena block) (span : Span) :
    Gives (do
      let op ← detached (.jump block) span
      change fun a => (a.append source op).link source block) b fun _ b' =>
        After F {} b b' ∧ b'.scope = b.scope := by
  have hidle (sort : Bool) (x : OperandId) : x ∉ (OpKind.jump block).mentioned sort :=
    List.not_mem_nil
  refine Gives.bind (detached_gives h (.jump block) span fun sort x hx =>
    absurd hx (hidle sort x)) ?_
  rintro op b₁ ⟨h₁, hs₁, hlt, hop, -⟩
  have hsource := hsource.grows h₁.grows
  have hblock := hblock.grows h₁.grows
  have happendable : Appendable F {} b₁ source op :=
    { holds := hsource
      lt := hlt
      noPhi := by simp [hop]
      mine := by rw [hop]; exact fun x hx => absurd hx (hidle true x)
      targets := by rw [hop]; exact fun target ht => (List.mem_singleton.1 ht).symm ▸ hblock
      here := fun hversion => absurd rfl hversion
      writes := fun name _ => by rw [Arena.writtenVersion?, hop]; rfl
      asserts := by simp [hop] }
  have happend := h₁.inv.append happendable
  rw [hop] at happend
  have hg₂ := grows_append hsource.2 op
  obtain ⟨hinv₃, hg₃⟩ := happend.link {} source (hblock.grows hg₂)
    (fun l hl => .inr (List.mem_singleton.1 hl)) rfl
  exact ⟨⟨hinv₃, (h₁.grows.trans hg₂).trans hg₃⟩, hs₁.scope⟩

theorem label_gives (name : String) (span : Span) (h : Inv F {} b) :
    Gives (label name span) b fun _ b' => After F {} b b' := by
  refine Gives.get ?_
  split
  · exact ⟨h, .refl _⟩
  refine Gives.bind (newBlock_gives h) ?_
  rintro block b₁ ⟨h₁, -, hblock⟩
  refine Gives.bind (jump_gives h₁.inv hblock span) ?_
  rintro _ b₂ ⟨h₂, -⟩
  refine Gives.bind (guardBlock_gives h₂.inv block) ?_
  rintro _ b₃ ⟨h₃, -⟩
  have hblock := (hblock.grows h₂.grows).grows h₃.grows
  have hbefore := (h₁.trans h₂).trans h₃
  refine Gives.get ?_
  dsimp only
  rw [List.partition_eq_filter_filter]
  refine Gives.bind (Gives.forM
    (I := fun b' => After F {} b₃ b' ∧ b'.scope = b₃.scope) ⟨⟨h₃.inv, .refl _⟩, rfl⟩ ?_) ?_
  · rintro ⟨l, source⟩ hg b₄ ⟨h₄, hs₄⟩
    have hsource := h₃.inv.gotos _ (List.mem_filter.1 hg).1
    refine (lateJump_gives h₄.inv (hsource.grows h₄.grows) (hblock.grows h₄.grows) span).mono ?_
    exact fun _ b₅ ⟨h₅, hs₅⟩ => ⟨h₄.trans h₅, hs₅.trans hs₄⟩
  rintro _ b₄ ⟨h₄, hs₄⟩
  have hblock := hblock.grows h₄.grows
  have hinv := h₄.inv.changeLabels (b₃.scope.gotos.filter fun x => !(x.1 == name))
    (b₄.scope.labels.insert name block) (fun g hg => ?_) (fun l target ht => ?_)
  · refine Gives.bind (P := fun _ b₅ => After F {} b₄ b₅) ⟨hinv, .refl _⟩ ?_
    intro _ b₅ h₅
    refine (goTo_gives h₅.inv (hblock.grows h₅.grows).holds).mono ?_
    exact fun _ b₆ ⟨h₆, _, _⟩ => ((hbefore.trans h₄).trans h₅).trans h₆
  · exact (h₃.inv.gotos g (List.mem_filter.1 hg).1).grows h₄.grows
  · rw [Std.TreeMap.get?_eq_getElem?, Std.TreeMap.getElem?_insert] at ht
    split at ht
    · cases ht
      exact hblock
    · exact h₄.inv.labels l target ht

end QueryTaint.Lower
