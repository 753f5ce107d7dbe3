import QueryTaint.Proofs.Lower.Logic

/-!
# Logics of lowering syntax trees

Each way of putting statements together keeps to a logic if its parts do (`Logic.Acts`). A `Theory`
speaks of the bodies of functions too, and holds of lowering any syntax tree, by one induction over
expressions and statements (`expr_makes`, `stmt_acts`).
-/

namespace QueryTaint.Lower

-- A membership in a union is taken apart as it stands, and not as one in a chain of insertions.
attribute [-simp] Set.singleton_union Set.union_insert

variable {L : Logic} {G : Set Entry}

/-! ## Control -/

theorem inOrder_acts {steps : List (Lowering Unit)} (h : ∀ x ∈ steps, L.Acts x) :
    L.Acts (inOrder steps) := fun G => .forM fun x hx => h x hx G

theorem ifGiven_acts {step : Option (Lowering Unit)} (h : ∀ x ∈ step, L.Acts x) :
    L.Acts (ifGiven step) := fun G => by
  cases step with
  | none => exact .pure (Set.empty_subset _)
  | some x => exact h x rfl G

theorem under_step {cond : OperandId} {x : Lowering Unit} (hcond : .operand cond ∈ G)
    (hx : L.Lowers G x fun _ => ∅) : L.Lowers G (under cond x) fun _ => ∅ :=
  L.under hcond hx

/-! ## Branches -/

theorem branch_lowers {last : BlockId} (hlast : .block last ∈ G) (span : Span)
    {cond : Lowering OperandId} {body otherwise : Lowering Unit} (hcond : L.Makes cond)
    (hbody : L.Acts body)
    (hotherwise : ∀ G, .block last ∈ G → L.Lowers G otherwise fun _ => ∅) :
    L.Lowers G (branch last span cond body otherwise) fun _ => ∅ := by
  refine .bind (hcond.current G) fun cond => .bind L.newBlock fun ifBlock =>
    .bind L.newBlock fun elseBlock =>
    .bind (L.jumpIf (by simp) (by simp) (by simp) span) fun _ =>
    .bind (L.assertBranches (by simp) (by simp) (by simp)) fun _ =>
    .bind (under_step (by simp) ?_) fun _ => .bind (L.negate (by simp)) fun _ =>
    under_step (by simp) ?_
  · exact .bind (L.guardBlock (by simp)) fun _ => .bind (L.goTo (by simp))
      fun _ => .bind (hbody _) fun _ => L.jump (by simp [hlast]) span
  · exact .bind (L.guardBlock (by simp)) fun _ => .bind (L.goTo (by simp))
      fun _ => hotherwise _ (by simp [hlast])

theorem branches_lowers {last : BlockId} {cond : Lowering OperandId} {body : Lowering Unit}
    {elseIfs : List (ElseIf (Lowering OperandId) (Lowering Unit))}
    {otherwise : Option (Lowering Unit)} {span : Span} (hlast : .block last ∈ G)
    (hcond : L.Makes cond) (hbody : L.Acts body)
    (helseIfs : ∀ e ∈ elseIfs, L.Makes e.cond ∧ ∀ x ∈ e.body, L.Acts x)
    (hotherwise : ∀ x ∈ otherwise, L.Acts x) :
    L.Lowers G (branches last span cond body elseIfs otherwise) fun _ => ∅ := by
  induction elseIfs generalizing span cond body G with
  | nil =>
    exact branch_lowers hlast span hcond hbody fun G hlast =>
      .bind (ifGiven_acts hotherwise G) fun _ => L.jump (by simp [hlast]) span
  | cons next rest ih =>
    obtain ⟨hnext, hrest⟩ := List.forall_mem_cons.1 helseIfs
    exact branch_lowers hlast span hcond hbody fun G hlast =>
      ih hlast hnext.1 (inOrder_acts hnext.2) hrest

theorem ifElse_acts {cond : Lowering OperandId} {body : Lowering Unit}
    {elseIfs : List (ElseIf (Lowering OperandId) (Lowering Unit))}
    {otherwise : Option (Lowering Unit)} (hcond : L.Makes cond) (hbody : L.Acts body)
    (helseIfs : ∀ e ∈ elseIfs, L.Makes e.cond ∧ ∀ x ∈ e.body, L.Acts x)
    (hotherwise : ∀ x ∈ otherwise, L.Acts x) (span : Span) :
    L.Acts (ifElse cond body elseIfs otherwise span) := fun _ =>
  .bind L.newBlock fun _ =>
    .bind (branches_lowers (by simp) hcond hbody helseIfs hotherwise) fun _ =>
    L.goTo (by simp)

/-- A value is lowered under a condition, in a block that goes on to another one. A block that turns
out dead gives no value. -/
def arm (last : BlockId) (span : Span) (cond : OperandId) (block : BlockId)
    (value : Lowering OperandId) : Lowering (List OperandId) :=
  under cond do
    guardBlock block
    goTo block
    let value ← value
    let dead ← isDead (← get).block
    jump last span
    return if dead then [] else [value]

theorem arm_lowers {last : BlockId} {cond : OperandId} {block : BlockId} {value : Lowering OperandId}
    (hlast : .block last ∈ G) (hcond : .operand cond ∈ G) (hblock : .block block ∈ G)
    (hvalue : ∀ G', G ⊆ G' → L.Lowers G' value fun x => {.operand x}) (span : Span) :
    L.Lowers G (arm last span cond block value) Entry.operands :=
  L.under hcond (.bind (L.guardBlock hblock) fun _ => .bind (L.goTo (by simp [hblock])) fun _ =>
    .bind (hvalue _ fun e he => by simp [he]) fun _ => .get fun _ => .bind (L.isDead _) fun _ =>
    .bind (L.jump (by simp [hlast]) span) fun _ => .pure (by split <;> simp))

/-- A new block joins two values that are lowered in blocks of their own. -/
theorem choice_lowers {cond : OperandId} {ifBlock elseBlock : BlockId} (hcond : .operand cond ∈ G)
    (hif : .block ifBlock ∈ G) (helse : .block elseBlock ∈ G) {first second : Lowering OperandId}
    (hfirst : ∀ G', G ⊆ G' → L.Lowers G' first fun x => {.operand x}) (hsecond : L.Makes second)
    (span : Span) : L.Lowers G (do
      let last ← newBlock
      jumpIf cond ifBlock elseBlock span
      assertBranches cond ifBlock elseBlock
      let first ← arm last span cond ifBlock first
      let negated ← negate cond
      let second ← arm last span negated elseBlock second
      goTo last
      let result ← newTemporary none
      let phi ← detached (.phi (first ++ second) result) span
      change (·.attachPhi last phi)
      return result) fun x => {.operand x} := by
  have harms (last : BlockId) : L.Lowers ({.block last} ∪ G) (do
      jumpIf cond ifBlock elseBlock span
      assertBranches cond ifBlock elseBlock
      let first ← arm last span cond ifBlock first
      let negated ← negate cond
      let second ← arm last span negated elseBlock second
      goTo last
      return first ++ second) Entry.operands :=
    .bind (L.jumpIf (by simp [hcond]) (by simp [hif]) (by simp [helse]) span) fun _ =>
      .bind (L.assertBranches (by simp [hcond]) (by simp [hif]) (by simp [helse])) fun _ =>
      .bind (arm_lowers (by simp) (by simp [hcond]) (by simp [hif]) (fun G' hG =>
        hfirst G' fun e he => hG (by simp [he])) span) fun _ =>
      .bind (L.negate (by simp [hcond])) fun _ =>
      .bind (arm_lowers (by simp) (by simp) (by simp [helse]) (fun _ _ => hsecond _) span) fun _ =>
      .bind (L.goTo (by simp)) fun _ => .pure (by simp +contextual [or_imp])
  have hjoin := L.join span harms
  simpa only [bind_assoc, pure_bind] using hjoin

theorem ternary_makes {cond ifFalse : Lowering OperandId} {ifTrue : Option (Lowering OperandId)}
    (hcond : L.Makes cond) (htrue : ∀ x ∈ ifTrue, L.Makes x) (hfalse : L.Makes ifFalse)
    (span : Span) : L.Makes (ternary cond ifTrue ifFalse span) := by
  refine fun G => .bind (hcond.current G) fun cond => .bind L.newBlock fun ifBlock =>
    .bind L.newBlock fun elseBlock => choice_lowers (by simp) (by simp) (by simp) (fun G' hG => ?_)
      hfalse.current span
  cases ifTrue with
  | none => exact .pure (Set.singleton_subset_iff.2 (hG (by simp)))
  | some value => exact (htrue value rfl).current _

/-! ## Loops -/

theorem leaveLoop_lowers {cond : OperandId} {last : BlockId} (hcond : .operand cond ∈ G)
    (hlast : .block last ∈ G) : L.Lowers G (leaveLoop cond last) fun _ => ∅ :=
  .bind (L.negate hcond) fun _ =>
    .bind (under_step (by simp) (L.guardBlock (by simp [hlast]))) fun _ =>
    L.goTo (by simp [hlast])

theorem loop_acts {cond : Lowering OperandId} {body : Lowering Unit} (hcond : L.Makes cond)
    (hbody : L.Acts body) (span : Span) : L.Acts (loop cond body span) := by
  refine fun G => .bind L.newBlock fun header => .bind L.newBlock
    fun inside => .bind L.newBlock fun last =>
    .bind (L.jump (by simp) span) fun _ => .bind (L.goTo (by simp))
    fun _ => .bind (hcond _) fun cond =>
    .bind (L.jumpIf (by simp) (by simp) (by simp) span) fun _ =>
    .bind (L.assertBranches (by simp) (by simp) (by simp)) fun _ =>
    .bind (under_step (by simp) ?_) fun _ => leaveLoop_lowers (by simp) (by simp)
  exact .bind (L.guardBlock (by simp)) fun _ => .bind (L.goTo (by simp))
    fun _ => .bind (hbody _) fun _ => L.jump (by simp) span

theorem lastCondition_makes {conds : List (Lowering OperandId)} (h : ∀ x ∈ conds, L.Makes x) :
    L.Makes (lastCondition conds) := by
  refine fun G => .bind (L.currents h) fun conds => ?_
  split
  · rename_i cond hlast
    exact .pure (by simp [List.mem_of_getLast? hlast])
  · exact (L.operand nofun rfl nofun)

/-- Values are taken for what taking them does. -/
theorem effects_lowers {steps : List (Lowering OperandId)} (h : ∀ x ∈ steps, L.Makes x) :
    L.Lowers G (do let _ ← steps.mapM current) fun _ => ∅ :=
  .bind (L.currents h) fun _ => .pure (Set.empty_subset _)

theorem forLoop_acts {init cond step : List (Lowering OperandId)} {body : Lowering Unit}
    (hinit : ∀ x ∈ init, L.Makes x) (hcond : ∀ x ∈ cond, L.Makes x)
    (hstep : ∀ x ∈ step, L.Makes x) (hbody : L.Acts body) (span : Span) :
    L.Acts (forLoop init cond step body span) := fun _ =>
  .bind (L.currents hinit) fun _ => loop_acts (lastCondition_makes hcond)
    (fun _ => .bind (hbody _) fun _ => effects_lowers hstep) span _

theorem doWhile_acts {body : Lowering Unit} {cond : Lowering OperandId} (hbody : L.Acts body)
    (hcond : L.Makes cond) (span : Span) : L.Acts (doWhile body cond span) := fun _ =>
  .bind L.newBlock fun _ => .bind L.newBlock fun _ =>
    .bind (L.jump (by simp) span) fun _ => .bind (L.goTo (by simp))
    fun _ => .bind (hbody _) fun _ => .bind (hcond.current _) fun _ =>
    .bind (L.jumpIf (by simp) (by simp) (by simp) span) fun _ =>
    .bind (L.assertBranches (by simp) (by simp) (by simp)) fun _ =>
    leaveLoop_lowers (by simp) (by simp)

theorem foreach_acts {subject : Lowering OperandId} {key : Option (Span × Lowering OperandId)}
    {byRef : Bool} {valueSpan : Span} {value : OperandId → Lowering Unit} {body : Lowering Unit}
    (hsubject : L.Makes subject) (hkey : ∀ k ∈ key, L.Makes k.2)
    (hvalue : ∀ x G, .operand x ∈ G → L.Lowers G (value x) fun _ => ∅) (hbody : L.Acts body)
    (span : Span) : L.Acts (foreach subject key byRef valueSpan value body span) := by
  refine fun G => .bind (hsubject.current G) fun subject =>
    .bind (L.place span (by simp) rfl rfl) fun _ => .bind L.newBlock
    fun header => .bind L.newBlock fun inside => .bind L.newBlock
    fun last => .bind (L.jump (by simp) span) fun _ =>
    .bind (L.goTo (by simp)) fun _ =>
    .bind (L.value span (by simp) (fun _ => rfl) fun _ => rfl) fun _ =>
    .bind (L.jumpIf (by simp) (by simp) (by simp) span) fun _ =>
    .bind (L.goTo (by simp)) fun _ => ?_
  have hrest {G : Set Entry} (hs : .operand subject ∈ G) (hheader : .block header ∈ G)
      (hlast : .block last ∈ G) : L.Lowers G (do
        value (← emitValue valueSpan (.iterValue subject byRef ·))
        body
        let _ ← emit (.next subject) span
        jump header span
        goTo last) fun _ => ∅ :=
    .bind (L.value _ (by simp [hs]) (fun _ => rfl) fun _ => rfl) fun x =>
      .bind (hvalue x _ (by simp)) fun _ => .bind (hbody _) fun _ =>
      .bind (L.place span (by simp [hs]) rfl rfl) fun _ =>
      .bind (L.jump (by simp [hheader]) span) fun _ =>
      (L.goTo (by simp [hlast]))
  cases key with
  | none => exact hrest (by simp) (by simp) (by simp)
  | some key =>
    exact .bind (L.value _ (by simp) (fun _ => rfl) fun _ => rfl) fun _ =>
      .bind (hkey key rfl _) fun _ =>
      .bind (L.value _ (by simp) (fun _ => rfl) fun _ => rfl) fun _ =>
      hrest (by simp) (by simp) (by simp)

/-! ## Switches -/

/-- Each case gets a block of its own. What is known of the cases is passed on. -/
theorem placeCases_lowers {β : Type} {out : β → Set Entry}
    {P : Case (Lowering OperandId) (Lowering Unit) → Prop}
    {cases : List (Case (Lowering OperandId) (Lowering Unit))} {k : PlacedCases → Lowering β}
    (hcases : ∀ c ∈ cases, P c)
    (hk : ∀ placed : PlacedCases, (∀ c ∈ placed, P c.1) →
      L.Lowers (Entry.blocks (placed.map (·.2)) ∪ G) (k placed) out) :
    L.Lowers G ((cases.mapM fun case => do return (case, ← newBlock)) >>= k) out := by
  induction cases generalizing k G with
  | nil => exact (hk [] nofun).mono (Set.union_subset (by simp) subset_rfl)
  | cons case rest ih =>
    obtain ⟨hcase, hrest⟩ := List.forall_mem_cons.1 hcases
    rw [List.mapM_cons]
    simp only [bind_assoc, pure_bind]
    refine .bind L.newBlock fun block => ih hrest fun placed hplaced => ?_
    refine (hk ((case, block) :: placed) ?_).mono (Set.union_subset ?_ ?_)
    · exact List.forall_mem_cons.2 ⟨hcase, hplaced⟩
    · simp +contextual
    · exact fun e he => by simp [he]

theorem tableEntries_lowers {source : BlockId} {subject : OperandId} {cases : PlacedCases}
    (hsource : .block source ∈ G) (hsubject : .operand subject ∈ G)
    (hcases : ∀ c ∈ cases, (∀ x ∈ c.1.cond, L.Makes x) ∧ .block c.2 ∈ G) :
    L.Lowers G (tableEntries source subject cases) fun made =>
      Entry.operands made.1 ∪ Entry.blocks made.2 := by
  induction cases generalizing G with
  | nil => exact .pure (by simp)
  | cons c rest ih =>
    obtain ⟨case, block⟩ := c
    obtain ⟨⟨hcond, hblock⟩, hrest⟩ := List.forall_mem_cons.1 hcases
    have hblock : .block block ∈ G := hblock
    rw [tableEntries]
    refine .bind (L.link hsource hblock) fun _ => ?_
    have hentries {G' : Set Entry} (hG : G ⊆ G') := ih (hG hsource) (hG hsubject) fun c hc =>
      ⟨(hrest c hc).1, hG (hrest c hc).2⟩
    cases hcase : case.cond with
    | none => exact hentries Set.subset_union_right
    | some cond =>
      refine .bind ((hcond cond hcase).current _) fun value => .condition case.span
        (fun r => by simp [hsubject]) (fun _ => rfl) (fun _ => rfl) fun equal =>
        .bind (L.addGuard (by simp [hblock]) (by simp)) fun _ =>
        .bind (hentries fun e he => by simp [he]) fun _ => .pure (by simp +contextual [hblock])

theorem jumpTable_lowers {subject : OperandId} {cases : PlacedCases} {last : BlockId}
    (hsubject : .operand subject ∈ G) (hlast : .block last ∈ G)
    (hcases : ∀ c ∈ cases, (∀ x ∈ c.1.cond, L.Makes x) ∧ .block c.2 ∈ G) (span : Span) :
    L.Lowers G (jumpTable subject cases last span) fun _ => ∅ := by
  have hdefault : .block ((defaultBlock? cases).getD last) ∈ G :=
    getD_defaultBlock? (P := (Entry.block · ∈ G)) (fun c hc => (hcases c hc).2) hlast
  exact .get fun _ => .bind (tableEntries_lowers (by simp) (by simp [hsubject]) fun c hc =>
      ⟨(hcases c hc).1, .inr (hcases c hc).2⟩) fun _ =>
    .bind (L.link (by simp) (by simp [hdefault])) fun _ =>
    .bind (L.place span (by simp +contextual [hsubject, hdefault, or_imp]) rfl rfl) fun _ =>
    L.mark (by simp) ⟨fun _ => rfl, fun _ => rfl, fun _ => rfl, fun _ => rfl⟩

theorem compareCases_lowers {subject : OperandId} {cases : PlacedCases}
    (hsubject : .operand subject ∈ G)
    (hcases : ∀ c ∈ cases, (∀ x ∈ c.1.cond, L.Makes x) ∧ .block c.2 ∈ G) :
    L.Lowers G (compareCases subject cases) fun _ => ∅ := by
  induction cases generalizing G with
  | nil => exact .pure (Set.empty_subset _)
  | cons c rest ih =>
    obtain ⟨case, block⟩ := c
    obtain ⟨⟨hcond, hblock⟩, hrest⟩ := List.forall_mem_cons.1 hcases
    have hblock : .block block ∈ G := hblock
    have hcompare {G' : Set Entry} (hG : G ⊆ G') := ih (hG hsubject) fun c hc =>
      ⟨(hrest c hc).1, hG (hrest c hc).2⟩
    rw [compareCases]
    cases hcase : case.cond with
    | none => exact hcompare subset_rfl
    | some cond =>
      exact .bind ((hcond cond hcase).current _) fun _ =>
        .bind (L.result _ (by simp [hsubject]) (fun _ => rfl) fun _ => .inr rfl) fun _ =>
        .bind L.newBlock fun _ =>
        .bind (L.jumpIf (by simp) (by simp [hblock]) (by simp) _) fun _ =>
        .bind (L.addGuard (by simp [hblock]) (by simp)) fun _ =>
        .bind (L.goTo (by simp)) fun _ => hcompare fun e he => by simp [he]

theorem fallThrough_lowers {previous : Option BlockId} {target : BlockId}
    (hprevious : ∀ p ∈ previous, .block p ∈ G) (ht : .block target ∈ G) (span : Span) :
    L.Lowers G (fallThrough previous target span) fun _ => ∅ := by
  cases previous with
  | none => exact .pure (Set.empty_subset _)
  | some previous =>
    have hprevious : .block previous ∈ G := hprevious previous rfl
    refine .bind (L.isDead previous) fun _ => ?_
    split
    · exact .bind (L.goTo (by simp [hprevious])) fun _ =>
        (L.jump (by simp [ht]) span)
    · exact .pure (Set.empty_subset _)

theorem caseBodies_lowers {cases : PlacedCases} {previous : Option BlockId}
    (hcases : ∀ c ∈ cases, (∀ x ∈ c.1.body, L.Acts x) ∧ .block c.2 ∈ G)
    (hprevious : ∀ p ∈ previous, .block p ∈ G) :
    L.Lowers G (caseBodies previous cases) fun last => Entry.blocks last.toList := by
  induction cases generalizing G previous with
  | nil => exact .pure (by simpa using hprevious)
  | cons c rest ih =>
    obtain ⟨case, block⟩ := c
    obtain ⟨⟨hbody, hblock⟩, hrest⟩ := List.forall_mem_cons.1 hcases
    have hblock : .block block ∈ G := hblock
    rw [caseBodies]
    refine .bind (fallThrough_lowers hprevious hblock _) fun _ =>
      .bind (L.goTo (by simp [hblock])) fun _ => .bind (inOrder_acts hbody _) fun _ =>
      .get fun b => ih (fun c hc => ⟨(hrest c hc).1, by simp [(hrest c hc).2]⟩) ?_
    rintro p ⟨⟩
    simp

theorem switch_acts {subject : Lowering OperandId} (hsubject : L.Makes subject) {table : Bool}
    {cases : List (Case (Lowering OperandId) (Lowering Unit))}
    (hcases : ∀ c ∈ cases, (∀ x ∈ c.cond, L.Makes x) ∧ ∀ x ∈ c.body, L.Acts x) (span : Span) :
    L.Acts (switch subject table cases span) := by
  refine fun G => .bind (hsubject.current G) fun subject => .bind L.newBlock
    fun last => placeCases_lowers hcases fun placed hplaced => ?_
  have hblock (c : Case (Lowering OperandId) (Lowering Unit) × BlockId) (hc : c ∈ placed) :
      .block c.2 ∈ Entry.blocks (placed.map (·.2)) := by
    simpa using ⟨c.1, hc⟩
  have hconds {G : Set Entry} (hG : Entry.blocks (placed.map (·.2)) ⊆ G) : ∀ c ∈ placed,
      (∀ x ∈ c.1.cond, L.Makes x) ∧ .block c.2 ∈ G := fun c hc =>
    ⟨(hplaced c hc).1, hG (hblock c hc)⟩
  have hbodies {G : Set Entry} (hG : Entry.blocks (placed.map (·.2)) ⊆ G)
      (hlast : .block last ∈ G) : L.Lowers G (do
        let previous ← caseBodies none placed
        fallThrough previous last span
        goTo last) fun _ => ∅ :=
    .bind (caseBodies_lowers (fun c hc => ⟨(hplaced c hc).2, hG (hblock c hc)⟩) nofun) fun _ =>
      .bind (fallThrough_lowers (by simp +contextual) (by simp [hlast]) span) fun _ =>
      (L.goTo (by simp [hlast]))
  split
  · exact .bind (jumpTable_lowers (by simp) (by simp) (hconds fun e he => .inl he) span) fun _ =>
      hbodies (fun e he => by simp [he]) (by simp)
  · refine .bind (compareCases_lowers (by simp) (hconds fun e he => .inl he)) fun _ =>
      .bind (L.jump (getD_defaultBlock? (P := (Entry.block · ∈ _))
        (fun c hc => ?_) (by simp)) span) fun _ =>
      hbodies (fun e he => by simp [he]) (by simp)
    exact .inr (.inl (hblock c hc))

/-! ## Handlers -/

theorem handler_acts {caught : Catch (Lowering Unit)} (h : ∀ x ∈ caught.body, L.Acts x) :
    L.Acts (handler caught) := by
  refine fun G => .bind L.newBlock fun _ => .bind (L.goTo (by simp))
    fun _ => ?_
  split
  · exact .bind (L.newVariable _) fun _ =>
      .bind (L.write (by simp)) fun _ => inOrder_acts h _
  · exact inOrder_acts h _

theorem tryCatch_acts {body : Lowering Unit} {catches : List (Catch (Lowering Unit))}
    {finish : Option (Lowering Unit)} (hbody : L.Acts body)
    (hcatches : ∀ c ∈ catches, ∀ x ∈ c.body, L.Acts x) (hfinish : ∀ x ∈ finish, L.Acts x) :
    L.Acts (tryCatch body catches finish) := fun G =>
  .bind (hbody G) fun _ => .get fun _ => .bind (.forM fun c hc => handler_acts (hcatches c hc) _)
    fun _ => .bind (L.goTo (by simp)) fun _ => ifGiven_acts hfinish _

/-! ## Declarations -/

theorem apart_lowers {value : Lowering OperandId} (hvalue : L.Makes value) :
    L.Lowers G (apart value) fun made => {.operand made.1, .block made.2} :=
  .bind L.newBlock fun _ => .bind (Logic.Lowers.inBlock (by simp) (hvalue _)) fun _ =>
    .pure (by simp [Set.insert_subset_iff])

theorem defaultApart_lowers {value : Option (Lowering OperandId)} (h : ∀ x ∈ value, L.Makes x) :
    L.Lowers G (defaultApart value) fun made =>
      Entry.operands made.1.toList ∪ Entry.blocks made.2.toList := by
  cases value with
  | none => exact .pure (by simp)
  | some value => exact .bind (apart_lowers (h value rfl)) fun _ => .pure (by simp)

/-- The class around what is lowered changes. -/
theorem changeClass_lowers (cls : Option String) :
    L.Lowers G (modify fun b => { b with cls }) fun _ => ∅ :=
  (L.aside fun _ => ⟨⟨rfl, rfl, rfl, rfl⟩, rfl, rfl, rfl, rfl⟩)

theorem newStrings_lowers {α : Type} (text : α → String) (l : List α) :
    L.Lowers G (l.mapM fun x => (newString (text x) : Lowering OperandId)) Entry.operands :=
  .mapM fun _ _ => L.newString _

theorem classDecl_acts (kind : ClassKind) (name : String) (modifiers : Nat) (parent : Option Name)
    (implements : List Name) {steps : List (Lowering Unit)} (hsteps : ∀ x ∈ steps, L.Acts x)
    (span : Span) : L.Acts (classDecl kind name modifiers parent implements steps span) := by
  refine fun G => .get fun b => .bind L.newBlock fun block => ?_
  have hinside {G : Set Entry} : L.Lowers G (do
      modify fun b => { b with cls := some name }
      inOrder steps
      modify fun b' => { b' with cls := b.cls } : Lowering Unit) fun _ => ∅ :=
    .bind (changeClass_lowers _) fun _ => .bind (inOrder_acts hsteps _) fun _ => changeClass_lowers _
  refine .bind (Logic.Lowers.inBlock (by simp) hinside) fun _ => .bind (L.newString name)
    fun name => ?_
  have hrest {G : Set Entry} (hname : .operand name ∈ G) (hblock : .block block ∈ G)
      {parent : Option OperandId} (hparent : ∀ x ∈ parent, .operand x ∈ G) : L.Lowers G (do
        let implements ← implements.mapM fun i => (newString i.joined : Lowering OperandId)
        let _ ← emit (.classDecl kind name block modifiers parent implements) span) fun _ => ∅ :=
    .bind (newStrings_lowers Name.joined implements) fun _ => .bind (L.place span
      (by simp_all +contextual [or_imp]) rfl rfl) fun _ => .pure (Set.empty_subset _)
  split
  · exact .bind (L.newString _) fun _ => hrest (by simp) (by simp) (by simp)
  · exact hrest (by simp) (by simp) nofun

theorem propertyDecl_acts (modifiers : Nat) (type : DeclaredType)
    {p : Declared (Lowering OperandId)} (hp : ∀ x ∈ p.default, L.Makes x) :
    L.Acts (propertyDecl modifiers type p) := by
  refine fun G => .bind (defaultApart_lowers hp) ?_
  rintro ⟨default, block⟩
  have hrest {G : Set Entry} (hG : Entry.operands default.toList ∪ Entry.blocks block.toList ⊆ G) :
      L.Lowers G (do
        let name ← newString p.name
        let _ ← emit (.propertyDecl name modifiers type default block) p.span : Lowering Unit)
      fun _ => ∅ :=
    .bind (L.newString _) fun _ =>
      .bind (L.place _ (by simp_all +contextual [or_imp]) rfl rfl) fun _ =>
      .pure (Set.empty_subset _)
  dsimp only
  split
  · refine .look fun _ => ?_
    split
    · exact .bind L.noteFunc fun _ =>
        .bind (L.mark (by simp) ⟨fun _ => rfl, fun _ => rfl, fun _ => rfl, fun _ => rfl⟩) fun _ =>
        hrest fun e he => .inr (.inr (.inl he))
    · exact hrest fun e he => .inl he
  · exact hrest fun e he => .inl he

theorem constDecl_acts (inClass : Bool) {c : ConstDecl (Lowering OperandId)}
    (hc : L.Makes c.value) : L.Acts (constDecl inClass c) := fun _ =>
  .bind (apart_lowers hc) fun _ => .get fun _ => .bind (L.newString _) fun _ =>
    .bind (L.place _ (by simp) rfl rfl) fun _ => L.define _ (by simp)

theorem unset_lowers {vars : List (Bool × Lowering OperandId)} (h : ∀ v ∈ vars, L.Makes v.2) :
    L.Lowers G (unset vars) fun made => Entry.operands made.1 ∪ Entry.operands made.2 := by
  induction vars generalizing G with
  | nil => exact .pure (by simp)
  | cons first rest ih =>
    obtain ⟨named, step⟩ := first
    obtain ⟨hstep, hrest⟩ := List.forall_mem_cons.1 h
    refine .bind (hstep G) fun raw => .bind (L.read (by simp)) fun read => ?_
    dsimp only
    split
    · exact .bind (L.write (by simp)) fun _ =>
        .bind (ih hrest) fun _ => .pure (by simp +contextual)
    · exact .bind L.newResult fun _ =>
        .bind (ih hrest) fun _ => .pure (by simp +contextual)

/-! ## Expressions -/

theorem binaryStep_makes (op : BinaryOp) {left right : Lowering OperandId} (hleft : L.Makes left)
    (hright : L.Makes right) (span : Span) :
    L.Makes (do
      let left ← left
      let right ← current right
      readVariable (← binary op left right span)) := fun G =>
  .bind (hleft G) fun _ => .bind (hright.current _) fun _ =>
    .bind (L.binary op (by simp) (by simp) span) fun _ =>
    L.read (by simp)

theorem write_makes {x : Lowering OperandId} (hx : L.Makes x) :
    L.Makes (do writeVariable (← x)) := fun G =>
  .bind (hx G) fun _ => L.write (by simp)

/-! ## Statements -/

theorem echo_acts {spans : List Span} {values : List (Lowering OperandId)}
    (h : ∀ x ∈ values, L.Makes x) :
    L.Acts ((spans.zip values).forM fun (span, value) => do
      let value ← current value
      let _ ← emit (.echo value) span) := by
  refine fun G => .forM ?_
  rintro ⟨span, value⟩ hm
  exact .bind ((h value (List.of_mem_zip hm).2).current G) fun _ =>
    .bind (L.place span (by simp) rfl rfl) fun _ => .pure (Set.empty_subset _)

theorem global_acts {spans : List Span} {vars : List (Lowering OperandId)}
    (h : ∀ x ∈ vars, L.Makes x) :
    L.Acts ((spans.zip vars).forM fun (span, var) => do
      let value ← writeVariable (← var)
      let _ ← emit (.globalVar value) span) := by
  refine fun G => .forM ?_
  rintro ⟨span, var⟩ hm
  exact .bind (h var (List.of_mem_zip hm).2 G) fun _ =>
    .bind (L.write (by simp)) fun _ =>
    .bind (L.place span (by simp) rfl rfl) fun _ => .pure (Set.empty_subset _)

/-- An element of a loop over a value is assigned to a target. -/
theorem element_lowers {dest : Lowering OperandId} (hdest : L.Makes dest) (byRef : Bool)
    (span : Span) (value : OperandId) (G : Set Entry) (hvalue : .operand value ∈ G) :
    L.Lowers G (do
      let var ← dest
      let _ ← emitValue span fun result =>
        if byRef then .assignRef var value result else .assign var value result) fun _ => ∅ := by
  refine .bind (hdest G) fun _ => .bind (L.value span (fun _ => ?_) (fun _ => ?_) fun _ => ?_)
    fun _ => .pure (Set.empty_subset _)
  · cases byRef <;> simp [hvalue]
  · cases byRef <;> rfl
  · cases byRef <;> rfl

/-- An element of a value is assigned to a target that is no pattern, and the rest goes on. -/
theorem destructureTarget_lowers {kind : ExprKind}
    (hkind : ∀ pattern short, kind ≠ .array pattern short) (span : Span) {inner : Span}
    {value : OperandId} (hvalue : .operand value ∈ G) (position : Nat) {key : Option Expr}
    (byRef unpack : Bool) {rest : List (ArrayItem Expr)} (hkey : ∀ x ∈ option key, L.Makes x)
    (htarget : L.Makes (target (.mk kind inner)))
    (hrest : ∀ G, .operand value ∈ G → ∀ n,
      L.Lowers G (destructure span value n rest) fun _ => ∅) :
    L.Lowers G (destructure span value position
      (⟨key, some (.mk kind inner), byRef, unpack⟩ :: rest)) fun _ => ∅ := by
  rw [destructure_target hkind]
  exact .bind (L.elementIndex position hkey) fun _ =>
    .bind (L.value inner (by simp [hvalue]) (fun _ => rfl) fun _ => rfl) fun _ =>
    .bind (htarget _) fun _ => .bind (L.value span (by simp) (fun _ => rfl) fun _ => rfl) fun _ =>
    hrest _ (by simp [hvalue]) _

theorem foreachTarget_acts {kind : ExprKind}
    (hkind : ∀ pattern short, kind ≠ .array pattern short) (span : Span) {inner : Span}
    {subject : Expr} {key : Option Expr} (byRef : Bool) {inside : List Stmt}
    (hsubject : L.Makes (expr subject)) (hkey : ∀ k ∈ keyTarget key, L.Makes k.2)
    (htarget : L.Makes (target (.mk kind inner))) (hinside : L.Acts (inOrder (stmts inside))) :
    L.Acts (stmtKind span (.foreach subject key (.mk kind inner) byRef inside)) := by
  rw [foreach_target hkind]
  exact foreach_acts hsubject hkey (element_lowers htarget byRef inner) hinside span

/-- A body ends with an operation, and what follows is dead. -/
theorem endHere_lowers {kind : OpKind} (hkind : kind.Within G) (hcall : kind.isListedCall = false)
    (hsole : kind.sole? = none) (span : Span) : L.Lowers G (do
      let _ ← emit kind span
      goDead) fun _ => ∅ :=
  .bind (L.place span hkind hcall hsole) fun _ => L.goDead

/-! ## All syntax trees -/

/-- A logic that also speaks of declarations, whose parts stand in bodies or blocks of their own. -/
structure Theory extends Logic where
  function {params : List (Param (Lowering OperandId))} {steps : List (Lowering Unit)}
    (name : String) (byRef : Bool) (returnType : Option TypeHint) (span : Span) :
    (∀ p ∈ params, ∀ x ∈ p.default, toLogic.Makes x) → (∀ x ∈ steps, toLogic.Acts x) →
    toLogic.Acts (function name params byRef returnType steps span)
  method {params : List (Param (Lowering OperandId))} {steps : List (Lowering Unit)}
    (name : String) (modifiers : Nat) (byRef : Bool) (returnType : Option TypeHint) (span : Span) :
    (∀ p ∈ params, ∀ x ∈ p.default, toLogic.Makes x) → (∀ x ∈ steps, toLogic.Acts x) →
    toLogic.Acts (method name modifiers params byRef returnType steps span)
  closure {params : List (Param (Lowering OperandId))} {steps : List (Lowering Unit)}
    (uses : List Capture) (byRef isStatic : Bool) (returnType : Option TypeHint) (span : Span) :
    (∀ p ∈ params, ∀ x ∈ p.default, toLogic.Makes x) → (∀ x ∈ steps, toLogic.Acts x) →
    toLogic.Makes (closure params uses byRef isStatic returnType steps span)
  staticVar {v : Declared (Lowering OperandId)} : (∀ x ∈ v.default, toLogic.Makes x) →
    toLogic.Acts (staticVar v)

variable (T : Theory)

mutual

/-- A logic holds of lowering an expression. -/
theorem expr_makes : ∀ e : Expr, T.Makes (expr e)
  | .mk kind span => exprKind_makes span kind

theorem exprKind_makes (span : Span) : ∀ kind : ExprKind, T.Makes (exprKind span kind)
  | .variable name => fun _ => T.variableOperand name
  | .dynamicVariable name => fun G =>
    .bind ((expr_makes name).current G) fun _ =>
      T.operand (by simp [OperandKind.links]) rfl nofun
  | .literal value => fun _ => T.literal value
  | .interpolated parts => fun _ =>
    .bind (T.currents (exprs_make parts)) fun _ =>
      T.result span (by simp +contextual [or_imp]) (fun _ => rfl) fun _ => .inr rfl
  | .constFetch name => fun _ => T.constant name span
  | .magicConst _ => fun _ => T.newString ""
  | .name name => fun _ => T.newString name.joined
  | .identifier name => fun _ => T.newString name
  | .array elements _ => Logic.Makes.array (items_make elements) span
  | .element var dim => fun G =>
    .bind ((expr_makes var).current G) fun _ => .bind (T.optional (option_make dim))
      fun _ => T.value span (by simp +contextual [or_imp]) (fun _ => rfl) fun _ => rfl
  | .property var name _ => Logic.Makes.property (expr_makes var) (nameSlot_makes name) span
  | .staticProperty cls name => fun G =>
    .bind (nameSlot_makes cls G) fun _ => .bind (nameSlot_makes name _) fun _ =>
      T.staticProperty (by simp) (by simp) span
  | .classConst cls name => fun G =>
    .bind (nameSlot_makes cls G) fun _ => T.classConstant (by simp) name span
  | .assign (.mk kind s) value => by
    have hvalue := expr_makes value
    cases kind with
    | array pattern short =>
      exact fun G => .bind (hvalue.current G) fun v =>
        .bind (destructure_lowers span v 0 (by simp) pattern) fun _ => .pure (by simp)
    | _ => exact Logic.Makes.assign _ hvalue (target_makes (.mk _ s)) span
  | .assignRef var value => fun G =>
    .bind ((expr_makes value).current G) fun _ => .bind (target_makes var _) fun _ =>
      T.value span (by simp) (fun _ => rfl) fun _ => rfl
  | .assignOp op var value =>
    Logic.Makes.assignOp op (expr_makes var) (expr_makes value) (target_makes var) span
  | .binary op left right => binaryStep_makes op (spine_makes left) (expr_makes right) span
  | .unary op arg => fun G =>
    .bind ((expr_makes arg).current G) fun _ => T.unary op (by simp) span
  | .cast kind arg => fun G =>
    .bind ((expr_makes arg).current G) fun _ =>
      T.result span (by simp) (fun _ => rfl) fun _ => .inr rfl
  | .incDec increment before var =>
    Logic.Makes.incDec increment before (expr_makes var) (target_makes var) span
  | .call name arguments =>
    Logic.Makes.call (args_make arguments) (nameSlot_makes name) (firstTarget_makes arguments) span
  | .methodCall var name arguments nullsafe => fun G =>
    .bind ((expr_makes var).current G) fun _ => .bind (nameSlot_makes name _) fun _ =>
      .bind (T.currents (args_make arguments)) fun _ =>
      T.answer span (by simp +contextual [or_imp]) fun _ => rfl
  | .staticCall cls name arguments => fun G =>
    .bind (nameSlot_makes cls G) fun _ => .bind (nameSlot_makes name _) fun _ =>
      .bind (T.currents (args_make arguments)) fun _ =>
      T.answer span (by simp +contextual [or_imp]) fun _ => rfl
  | .new cls arguments => fun G =>
    .bind (nameSlot_makes cls G) fun _ => .bind (T.currents (args_make arguments)) fun _ =>
      T.new (by simp) (by simp +contextual) span
  | .closure parameters uses byRef isStatic returnType statements _ =>
    T.closure uses byRef isStatic returnType span (params_make parameters) (stmts_act statements)
  | .includeFile kind path => Logic.Makes.includeFile kind _ (expr_makes path) span
  | .instanceOf arg cls => fun G =>
    .bind ((expr_makes arg).current G) fun _ => .bind (nameSlot_makes cls _) fun _ =>
      T.instanceOf (by simp) (by simp) span
  | .isset vars => fun _ =>
    .bind (T.currents (exprs_make vars)) fun _ =>
      T.value span (by simp +contextual [or_imp]) (fun _ => rfl) fun _ => rfl
  | .exit arg => fun _ =>
    .bind (T.optional (option_make arg)) fun _ =>
      .bind (T.place span (by simp +contextual) rfl rfl) fun _ =>
      .bind T.goDead fun _ => T.operand nofun rfl nofun
  | .errorSuppress arg => expr_makes arg
  | .ternary cond ifTrue ifFalse =>
    ternary_makes (expr_makes cond) (option_make ifTrue) (expr_makes ifFalse) span
  | .yield key value => fun _ =>
    .bind (T.optional (option_make key)) fun _ => .bind (T.optional (option_make value))
      fun _ => T.value span (by simp +contextual [or_imp]) (fun _ => rfl) fun _ => rfl
  | .yieldFrom arg => fun G =>
    .bind ((expr_makes arg).current G) fun _ =>
      T.value span (by simp) (fun _ => rfl) fun _ => rfl
  | .shellExec parts => fun _ =>
    .bind (T.currents (exprs_make parts)) fun _ =>
      .bind (T.result span (by simp +contextual [or_imp]) (fun _ => rfl) fun _ => .inr rfl) fun _ =>
      .bind (T.newString "shell_exec") fun _ => T.answer span (by simp) fun _ => rfl

theorem spine_makes : ∀ e : Expr, T.Makes (spine e)
  | .mk kind span => by
    have hkind := (exprKind_makes span kind).current
    cases kind with
    | binary op left right =>
      exact binaryStep_makes op (spine_makes left) (expr_makes right) span
    | _ => exact hkind

theorem target_makes : ∀ e : Expr, T.Makes (target e)
  | .mk kind span => by
    have hkind := write_makes (exprKind_makes span kind)
    cases kind with
    | element var dim =>
      exact fun _ => .bind (T.optional (option_make dim)) fun _ => target_makes var _
    | _ => exact hkind

theorem nameSlot_makes : ∀ e : Expr, T.Makes (nameSlot e)
  | .mk kind span => by
    have hkind := (exprKind_makes span kind).current
    cases kind with
    | name name => exact fun _ => T.newString _
    | identifier name => exact fun _ => T.newString _
    | _ => exact hkind

theorem destructure_lowers (span : Span) (value : OperandId) (position : Nat) {G : Set Entry}
    (hvalue : .operand value ∈ G) :
    ∀ l : List (ArrayItem Expr), T.Lowers G (destructure span value position l) fun _ => ∅
  | [] => .pure (Set.empty_subset _)
  | ⟨_, none, _, _⟩ :: rest => destructure_lowers span value (position + 1) hvalue rest
  | ⟨key, some (.mk kind inner), byRef, unpack⟩ :: rest => by
    have hkey := option_make key
    have hrest (G : Set Entry) (hvalue : .operand value ∈ G) (n : Nat) :=
      destructure_lowers span value n hvalue rest
    have hleaf (hkind) := destructureTarget_lowers hkind span hvalue position byRef unpack hkey
      (target_makes (.mk kind inner)) hrest
    cases kind with
    | array pattern short =>
      exact .bind (T.elementIndex position hkey) fun _ =>
        .bind (T.value inner (by simp [hvalue]) (fun _ => rfl) fun _ => rfl) fun element =>
        .bind (destructure_lowers inner element 0 (by simp) pattern) fun _ =>
        hrest _ (by simp [hvalue]) _
    | _ => exact hleaf nofun

theorem exprs_make : ∀ l : List Expr, ∀ x ∈ exprs l, T.Makes x
  | [] => nofun
  | e :: rest => List.forall_mem_cons.2 ⟨expr_makes e, exprs_make rest⟩

theorem option_make : ∀ e : Option Expr, ∀ x ∈ option e, T.Makes x
  | none => nofun
  | some e => fun x hx => by
    cases hx
    exact expr_makes e

theorem items_make : ∀ l : List (ArrayItem Expr), ∀ item ∈ items l,
    (∀ x ∈ item.key, T.Makes x) ∧ ∀ x ∈ item.value, T.Makes x
  | [] => nofun
  | ⟨key, value, _, _⟩ :: rest =>
    List.forall_mem_cons.2 ⟨⟨option_make key, option_make value⟩, items_make rest⟩

theorem args_make : ∀ l : List (Arg Expr), ∀ x ∈ args l, T.Makes x
  | [] => nofun
  | ⟨value, _⟩ :: rest => List.forall_mem_cons.2 ⟨expr_makes value, args_make rest⟩

theorem firstTarget_makes : ∀ l : List (Arg Expr), T.Makes (firstTarget l)
  | [] => fun _ => T.operand nofun rfl nofun
  | ⟨value, _⟩ :: _ => target_makes value

theorem params_make : ∀ l : List (Param Expr), ∀ p ∈ params l, ∀ x ∈ p.default, T.Makes x
  | [] => nofun
  | ⟨_, default, _, _, _, _⟩ :: rest =>
    List.forall_mem_cons.2 ⟨option_make default, params_make rest⟩

theorem keyTarget_make : ∀ key : Option Expr, ∀ k ∈ keyTarget key, T.Makes k.2
  | none => nofun
  | some e => fun k hk => by
    cases hk
    exact target_makes e

theorem declared_make : ∀ l : List (Declared Expr), ∀ d ∈ declared l, ∀ x ∈ d.default, T.Makes x
  | [] => nofun
  | ⟨_, default, _⟩ :: rest => List.forall_mem_cons.2 ⟨option_make default, declared_make rest⟩

theorem constants_make : ∀ l : List (ConstDecl Expr), ∀ c ∈ constants l, T.Makes c.value
  | [] => nofun
  | ⟨_, value, _⟩ :: rest => List.forall_mem_cons.2 ⟨expr_makes value, constants_make rest⟩

/-- A logic holds of lowering a statement. -/
theorem stmt_acts : ∀ s : Stmt, T.Acts (stmt s)
  | .mk kind span => stmtKind_acts span kind

theorem stmtKind_acts (span : Span) : ∀ kind : StmtKind, T.Acts (stmtKind span kind)
  | .expr arg => fun G => .bind (expr_makes arg G) fun _ => .pure (Set.empty_subset _)
  | .echo values => echo_acts (exprs_make values)
  | .inlineHtml text => fun _ =>
    .bind (T.newString text) fun _ =>
      .bind (T.place span (by simp) rfl rfl) fun _ => .pure (Set.empty_subset _)
  | .returns arg => fun _ =>
    .bind (T.optional (option_make arg)) fun _ =>
      endHere_lowers (by simp +contextual) rfl rfl span
  | .throws arg => fun G =>
    .bind ((expr_makes arg).current G) fun _ => endHere_lowers (by simp) rfl rfl span
  | .ifElse cond thenBody further elseBody =>
    ifElse_acts (expr_makes cond) (inOrder_acts (stmts_act thenBody)) (elseIfs_act further)
      (blockOption_act elseBody) span
  | .whileLoop cond inside =>
    loop_acts ((expr_makes cond).current) (inOrder_acts (stmts_act inside)) span
  | .doWhile inside cond => doWhile_acts (inOrder_acts (stmts_act inside)) (expr_makes cond) span
  | .forLoop init cond step inside =>
    forLoop_acts (exprs_make init) (exprs_make cond) (exprs_make step)
      (inOrder_acts (stmts_act inside)) span
  | .foreach subject key (.mk kind inner) byRef inside => by
    have hsubject := expr_makes subject
    have hkey := keyTarget_make key
    have hinside := inOrder_acts (stmts_act inside)
    have hleaf (hkind) :=
      foreachTarget_acts hkind span byRef hsubject hkey (target_makes (.mk kind inner)) hinside
    cases kind with
    | array pattern short =>
      exact foreach_acts hsubject hkey
        (fun value _ hvalue => destructure_lowers inner value 0 hvalue pattern) hinside span
    | _ => exact hleaf nofun
  | .switch subject choices => switch_acts (expr_makes subject) (cases_act choices) span
  | .breakLoop _ => fun _ => .get fun _ => T.fail _
  | .continueLoop _ => fun _ => .get fun _ => T.fail _
  | .goto name => fun _ => T.goto name span
  | .label name => fun _ => T.label name span
  | .tryCatch inside handlers finish =>
    tryCatch_acts (inOrder_acts (stmts_act inside)) (catches_act handlers) (blockOption_act finish)
  | .global vars => global_acts (exprs_make vars)
  | .static vars => fun G => .forM fun v hv => T.staticVar (declared_make vars v hv) G
  | .unset vars => fun _ =>
    .bind (unset_lowers fun v hv => exprs_make vars v.2 (List.of_mem_zip hv).2) fun _ =>
      .bind (T.place span (by simp +contextual) rfl rfl) fun _ =>
      .pure (Set.empty_subset _)
  | .function name parameters byRef returnType statements =>
    T.function name.joined byRef returnType span (params_make parameters) (stmts_act statements)
  | .classDecl kind name modifiers parent implements statements =>
    classDecl_acts kind name.joined modifiers parent implements (stmts_act statements) span
  | .method name modifiers parameters byRef returnType statements =>
    T.method name modifiers byRef returnType span (params_make parameters)
      (optionalStmts_act statements)
  | .properties modifiers type props => fun G =>
    .forM fun p hp => propertyDecl_acts modifiers _ (declared_make props p hp) G
  | .classConsts consts => fun G =>
    .forM fun c hc => constDecl_acts true (constants_make consts c hc) G
  | .consts consts => fun G =>
    .forM fun c hc => constDecl_acts false (constants_make consts c hc) G
  | .traitUse traits adaptations => fun _ =>
    .bind (newStrings_lowers Name.joined traits) fun _ =>
      .bind (T.place span (by simp +contextual) rfl rfl) fun _ => .pure (Set.empty_subset _)
  | .namespaceDecl _ inside => inOrder_acts (optionalStmts_act inside)
  | .block inside => inOrder_acts (stmts_act inside)
  | .useDecl .. => fun _ => .pure (Set.empty_subset _)
  | .nop => fun _ => .pure (Set.empty_subset _)

theorem stmts_act : ∀ l : List Stmt, ∀ x ∈ stmts l, T.Acts x
  | [] => nofun
  | s :: rest => List.forall_mem_cons.2 ⟨stmt_acts s, stmts_act rest⟩

theorem optionalStmts_act : ∀ l : Option (List Stmt), ∀ x ∈ optionalStmts l, T.Acts x
  | none => nofun
  | some l => stmts_act l

theorem blockOption_act : ∀ l : Option (List Stmt), ∀ x ∈ blockOption l, T.Acts x
  | none => nofun
  | some l => fun x hx => by
    cases hx
    exact inOrder_acts (stmts_act l)

theorem elseIfs_act : ∀ l : List (ElseIf Expr Stmt), ∀ e ∈ elseIfs l,
    T.Makes e.cond ∧ ∀ x ∈ e.body, T.Acts x
  | [] => nofun
  | ⟨cond, body, _⟩ :: rest =>
    List.forall_mem_cons.2 ⟨⟨expr_makes cond, stmts_act body⟩, elseIfs_act rest⟩

theorem cases_act : ∀ l : List (Case Expr Stmt), ∀ c ∈ cases l,
    (∀ x ∈ c.cond, T.Makes x) ∧ ∀ x ∈ c.body, T.Acts x
  | [] => nofun
  | ⟨cond, body, _⟩ :: rest =>
    List.forall_mem_cons.2 ⟨⟨option_make cond, stmts_act body⟩, cases_act rest⟩

theorem catches_act : ∀ l : List (Catch Stmt), ∀ c ∈ catches l, ∀ x ∈ c.body, T.Acts x
  | [] => nofun
  | ⟨_, _, body⟩ :: rest => List.forall_mem_cons.2 ⟨stmts_act body, catches_act rest⟩

end

end QueryTaint.Lower
