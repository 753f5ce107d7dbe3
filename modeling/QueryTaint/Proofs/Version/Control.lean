import QueryTaint.Lower.Control
import QueryTaint.Lower.Value
import QueryTaint.Proofs.Version.Build

/-!
# Versions in branches, loops and choices

Each way of building a statement or a choice keeps what is known of a builder if the steps that lower
its parts do. Where it comes back to, it comes back to blocks of the function, and the φ that joins the
two values of a choice is the only one of a new block (`ternary_goes`).
-/

namespace QueryTaint.Version

open Lower

variable {b b' : Builder} {G : Set BlockId} {last : BlockId}

theorem inOrder_goes {steps : List (Lowering Unit)} (h : ∀ x ∈ steps, Goes G x) :
    Goes G (inOrder steps) :=
  .forM h

theorem ifGiven_goes {step : Option (Lowering Unit)} (h : ∀ x ∈ step, Goes G x) :
    Goes G (ifGiven step) := by
  cases step with
  | none => exact .pure ()
  | some x => exact h x rfl

/-- Lowering goes on in a block under one more condition. -/
theorem underIn_goes {α : Type} {x : Lowering α} {block : BlockId} (hblock : block ∈ G)
    (cond : OperandId) (hx : Goes G x) :
    Goes G (Lower.under cond do
      guardBlock block
      goTo block
      x) :=
  under_goes cond (.build (guardBlock_fills block).runs fun _ => .build (goTo_runs hblock) fun _ => hx)

/-! ## Branches -/

theorem branch_goes (hlast : last ∈ G) (span : Span) {cond : Lowering OperandId}
    (hcond : Goes ∅ cond) {body otherwise : Lowering Unit} (hbody : Goes ∅ body)
    (hother : Goes G otherwise) : Goes G (branch last span cond body otherwise) := by
  refine .bind (current_goes hcond.anywhere) fun c => .newBlock fun ifBlock =>
    .newBlock fun elseBlock => ?_
  refine .build (jumpIf_runs c (by simp) (by simp) span) fun _ =>
    .build (assertBranches_runs c (by simp) (by simp)) fun _ => ?_
  refine .bind (underIn_goes (by simp) c (.bind hbody.anywhere fun _ =>
    .lift (jump_runs (by simp [hlast]) span))) fun _ => ?_
  exact .build (negate_fills c).runs fun negated =>
    underIn_goes (by simp) negated (hother.mono fun x hx => by simp [hx])

theorem branches_goes (hlast : last ∈ G) {otherwise : Option (Lowering Unit)}
    (hother : ∀ x ∈ otherwise, Goes ∅ x)
    {further : List (ElseIf (Lowering OperandId) (Lowering Unit))}
    (hfurther : ∀ e ∈ further, Goes ∅ e.cond ∧ ∀ x ∈ e.body, Goes ∅ x) (span : Span)
    {cond : Lowering OperandId} (hcond : Goes ∅ cond) {body : Lowering Unit} (hbody : Goes ∅ body) :
    Goes G (branches last span cond body further otherwise) := by
  induction further generalizing span cond body with
  | nil =>
    exact branch_goes hlast span hcond hbody (.bind (ifGiven_goes hother).anywhere fun _ =>
      .lift (jump_runs hlast span))
  | cons next rest ih =>
    obtain ⟨⟨hnext, hinside⟩, hrest⟩ := List.forall_mem_cons.1 hfurther
    exact branch_goes hlast span hcond hbody (ih hrest next.span hnext (inOrder_goes hinside))

theorem ifElse_goes {cond : Lowering OperandId} {body : Lowering Unit}
    {further : List (ElseIf (Lowering OperandId) (Lowering Unit))}
    {otherwise : Option (Lowering Unit)} (hcond : Goes ∅ cond) (hbody : Goes ∅ body)
    (hfurther : ∀ e ∈ further, Goes ∅ e.cond ∧ ∀ x ∈ e.body, Goes ∅ x)
    (hother : ∀ x ∈ otherwise, Goes ∅ x) (span : Span) :
    Goes G (ifElse cond body further otherwise span) :=
  .newBlock fun _ =>
    .bind (branches_goes (Set.mem_insert ..) hother hfurther span hcond hbody) fun _ =>
      .lift (goTo_runs (Set.mem_insert ..))

/-! ## Loops -/

theorem leaveLoop_goes (hlast : last ∈ G) (cond : OperandId) : Goes G (leaveLoop cond last) :=
  .build (negate_fills cond).runs fun negated =>
    .bind (under_goes negated (.lift (guardBlock_fills last).runs)) fun _ => .lift (goTo_runs hlast)

theorem loop_goes {cond : Lowering OperandId} {body : Lowering Unit} (hcond : Goes ∅ cond)
    (hbody : Goes ∅ body) (span : Span) : Goes G (loop cond body span) := by
  refine .newBlock fun header => .newBlock fun inside => .newBlock fun last => ?_
  refine .build (jump_runs (by simp) span) fun _ => .build (goTo_runs (by simp)) fun _ =>
    .bind hcond.anywhere fun c => ?_
  refine .build (jumpIf_runs c (by simp) (by simp) span) fun _ =>
    .build (assertBranches_runs c (by simp) (by simp)) fun _ => ?_
  refine .bind (underIn_goes (by simp) c (.bind hbody.anywhere fun _ =>
    .lift (jump_runs (by simp) span))) fun _ => ?_
  exact leaveLoop_goes (by simp) c

theorem doWhile_goes {body : Lowering Unit} {cond : Lowering OperandId} (hbody : Goes ∅ body)
    (hcond : Goes ∅ cond) (span : Span) : Goes G (doWhile body cond span) := by
  refine .newBlock fun inside => .newBlock fun _ => ?_
  refine .build (jump_runs (by simp) span) fun _ => .build (goTo_runs (by simp)) fun _ =>
    .bind hbody.anywhere fun _ => .bind (current_goes hcond.anywhere) fun c => ?_
  exact .build (jumpIf_runs c (by simp) (by simp) span) fun _ =>
    .build (assertBranches_runs c (by simp) (by simp)) fun _ => leaveLoop_goes (by simp) c

/-- A value is placed that nothing folds. -/
theorem value_runs {make : OperandId → OpKind} (hmake : ∀ r, (make r).sole? = none) (span : Span) :
    Runs G (emitValue span make) :=
  (emitValue_fills (fun r => .inl (hmake r)) span).runs

theorem foreach_goes {subject : Lowering OperandId} {key : Option (Span × Lowering OperandId)}
    {value : OperandId → Lowering Unit} {body : Lowering Unit} (hsubject : Goes ∅ subject)
    (hkey : ∀ k ∈ key, Goes ∅ k.2) (hvalue : ∀ element, Goes ∅ (value element))
    (hbody : Goes ∅ body) (byRef : Bool) (valueSpan span : Span) :
    Goes G (foreach subject key byRef valueSpan value body span) := by
  refine .bind (current_goes hsubject.anywhere) fun s => .build (emit_fills rfl span).runs fun _ =>
    .newBlock fun header => .newBlock fun inside => .newBlock fun last => ?_
  refine .build (jump_runs (by simp) span) fun _ => .build (goTo_runs (by simp)) fun _ =>
    .build (value_runs (fun _ => rfl) span) fun valid =>
    .build (jumpIf_runs valid (by simp) (by simp) span) fun _ =>
    .build (goTo_runs (by simp)) fun _ => ?_
  have hrest : Goes (insert last (insert inside (insert header G))) (do
      value (← emitValue valueSpan (.iterValue s byRef ·))
      body
      let _ ← emit (.next s) span
      jump header span
      goTo last) :=
    .build (value_runs (fun _ => rfl) valueSpan) fun _ => .bind (hvalue _).anywhere fun _ =>
      .bind hbody.anywhere fun _ => .build (emit_fills rfl span).runs fun _ =>
      .build (jump_runs (by simp) span) fun _ => .lift (goTo_runs (by simp))
  dsimp only
  split
  · rename_i keySpan target
    exact .build (value_runs (fun _ => rfl) keySpan) fun _ => .bind (hkey _ rfl).anywhere fun _ =>
      .build (value_runs (fun _ => rfl) keySpan) fun _ => hrest
  · exact hrest

/-! ## Choices -/

/-- A φ is put into a block that was new. -/
theorem After.attachNew (h : After ∅ b b') (hlast : b.arena.blocks.size ≤ last.index) (phi : OpId) :
    After ∅ b { b' with arena := b'.arena.attachPhi last phi } where
  later := h.later.trans (Arena.later_attachPhi ..)
  func := h.func
  phis block hlt hf := by
    refine ((Arena.phis_attachPhi ..).trans (if_neg ?_)).trans (h.phis block hlt hf)
    rintro ⟨rfl, -⟩
    exact Nat.not_lt.2 hlast hlt
  made block hge hlt := by
    obtain ⟨f, hf, hwhich⟩ := h.made block hge
      (Nat.lt_of_lt_of_eq hlt (Arena.size_blocks_modifyBlock ..))
    exact ⟨f, (Arena.later_attachPhi ..).func hf, hwhich⟩

/-- A φ of no variable that joins two values is put into a block that was new. -/
theorem joinArms_next (h : Next b b') (hlast : b.arena.blocks.size ≤ last.index)
    (hphis : (b'.arena.block last).phis = []) (values : List OperandId) (span : Span) :
    Gives (do
      let result ← newTemporary none
      let phi ← detached (.phi values result) span
      change (·.attachPhi last phi)
      return result) b' fun _ b'' => Next b b'' := by
  have hjoins := h.isOpen.apt.joins
  have hlaid := h.isOpen.apt.laid
  refine Gives.bind ((newTemporary_fills none hjoins hlaid).and (newTemporary_suits hjoins hlaid)) ?_
  rintro result b₁ ⟨hf₁, hresult, hsuits⟩
  have hf₂ := hf₁.trans (.addOp hf₁.joins hf₁.laid (hsuits (.phi values result) (.inr rfl)) span)
  have h₂ := h.trans (h.isOpen.filled hf₂)
  have hphi : (b₁.arena.addOp (.phi values result) span).2.variableOf? ⟨b₁.arena.ops.size⟩ = none := by
    rw [Arena.variableOf?, Arena.op_addOp, if_pos rfl]
    exact ((Arena.later_addOp ..).nameless hresult).nameOf?_eq
  have hlt : b₁.arena.ops.size < (b₁.arena.addOp (.phi values result) span).2.ops.size :=
    Nat.lt_of_lt_of_eq (Nat.lt_succ_self _) (Array.size_push ..).symm
  refine ⟨⟨?_, h₂.isOpen.building⟩, h₂.after.attachNew hlast ⟨b₁.arena.ops.size⟩⟩
  refine h₂.isOpen.apt.attachPhi hlt (.inl ((hf₂.phis last).trans hphis)) fun name hname => ?_
  cases hphi.symm.trans hname

/-- A value is lowered in a block that leads to another one. -/
theorem arm_goes {block : BlockId} {value : Lowering OperandId} (hvalue : Goes ∅ value)
    (hblock : block ∈ G) (hlast : last ∈ G) (cond : OperandId) (span : Span) :
    Goes G (Lower.under cond do
      guardBlock block
      goTo block
      let value ← value
      let dead ← isDead (← get).block
      jump last span
      return if dead then [] else [value]) :=
  underIn_goes hblock cond (.bind hvalue.anywhere fun _ => .get fun _ =>
    .build (isDead_fills _).runs fun _ =>
    .build (jump_runs (Set.mem_insert_of_mem _ hlast) span) fun _ => .pure _)

theorem ternary_goes {cond : Lowering OperandId} {ifTrue : Option (Lowering OperandId)}
    {ifFalse : Lowering OperandId} (hcond : Goes ∅ cond) (htrue : ∀ x ∈ ifTrue, Goes ∅ x)
    (hfalse : Goes ∅ ifFalse) (span : Span) : Goes G (ternary cond ifTrue ifFalse span) := by
  refine .bind (current_goes hcond.anywhere) fun c => .newBlock fun ifBlock =>
    .newBlock fun elseBlock => ?_
  intro b hb hG
  refine Yields.bind (.lift (newBlock_makes hb)) ?_
  rintro last b₁ ⟨h₁, hfunc, hnew, hlt, hphis⟩
  have hG := (hG.next h₁).insert hfunc
  refine Yields.bind (.lift (jumpIf_runs c (by simp) (by simp) span h₁.isOpen hG)) fun _ b₂ h₂ => ?_
  refine Yields.bind (.lift (assertBranches_runs c (by simp) (by simp) h₂.isOpen (hG.next h₂)))
    fun _ b₃ h₃ => ?_
  have h₃ := h₂.trans h₃
  refine Yields.bind (P := fun _ b₄ => Next b₃ b₄) ?_ fun first b₄ h₄ => ?_
  · refine arm_goes ?_ (by simp) (by simp) c span h₃.isOpen (hG.next h₃)
    split
    · exact current_goes (htrue _ rfl)
    · exact .pure c
  have h₄ := h₃.trans h₄
  refine Yields.bind (.lift ((negate_fills c).runs h₄.isOpen (hG.next h₄))) fun negated b₅ h₅ => ?_
  have h₅ := h₄.trans h₅
  refine Yields.bind (arm_goes (current_goes hfalse) (by simp) (by simp) negated span h₅.isOpen
    (hG.next h₅)) fun second b₆ h₆ => ?_
  have h₆ := h₅.trans h₆
  refine Yields.bind (.lift (goTo_runs (by simp) h₆.isOpen (hG.next h₆))) fun _ b₇ h₇ => ?_
  have h₇ := h₆.trans h₇
  -- the new block still has no φs
  have hphis₇ := (h₇.after.phis last hlt (by simp)).trans hphis
  have hjoin := Yields.lift (joinArms_next (h₁.trans h₇) hnew hphis₇ (first ++ second) span)
  exact hjoin

/-! ## Switches -/

/-- The blocks of the cases are made. -/
theorem Goes.placeCases {β : Type} {choices : List (Case (Lowering OperandId) (Lowering Unit))}
    {f : PlacedCases → Lowering β} (h : ∀ placed : PlacedCases, placed.map (·.1) = choices →
      Goes ({block | ∃ c ∈ placed, c.2 = block} ∪ G) (f placed)) :
    Goes G ((choices.mapM fun case => do return (case, ← Lower.newBlock)) >>= f) := by
  induction choices generalizing G f with
  | nil =>
    rw [List.mapM_nil, pure_bind]
    exact (h [] rfl).mono fun x hx => by simpa using hx
  | cons case rest ih =>
    simp only [List.mapM_cons, bind_assoc, pure_bind]
    refine .newBlock fun block => ih fun placed hplaced => ?_
    refine (h ((case, block) :: placed) (by simp [hplaced])).mono fun x hx => ?_
    rcases hx with ⟨c, hc, rfl⟩ | hx
    · rcases List.mem_cons.1 hc with rfl | hc
      · exact .inr (.inl rfl)
      · exact .inl ⟨c, hc, rfl⟩
    · exact .inr (.inr hx)

/-- The blocks of cases belong to the function, and the steps of the cases keep what is known. -/
def CasesGo (G : Set BlockId) (placed : PlacedCases) : Prop :=
  ∀ c ∈ placed, c.2 ∈ G ∧ (∀ x ∈ c.1.cond, Goes ∅ x) ∧ ∀ x ∈ c.1.body, Goes ∅ x

theorem addGuard_runs (block : BlockId) (cond : OperandId) :
    Runs G (change (·.addGuard block cond)) :=
  (change_fills fun a => .addGuard a block cond).runs

theorem tableEntries_goes {switchBlock : BlockId} (hswitch : switchBlock ∈ G) (subject : OperandId)
    {placed : PlacedCases} (hcases : CasesGo G placed) :
    Goes G (tableEntries switchBlock subject placed) := by
  induction placed with
  | nil => exact .pure _
  | cons first rest ih =>
    obtain ⟨⟨hblock, hcond, -⟩, hrest⟩ := List.forall_mem_cons.1 hcases
    obtain ⟨case, block⟩ := first
    refine .build (link_runs hswitch hblock) fun _ => ?_
    split
    · rename_i cond heq
      refine .bind (current_goes (hcond cond heq).anywhere) fun value => ?_
      refine .resultFor (.binary .equal subject value) (fun _ => .inr rfl)
        (fun hjoins hlaid hkind => detached_filled hjoins hlaid hkind case.span) fun equal => ?_
      exact .build (addGuard_runs block equal) fun _ => .bind (ih hrest) fun _ => .pure _
    · exact ih hrest

theorem jumpTable_goes (subject : OperandId) {placed : PlacedCases} (hcases : CasesGo G placed)
    (hlast : last ∈ G) (span : Span) : Goes G (jumpTable subject placed last span) := by
  refine .get fun b => .bind (tableEntries_goes (Set.mem_insert ..) subject fun c hc =>
    (hcases c hc).imp_left (Set.mem_insert_of_mem _)) fun entries => ?_
  have hdefault : (defaultBlock? placed).getD last ∈ G :=
    getD_defaultBlock? (fun c hc => (hcases c hc).1) hlast
  exact .build (link_runs (Set.mem_insert ..) (Set.mem_insert_of_mem _ hdefault)) fun _ =>
    .build (emit_fills rfl span).runs fun _ =>
    .lift (change_fills fun a => .modifyBlock a b.block (by exact fun _ => rfl)
      (by exact fun _ => rfl) (by exact fun _ => rfl)).runs

theorem compareCases_goes (subject : OperandId) {placed : PlacedCases} (hcases : CasesGo G placed) :
    Goes G (compareCases subject placed) := by
  induction placed generalizing G with
  | nil => exact .pure _
  | cons first rest ih =>
    obtain ⟨⟨hblock, hcond, -⟩, hrest⟩ := List.forall_mem_cons.1 hcases
    obtain ⟨case, block⟩ := first
    dsimp only at hblock hcond
    rw [compareCases]
    dsimp only
    split
    · rename_i cond heq
      refine .bind (current_goes (hcond cond heq).anywhere) fun value =>
        .build (emitValue_fills (fun _ => .inr rfl) case.span).runs fun equal =>
        .newBlock fun next => ?_
      refine .build (jumpIf_runs equal (Set.mem_insert_of_mem _ hblock) (Set.mem_insert ..) case.span)
        fun _ => .build (addGuard_runs block equal) fun _ =>
        .build (goTo_runs (Set.mem_insert ..)) fun _ => ?_
      exact ih fun c hc => (hrest c hc).imp_left (Set.mem_insert_of_mem _)
    · exact ih hrest

theorem fallThrough_goes {previous : Option BlockId} (hprevious : ∀ x ∈ previous, x ∈ G)
    {target : BlockId} (ht : target ∈ G) (span : Span) :
    Goes G (fallThrough previous target span) := by
  cases previous with
  | none => exact .pure _
  | some block =>
    refine .build (isDead_fills block).runs fun dead => ?_
    split
    · exact .build (goTo_runs (hprevious block rfl)) fun _ => .lift (jump_runs ht span)
    · exact .pure _

/-- The bodies of cases end in blocks of the function. -/
theorem caseBodies_yields {previous : Option BlockId} (hprevious : ∀ x ∈ previous, x ∈ G)
    {placed : PlacedCases} (hcases : CasesGo G placed) (hb : Open b) (hG : Holds G b) :
    Yields (caseBodies previous placed) b fun ended b' =>
      Next b b' ∧ Holds {block | block ∈ ended} b' := by
  induction placed generalizing G b previous with
  | nil => exact .pure ⟨hb.next, fun block hblock => hG block (hprevious block hblock)⟩
  | cons first rest ih =>
    obtain ⟨⟨hblock, -, hbody⟩, hrest⟩ := List.forall_mem_cons.1 hcases
    obtain ⟨case, block⟩ := first
    dsimp only at hblock hbody
    refine Yields.bind (fallThrough_goes hprevious hblock case.span hb hG) fun _ b₁ h₁ => ?_
    refine Yields.bind (.lift (goTo_runs hblock h₁.isOpen (hG.next h₁))) fun _ b₂ h₂ => ?_
    have h₂ := h₁.trans h₂
    refine Yields.bind ((inOrder_goes hbody).anywhere h₂.isOpen (hG.next h₂)) fun _ b₃ h₃ => ?_
    have h₃ := h₂.trans h₃
    refine Yields.get ?_
    have hhere := (hG.next h₃).insert h₃.isOpen.apt.here
    have hfrom : ∀ x ∈ some b₃.block, x ∈ insert b₃.block G := by
      rintro x hx
      cases hx
      exact Set.mem_insert ..
    have hrest : CasesGo (insert b₃.block G) rest := fun c hc =>
      (hrest c hc).imp_left (Set.mem_insert_of_mem _)
    exact (ih hfrom hrest h₃.isOpen hhere).mono fun ended b₄ h₄ => ⟨h₃.trans h₄.1, h₄.2⟩

theorem switch_goes {subject : Lowering OperandId}
    {choices : List (Case (Lowering OperandId) (Lowering Unit))} (hsubject : Goes ∅ subject)
    (hcases : ∀ c ∈ choices, (∀ x ∈ c.cond, Goes ∅ x) ∧ ∀ x ∈ c.body, Goes ∅ x) (table : Bool)
    (span : Span) : Goes G (switch subject table choices span) := by
  refine .bind (current_goes hsubject.anywhere) fun s => .newBlock fun last =>
    .placeCases fun placed hplaced => ?_
  generalize hG : {block | ∃ c ∈ placed, c.2 = block} ∪ insert last G = G'
  have hlast : last ∈ G' := hG ▸ .inr (Set.mem_insert ..)
  have hplaced : CasesGo G' placed := fun c hc => by
    refine ⟨hG ▸ .inl ⟨c, hc, rfl⟩, ?_⟩
    exact hcases c.1 (hplaced ▸ List.mem_map_of_mem hc)
  have hdefault : (defaultBlock? placed).getD last ∈ G' :=
    getD_defaultBlock? (fun c hc => (hplaced c hc).1) hlast
  have hrest : Goes G' (do
      let previous ← caseBodies none placed
      fallThrough previous last span
      goTo last) := fun b hb hG =>
    Yields.bind (caseBodies_yields (fun _ hx => by cases hx) hplaced hb hG) fun ended b₁ ⟨h₁, hended⟩ => by
      have hends : Goes (insert last {block | block ∈ ended}) (do
          fallThrough ended last span
          goTo last) :=
        .bind (fallThrough_goes (fun x hx => Set.mem_insert_of_mem _ hx) (Set.mem_insert ..) span)
          fun _ => .lift (goTo_runs (Set.mem_insert ..))
      exact (hends h₁.isOpen (hended.insert (hG.next h₁ last hlast))).mono fun _ _ => h₁.trans
  split
  · exact .bind (jumpTable_goes s hplaced hlast span) fun _ => hrest
  · exact .bind (compareCases_goes s hplaced) fun _ => .build (jump_runs hdefault span) fun _ => hrest

/-! ## Jumps and handlers -/

theorem goto_goes (name : String) (span : Span) : Goes G (goto name span) := by
  intro b hb hG
  refine .get ?_
  split
  · rename_i target htarget
    have hG := hG.insert (hb.apt.labels htarget)
    exact Goes.build (jump_runs (Set.mem_insert ..) span) (fun _ => .lift goDead_runs) hb hG
  · refine .get ?_
    have hapt := hb.apt.rescope { b.scope with gotos := b.scope.gotos ++ [(name, b.block)] }
      (fun _ _ => id) (fun _ _ _ => hb.apt.versions) (fun _ _ => hb.apt.labels) fun g hg => by
        rcases List.mem_append.1 hg with hg | hg
        · exact hb.apt.gotos g hg
        · rw [List.mem_singleton.1 hg]
          exact hb.apt.here
    refine Yields.bind (P := fun _ b₁ => Next b b₁) (.lift (hb.rescope hapt rfl rfl))
      fun _ b₁ h₁ => ?_
    exact .lift ((goDead_runs h₁.isOpen (hG.next h₁)).mono fun _ _ => h₁.trans)

/-- A jump that waited for its label is made. -/
theorem resolve_runs {block source : BlockId} (hs : source ∈ G) (hblock : block ∈ G) (span : Span) :
    Runs G (do
      let op ← detached (.jump block) span
      change fun a => (a.append source op).link source block) := by
  have hmade (kind : OpKind) (hkind : kind.sole? = none) : Fills (detached kind span) :=
    fun _ hjoins hlaid => detached_filled hjoins hlaid (.of_sole? hkind) span
  refine .bind (hmade _ rfl).runs fun op => ?_
  have hplace : Runs G (do
      change (·.append source op)
      change (·.link source block)) :=
    .bind (change_fills fun a => .append a source op).runs fun _ => link_runs hs hblock
  exact hplace

theorem label_runs (name : String) (span : Span) : Runs G (label name span) := by
  refine .get fun b => ?_
  split
  · exact .pure _
  refine .newBlock fun block => .bind (jump_runs (Set.mem_insert ..) span) fun _ =>
    .bind (guardBlock_fills block).runs fun _ => ?_
  intro b₁ hb₁ hG
  refine Gives.get ?_
  rw [List.partition_eq_filter_filter]
  dsimp only
  -- all jumps that wait stand in blocks of the function
  have hsources : Holds (insert block {source | ∃ g ∈ b₁.scope.gotos, g.2 = source}) b₁ :=
    Set.forall_mem_insert.2 ⟨hG block (Set.mem_insert ..), fun source ⟨g, hg, hsource⟩ =>
      hsource ▸ hb₁.apt.gotos g hg⟩
  refine Gives.bind (Runs.forM (fun g hg => resolve_runs (.inr ⟨g, (List.mem_filter.1 hg).1, rfl⟩)
    (Set.mem_insert ..) span) hb₁ hsources) fun _ b₂ h₂ => ?_
  have hapt := h₂.isOpen.apt.rescope { b₂.scope with
      gotos := b₁.scope.gotos.filter (not ∘ (·.1 == name)),
      labels := b₂.scope.labels.insert name block }
    (fun _ _ => id) (fun _ _ _ => h₂.isOpen.apt.versions) (fun other target htarget => by
      rw [Std.TreeMap.get?_eq_getElem?, Std.TreeMap.getElem?_insert] at htarget
      split at htarget
      · cases htarget
        exact hsources.next h₂ block (Set.mem_insert ..)
      · exact h₂.isOpen.apt.labels htarget) fun g hg =>
      hsources.next h₂ g.2 (.inr ⟨g, (List.mem_filter.1 hg).1, rfl⟩)
  refine Gives.bind (P := fun _ b₃ => Next b₂ b₃) (h₂.isOpen.rescope hapt rfl rfl) fun _ b₃ h₃ => ?_
  have h₃ := h₂.trans h₃
  exact (goTo_runs (Set.mem_insert ..) h₃.isOpen (hsources.next h₃)).mono fun _ _ => h₃.trans

theorem handler_goes {caught : Catch (Lowering Unit)} (h : ∀ x ∈ caught.body, Goes ∅ x) :
    Goes G (handler caught) := by
  refine .newBlock fun block => .build (goTo_runs (Set.mem_insert ..)) fun _ => ?_
  have hbody : Goes (insert block G) (inOrder caught.body) := (inOrder_goes h).anywhere
  dsimp only
  split
  · rename_i var _
    have hvar : Fills (newVariable var) :=
      .bind (newString_fills var) fun _ => newOperand_fills _
    exact .build hvar.runs fun _ => .build (writeVariable_runs _) fun _ => hbody
  · exact hbody

theorem tryCatch_goes {body : Lowering Unit} {catches : List (Catch (Lowering Unit))}
    {finish : Option (Lowering Unit)} (hbody : Goes ∅ body)
    (hcatches : ∀ c ∈ catches, ∀ x ∈ c.body, Goes ∅ x) (hfinish : ∀ x ∈ finish, Goes ∅ x) :
    Goes G (tryCatch body catches finish) :=
  .bind hbody.anywhere fun _ => .get fun _ =>
    .bind (.forM fun c hc => handler_goes (hcatches c hc)) fun _ =>
    .build (goTo_runs (Set.mem_insert ..)) fun _ => (ifGiven_goes hfinish).anywhere

end QueryTaint.Version
