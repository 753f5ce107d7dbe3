import QueryTaint.Lower.Value
import QueryTaint.Proofs.Lower.Variable

/-!
# Lowering expressions keeps the invariant

Each way of building an expression keeps the invariant if the steps that lower its parts do
(`Keeps`), and gives an operand of the body.
-/

namespace QueryTaint.Lower

variable {F : Base} {D : Due} {b b' : Builder}

/-- A step that lowers a part of a body and gives something that fits the arena after it. -/
def Keeps {α : Type} (F : Base) (x : Lowering α) (R : Arena → α → Prop) : Prop :=
  ∀ ⦃b⦄, Inv F {} b → Succeeds x b fun y b' => After F {} b b' ∧ R b'.arena y

/-- A step that lowers the target of an assignment, which has to follow. -/
def Targets (F : Base) (x : Lowering OperandId) : Prop :=
  ∀ ⦃b⦄, Inv F {} b → Succeeds x b fun y b' =>
    ∃ D, After F D b b' ∧ F.Mine b'.arena y ∧ Takes b' D y

/-- All operands are of the body. -/
def Base.AllMine (F : Base) (a : Arena) (ids : List OperandId) : Prop := ∀ x ∈ ids, F.Mine a x

theorem Base.AllMine.grows {a a' : Arena} {ids : List OperandId} (h : F.AllMine a ids)
    (hg : Grows a a') : F.AllMine a' ids :=
  fun x hx => (h x hx).grows hg

theorem current_keeps {x : Lowering OperandId} (hx : Keeps F x F.Mine) :
    Keeps F (current x) F.Mine := by
  intro b h
  refine Succeeds.bind (hx h) ?_
  rintro y b₁ ⟨h₁, hy⟩
  refine Succeeds.lift ((readVariable_gives h₁.inv hy).mono ?_)
  rintro z b₂ ⟨h₂, -, hz, -⟩
  exact ⟨h₁.trans h₂, hz⟩

theorem write_targets {x : Lowering OperandId} (hx : Keeps F x F.Mine) :
    Targets F (do writeVariable (← x)) := by
  intro b h
  refine Succeeds.bind (hx h) ?_
  rintro y b₁ ⟨h₁, hy⟩
  refine Succeeds.lift ((writeVariable_gives h₁.inv hy).mono ?_)
  rintro z b₂ ⟨D, h₂, -, hz, htakes, -⟩
  exact ⟨D, h₁.trans h₂, hz, htakes⟩

theorem mapM_keeps {α : Type} {f : α → Lowering OperandId} {l : List α}
    (hf : ∀ x ∈ l, Keeps F (f x) F.Mine) : Keeps F (l.mapM f) F.AllMine := by
  induction l with
  | nil => exact fun b h => Succeeds.pure ⟨⟨h, .refl _⟩, nofun⟩
  | cons x l ih =>
    intro b h
    rw [List.mapM_cons]
    refine Succeeds.bind (hf x List.mem_cons_self h) ?_
    rintro y b₁ ⟨h₁, hy⟩
    refine Succeeds.bind (ih (fun z hz => hf z (List.mem_cons_of_mem _ hz)) h₁.inv) ?_
    rintro ys b₂ ⟨h₂, hys⟩
    refine Succeeds.pure ⟨h₁.trans h₂, fun z hz => ?_⟩
    rcases List.mem_cons.1 hz with rfl | hz
    · exact hy.grows h₂.grows
    · exact hys z hz

theorem optional_keeps {x : Option (Lowering OperandId)} (hx : ∀ y ∈ x, Keeps F y F.Mine) :
    Keeps F (x.mapM current) fun a y => ∀ z ∈ y, F.Mine a z := by
  intro b h
  cases x with
  | none => exact Succeeds.pure ⟨⟨h, .refl _⟩, nofun⟩
  | some x =>
    refine Succeeds.bind (current_keeps (hx x rfl) h) ?_
    rintro y b₁ ⟨h₁, hy⟩
    refine Succeeds.pure ⟨h₁, fun z hz => ?_⟩
    cases hz
    exact hy

/-! ## Literals and variables -/

theorem newOperand_keeps {kind : OperandKind} (hkind : ∀ a id, F.Shaped a id kind) :
    Keeps F (newOperand kind) F.Mine := by
  intro b h
  refine Succeeds.lift ((newOperand_gives h kind (hkind _ _)).mono ?_)
  exact fun x b' ⟨h', _, hx, _⟩ => ⟨h', hx⟩

theorem newString_keeps (s : String) : Keeps F (newString s) F.Mine :=
  newOperand_keeps fun _ _ => trivial

theorem literal_keeps (value : Literal) : Keeps F (literal value) F.Mine := by
  cases value <;> exact newOperand_keeps fun _ _ => trivial

theorem variableOperand_keeps (name : String) : Keeps F (variableOperand name) F.Mine := by
  intro b h
  refine Succeeds.lift (Gives.get ?_)
  split
  · rename_i cls _
    refine Gives.bind (newString_gives h "this") ?_
    rintro n b₁ ⟨h₁, -, hn, hkind⟩
    refine Gives.bind (newOperand_gives h₁.inv (.object cls) trivial) ?_
    rintro object b₂ ⟨h₂, -, hobject, -⟩
    refine (newOperand_gives h₂.inv (.bound n (some object) false .object) ?_).mono ?_
    · refine ⟨hn.grows h₂.grows, h₂.grows.scalar hn.2 hkind, fun v hv => ?_⟩
      cases hv
      exact hobject
    · rintro x b₃ ⟨h₃, -, hx, -⟩
      exact ⟨(h₁.trans h₂).trans h₃, hx⟩
  · refine (newVariable_gives h _).mono ?_
    exact fun x b' ⟨h', _, hx, _⟩ => ⟨h', hx⟩

/-! ## Known values -/

theorem Inv.linkOf?_mine (h : Inv F D b) {x y : OperandId} (hx : F.Mine b.arena x)
    (hy : b.arena.linkOf? x = some y) : F.Mine b.arena y := by
  have hshaped := (h.tidy x hx).shaped
  unfold Arena.linkOf? at hy
  match hkind : (b.arena.operand x).kind with
  | .temporary owner =>
    rw [hkind] at hy hshaped
    cases hy
    exact hshaped.1
  | .variable n value =>
    rw [hkind] at hy hshaped
    exact hshaped.2.2.2 y hy
  | .bound n value byRef scope =>
    rw [hkind] at hy hshaped
    exact hshaped.2.2 y hy
  | .scalar _ | .object _ | .symbolic _ =>
    rw [hkind] at hy
    cases hy

theorem Inv.valueOf_mine (h : Inv F D b) {x : OperandId} (hx : F.Mine b.arena x) :
    F.Mine b.arena (b.arena.valueOf x) := by
  have key : ∀ (steps : Nat) (x : OperandId), F.Mine b.arena x →
      F.Mine b.arena (b.arena.valueWithin steps x) := by
    intro steps
    induction steps with
    | zero => exact fun x hx => hx
    | succ steps ih =>
      intro x hx
      rw [Arena.valueWithin]
      split
      · exact ih _ (h.linkOf?_mine hx ‹_›)
      · exact hx
  exact key _ x hx

/-- A variable with a known value, and any other operand as it is. -/
def knowing (value : OperandId) (o : Operand) : Operand :=
  match o.kind with
  | .variable name _ => { o with kind := .variable name (some value) }
  | .bound name _ byRef scope => { o with kind := .bound name (some value) byRef scope }
  | _ => o

theorem setValue_eq (a : Arena) (var value : OperandId) :
    ∃ id, a.setValue var value = a.modifyOperand id (knowing value) :=
  ⟨_, rfl⟩

theorem knowing_keeps (value : OperandId) (o : Operand) :
    (knowing value o).kind.bare = o.kind.bare ∧ (knowing value o).defs = o.defs ∧
      (knowing value o).assertions = o.assertions := by
  unfold knowing
  split <;> simp_all [OperandKind.bare]

theorem shaped_knowing {a : Arena} {id value : OperandId} {o : Operand} (h : F.Shaped a id o.kind)
    (hvalue : F.Mine a value) : F.Shaped a id (knowing value o).kind := by
  have hmine : ∀ v ∈ some value, F.Mine a v := by
    intro v hv
    cases hv
    exact hvalue
  unfold knowing
  split
  · rename_i hkind
    rw [hkind] at h
    exact ⟨h.1, h.2.1, h.2.2.1, hmine⟩
  · rename_i hkind
    rw [hkind] at h
    exact ⟨h.1, h.2.1, hmine⟩
  · exact h

/-- The value of a variable becomes known. -/
theorem Inv.setValue (h : Inv F D b) (var : OperandId) {value : OperandId}
    (hvalue : F.Mine b.arena value) :
    Inv F D { b with arena := b.arena.setValue var value } ∧
      Grows b.arena (b.arena.setValue var value) := by
  obtain ⟨id, heq⟩ := setValue_eq b.arena var value
  rw [heq]
  refine h.changeOperand id (fun o => (knowing_keeps value o).1) fun hid hg => ?_
  have htidy := h.tidy id hid
  have hsame : (b.arena.modifyOperand id (knowing value)).operand id =
      knowing value (b.arena.operand id) := by
    rw [Arena.operand_modifyOperand_of_lt hid.2, if_pos rfl]
  obtain ⟨-, hdefs, hassertions⟩ := knowing_keeps value (b.arena.operand id)
  refine ⟨?_, ?_, ?_⟩ <;> rw [hsame]
  · exact (shaped_knowing htidy.shaped hvalue).grows hg
  · rw [hdefs]
    exact fun op hop => (htidy.defs op hop).grows hg
  · rw [hassertions]
    exact fun s hs => (htidy.asserted s hs).grows hg

/-! ## What conditions assert -/

theorem operands_negation (s : Assertion) : s.negation.operands = s.operands := by
  cases s <;> rfl

theorem operandsAll_append (l l' : List Assertion) :
    Assertion.operandsAll (l ++ l') = Assertion.operandsAll l ++ Assertion.operandsAll l' := by
  induction l with
  | nil => rfl
  | cons s l ih => rw [List.cons_append, Assertion.operandsAll, Assertion.operandsAll, ih,
      List.append_assoc]

theorem operands_conjoin (s t : Assertion) : (s.conjoin t).operands = s.operands ++ t.operands := by
  have hone : Assertion.operandsAll [t] = t.operands := by
    simp only [Assertion.operandsAll, List.append_nil]
  unfold Assertion.conjoin
  split
  · rw [Assertion.operands, operandsAll_append, hone]
    rfl
  · rw [Assertion.operands, Assertion.operandsAll, hone]

theorem assertable_joinAssertion {a : Arena} {var : OperandId} {s : Assertion}
    {known : List VarAssertion} (hknown : ∀ t ∈ known, F.Assertable a t)
    (hs : F.Assertable a ⟨var, s⟩) : ∀ t ∈ Operand.joinAssertion var s known, F.Assertable a t := by
  induction known with
  | nil =>
    intro t ht
    rw [List.mem_singleton.1 ht]
    exact hs
  | cons first rest ih =>
    have hfirst := hknown first List.mem_cons_self
    have hrest : ∀ t ∈ rest, F.Assertable a t := fun t ht => hknown t (List.mem_cons_of_mem _ ht)
    rw [Operand.joinAssertion]
    split
    · rw [List.forall_mem_cons]
      refine ⟨?_, hrest⟩
      split
      · exact hfirst
      · refine ⟨hs.1, fun x hx => ?_⟩
        rw [operands_conjoin] at hx
        exact (List.mem_append.1 hx).elim (hfirst.2 x) (hs.2 x)
    · rw [List.forall_mem_cons]
      exact ⟨hfirst, ih hrest⟩

theorem addAssertion_gives (h : Inv F D b) (cond : OperandId) {var : OperandId} {s : Assertion}
    (hs : F.Assertable b.arena ⟨var, s⟩) :
    Gives (addAssertion cond var s) b fun _ b' => After F D b b' := by
  obtain ⟨hinv, hg⟩ := h.changeOperand cond (f := (·.addAssertion var s)) (fun _ => rfl)
    fun hid hg => by
      have htidy := h.tidy cond hid
      have hsame : (b.arena.modifyOperand cond (·.addAssertion var s)).operand cond =
          (b.arena.operand cond).addAssertion var s := by
        rw [Arena.operand_modifyOperand_of_lt hid.2, if_pos rfl]
      refine ⟨?_, ?_, ?_⟩ <;> rw [hsame]
      · exact htidy.shaped.grows hg
      · exact fun op hop => (htidy.defs op hop).grows hg
      · exact fun t ht => (assertable_joinAssertion htidy.asserted hs t ht).grows hg
  exact ⟨hinv, hg⟩

theorem copyAssertions_gives (h : Inv F {} b) {edit : Assertion → Assertion}
    (hedit : ∀ s, (edit s).operands = s.operands) {source : OperandId}
    (hsource : F.Mine b.arena source) (cond : OperandId) :
    Gives (copyAssertions edit source cond) b fun _ b' => After F {} b b' := by
  refine Gives.look (Gives.forM (I := After F {} b) ⟨h, .refl _⟩ ?_)
  intro s hs b₁ h₁
  have hassertable : F.Assertable b.arena ⟨s.var, edit s.assertion⟩ := by
    have hs := (h.tidy source hsource).asserted s hs
    refine ⟨hs.1, ?_⟩
    rw [hedit]
    exact hs.2
  refine (addAssertion_gives h₁.inv cond (hassertable.grows h₁.grows)).mono ?_
  exact fun _ b₂ h₂ => h₁.trans h₂

/-- A type is asserted of an operand. -/
theorem addType_gives (h : Inv F {} b) {subject : OperandId} (hsubject : F.Mine b.arena subject)
    (cond : OperandId) (type : String) (negated : Bool) :
    Gives (do addAssertion cond subject (.type (← newString type) negated)) b fun _ b' =>
      After F {} b b' := by
  refine Gives.bind (newString_gives h type) ?_
  rintro x b₁ ⟨h₁, -, hx, hkind⟩
  refine (addAssertion_gives h₁.inv cond ⟨hsubject.grows h₁.grows, ?_⟩).mono ?_
  · intro y hy
    rw [List.mem_singleton.1 hy]
    exact ⟨hx, _, hkind⟩
  · exact fun _ b₂ h₂ => h₁.trans h₂

theorem typeSubject?_mine (h : Inv F D b) {x subject : OperandId} (hx : F.Mine b.arena x)
    (hs : typeSubject? b.arena x = some subject) : F.Mine b.arena subject := by
  unfold typeSubject? at hs
  obtain ⟨op, hop, hs⟩ := Option.bind_eq_some_iff.1 hs
  have happlied := ((h.tidy x hx).defs op (List.mem_of_head? hop)).2 false subject
  generalize (b.arena.op op).kind = kind at hs happlied
  cases kind with
  | functionCall name args r =>
    obtain ⟨text, -, hs⟩ := Option.bind_eq_some_iff.1 hs
    split at hs
    · have hmem : subject ∈ args := List.mem_of_head? (Option.filter_eq_some_iff.1 hs).1
      refine happlied (OpKind.mem_mentioned.2 ?_)
      obtain ⟨i, hi⟩ := List.mem_iff_getElem?.1 hmem
      refine ⟨⟨.args, some i⟩, ?_, rfl⟩
      exact List.mem_append_left _ (List.mem_append_right _ (OpKind.mem_many.2 ⟨i, hi, rfl⟩))
    · cases hs
  | _ => cases hs

theorem typeEquation?_mine (h : Inv F D b) {left right subject : OperandId} {type : String}
    (hleft : F.Mine b.arena left) (hright : F.Mine b.arena right)
    (hs : typeEquation? b.arena left right = some (subject, type)) : F.Mine b.arena subject := by
  have hside : ∀ x y, F.Mine b.arena x →
      (do return (← typeSubject? b.arena x, ← b.arena.stringOf? y) : Option (OperandId × String)) =
        some (subject, type) → F.Mine b.arena subject := by
    intro x y hx hxy
    obtain ⟨s, hs, hxy⟩ := Option.bind_eq_some_iff.1 hxy
    obtain ⟨t, -, hxy⟩ := Option.bind_eq_some_iff.1 hxy
    cases hxy
    exact typeSubject?_mine h hx hs
  unfold typeEquation? at hs
  rcases Option.or_eq_some_iff.1 hs with hs | ⟨-, hs⟩
  · exact hside left right hleft hs
  · exact hside right left hright hs

theorem assertType_gives (h : Inv F {} b) (negated : Bool) {left right : OperandId}
    (hleft : F.Mine b.arena left) (hright : F.Mine b.arena right) (result : OperandId) :
    Gives (assertType negated left right result) b fun _ b' => After F {} b b' := by
  refine Gives.look ?_
  split
  · rename_i subject type hs
    exact addType_gives h (typeEquation?_mine h hleft hright hs) result _ negated
  · exact ⟨h, .refl _⟩

/-! ## Operators -/

theorem valueOp_binary (op : BinaryOp) {left right : OperandId} (hleft : F.Mine b.arena left)
    (hright : F.Mine b.arena right) : ValueOp F b (.binary op left right ·) where
  slots _ := by
    refine ⟨OpKind.one .left left ++ OpKind.one .right right, rfl, ?_⟩
    simp only [Base.ReadsAll, List.forall_mem_append, forall_mem_one]
    exact ⟨⟨hleft, rfl⟩, hright, rfl⟩
  successors _ := rfl
  noPhi _ := nofun
  noAssertion _ := nofun

theorem valueOp_unary (op : UnaryOp) {arg : OperandId} (harg : F.Mine b.arena arg) :
    ValueOp F b (.unary op arg ·) where
  slots _ := ⟨OpKind.one .expr arg, rfl, forall_mem_one.2 ⟨harg, rfl⟩⟩
  successors _ := rfl
  noPhi _ := nofun
  noAssertion _ := nofun

theorem binary_gives (h : Inv F {} b) (op : BinaryOp) {left right : OperandId}
    (hleft : F.Mine b.arena left) (hright : F.Mine b.arena right) (span : Span) :
    Gives (binary op left right span) b fun r b' => After F {} b b' ∧ F.Mine b'.arena r := by
  refine Gives.bind (emitValue_gives h (valueOp_binary op hleft hright) span) ?_
  rintro r b₁ ⟨h₁, -, hr⟩
  have hleft := hleft.grows h₁.grows
  have hright := hright.grows h₁.grows
  have hlast : ∀ (u : Unit) b₂, After F {} b₁ b₂ →
      Gives (pure r) b₂ fun r b' => After F {} b b' ∧ F.Mine b'.arena r :=
    fun _ b₂ h₂ => ⟨h₁.trans h₂, hr.grows h₂.grows⟩
  cases op
  case equal | identical => exact Gives.bind (assertType_gives h₁.inv false hleft hright r) hlast
  case notEqual | notIdentical =>
    exact Gives.bind (assertType_gives h₁.inv true hleft hright r) hlast
  case logicalAnd =>
    refine Gives.bind (copyAssertions_gives h₁.inv (fun _ => rfl) hleft r) ?_
    intro _ b₂ h₂
    refine Gives.bind (copyAssertions_gives h₂.inv (fun _ => rfl) (hright.grows h₂.grows) r) ?_
    exact fun _ b₃ h₃ => hlast () b₃ (h₂.trans h₃)
  all_goals exact hlast () b₁ ⟨h₁.inv, .refl _⟩

theorem unary_gives (h : Inv F {} b) (op : UnaryOp) {arg : OperandId} (harg : F.Mine b.arena arg)
    (span : Span) :
    Gives (unary op arg span) b fun r b' => After F {} b b' ∧ F.Mine b'.arena r := by
  refine Gives.bind (emitValue_gives h (valueOp_unary op harg) span) ?_
  rintro r b₁ ⟨h₁, -, hr⟩
  dsimp only
  split
  · refine Gives.bind (copyAssertions_gives h₁.inv operands_negation (harg.grows h₁.grows) r) ?_
    exact fun _ b₂ h₂ => ⟨h₁.trans h₂, hr.grows h₂.grows⟩
  · exact ⟨h₁, hr⟩

/-! ## Assignments -/

theorem assign_keeps (whole : Bool) {value target : Lowering OperandId}
    (hvalue : Keeps F value F.Mine) (htarget : Targets F target) (span : Span) :
    Keeps F (assign whole value target span) F.Mine := by
  intro b h
  refine Succeeds.bind (current_keeps hvalue h) ?_
  rintro v b₁ ⟨h₁, hv⟩
  refine Succeeds.bind (htarget h₁.inv) ?_
  rintro t b₂ ⟨D, h₂, ht, htakes⟩
  have hv₂ := hv.grows h₂.grows
  refine Succeeds.bind (.lift (emitAssign_gives h₂.inv htakes ht hv₂ (.inl rfl) span)) ?_
  rintro r b₃ ⟨h₃, -, hr⟩
  refine Succeeds.look (Succeeds.look ?_)
  have hresolved := h₃.inv.valueOf_mine (hv₂.grows h₃.grows)
  have h₃ := (h₁.trans h₂).trans h₃
  split
  · obtain ⟨hinv, hg⟩ := h₃.inv.setValue t hresolved
    refine Succeeds.bind (P := fun _ b₄ => After F {} b₃ b₄) (.lift ⟨hinv, hg⟩) ?_
    intro _ b₄ h₄
    refine Succeeds.pure ⟨h₃.trans h₄, ?_⟩
    split
    · exact hresolved.grows h₄.grows
    · exact hr.grows h₄.grows
  · exact Succeeds.pure ⟨h₃, hr⟩

/-- A value that was computed is assigned to a target. -/
theorem emitTarget_succeeds {β : Type} {Q : β → Builder → Prop} {target : Lowering OperandId}
    (htarget : Targets F target) (h : Inv F {} b) {value : OperandId}
    (hvalue : F.Mine b.arena value) (span : Span) {f : OperandId → Lowering β}
    (hf : ∀ r b', After F {} b b' → Succeeds (f r) b' Q) :
    Succeeds (do
      let target ← target
      let result ← emitValue span (.assign target value ·)
      f result) b Q := by
  refine Succeeds.bind (htarget h) ?_
  rintro t b₁ ⟨D, h₁, ht, htakes⟩
  refine Succeeds.bind (.lift (emitAssign_gives h₁.inv htakes ht (hvalue.grows h₁.grows) (.inl rfl)
    span)) ?_
  rintro r b₂ ⟨h₂, -, -⟩
  exact hf r b₂ (h₁.trans h₂)

theorem assignOp_keeps (op : BinaryOp) {left right target : Lowering OperandId}
    (hleft : Keeps F left F.Mine) (hright : Keeps F right F.Mine) (htarget : Targets F target)
    (span : Span) : Keeps F (assignOp op left right target span) F.Mine := by
  intro b h
  refine Succeeds.bind (current_keeps hleft h) ?_
  rintro x b₁ ⟨h₁, hx⟩
  refine Succeeds.bind (current_keeps hright h₁.inv) ?_
  rintro y b₂ ⟨h₂, hy⟩
  refine Succeeds.bind (.lift (emitValue_gives h₂.inv
    (valueOp_binary op (hx.grows h₂.grows) hy) span)) ?_
  rintro r b₃ ⟨h₃, -, hr⟩
  refine emitTarget_succeeds htarget h₃.inv hr span fun _ b₄ h₄ => ?_
  exact Succeeds.pure ⟨((h₁.trans h₂).trans h₃).trans h₄, hr.grows h₄.grows⟩

theorem incDec_keeps (increment before : Bool) {value target : Lowering OperandId}
    (hvalue : Keeps F value F.Mine) (htarget : Targets F target) (span : Span) :
    Keeps F (incDec increment before value target span) F.Mine := by
  intro b h
  refine Succeeds.bind (current_keeps hvalue h) ?_
  rintro x b₁ ⟨h₁, hx⟩
  refine Succeeds.bind (.lift (newOperand_gives h₁.inv (.scalar (.number 1.0)) trivial)) ?_
  rintro one b₂ ⟨h₂, -, hone, -⟩
  have hx := hx.grows h₂.grows
  refine Succeeds.bind (.lift (emitValue_gives h₂.inv (valueOp_binary _ hx hone) span)) ?_
  rintro r b₃ ⟨h₃, -, hr⟩
  refine emitTarget_succeeds htarget h₃.inv hr span fun _ b₄ h₄ => ?_
  refine Succeeds.pure ⟨((h₁.trans h₂).trans h₃).trans h₄, ?_⟩
  split
  · exact hr.grows h₄.grows
  · exact (hx.grows h₃.grows).grows h₄.grows

/-! ## Calls -/

theorem valueOp_functionCall {name : OperandId} {args : List OperandId}
    (hname : F.Mine b.arena name) (hargs : F.AllMine b.arena args) :
    ValueOp F b (.functionCall name args ·) where
  slots _ := by
    refine ⟨OpKind.one .name name ++ OpKind.many .args args, rfl, ?_⟩
    simp only [Base.ReadsAll, List.forall_mem_append, forall_mem_one, forall_mem_many]
    exact ⟨⟨hname, rfl⟩, fun i x hx => ⟨hargs x (List.mem_of_getElem? hx), rfl⟩⟩
  successors _ := rfl
  noPhi _ := nofun
  noAssertion _ := nofun

theorem valueOp_methodCall {var name : OperandId} {args : List OperandId} (nullsafe : Bool)
    (hvar : F.Mine b.arena var) (hname : F.Mine b.arena name) (hargs : F.AllMine b.arena args) :
    ValueOp F b (.methodCall var name args nullsafe ·) where
  slots _ := by
    refine ⟨OpKind.one .var var ++ OpKind.one .name name ++ OpKind.many .args args, rfl, ?_⟩
    simp only [Base.ReadsAll, List.forall_mem_append, forall_mem_one, forall_mem_many]
    exact ⟨⟨⟨hvar, rfl⟩, hname, rfl⟩, fun i x hx => ⟨hargs x (List.mem_of_getElem? hx), rfl⟩⟩
  successors _ := rfl
  noPhi _ := nofun
  noAssertion _ := nofun

theorem valueOp_staticCall {cls name : OperandId} {args : List OperandId}
    (hcls : F.Mine b.arena cls) (hname : F.Mine b.arena name) (hargs : F.AllMine b.arena args) :
    ValueOp F b (.staticCall cls name args ·) where
  slots _ := by
    refine ⟨OpKind.one .cls cls ++ OpKind.one .name name ++ OpKind.many .args args, rfl, ?_⟩
    simp only [Base.ReadsAll, List.forall_mem_append, forall_mem_one, forall_mem_many]
    exact ⟨⟨⟨hcls, rfl⟩, hname, rfl⟩, fun i x hx => ⟨hargs x (List.mem_of_getElem? hx), rfl⟩⟩
  successors _ := rfl
  noPhi _ := nofun
  noAssertion _ := nofun

theorem valueOp_cast (kind : CastKind) {arg : OperandId} (harg : F.Mine b.arena arg) :
    ValueOp F b (.cast kind arg ·) where
  slots _ := ⟨OpKind.one .expr arg, rfl, forall_mem_one.2 ⟨harg, rfl⟩⟩
  successors _ := rfl
  noPhi _ := nofun
  noAssertion _ := nofun

theorem settype_keeps {value type : OperandId} {target : Lowering OperandId}
    (htarget : Targets F target) (h : Inv F {} b) (hvalue : F.Mine b.arena value) (span : Span) :
    Succeeds (settype value type target span) b fun _ b' => After F {} b b' := by
  refine Succeeds.look ?_
  split
  · refine Succeeds.bind (.lift (emitValue_gives h (valueOp_cast _ hvalue) span)) ?_
    rintro r b₁ ⟨h₁, -, hr⟩
    refine emitTarget_succeeds htarget h₁.inv hr span fun _ b₂ h₂ => ?_
    exact Succeeds.pure (h₁.trans h₂)
  · exact Succeeds.pure ⟨h, .refl _⟩

/-- Constants that become known do not matter. -/
theorem define_gives (h : Inv F {} b) (name : String) (value : OperandId) :
    Gives (define name value) b fun _ b' => After F {} b b' := by
  have hconsts : After F {} b { b with consts := b.consts.insert name value } :=
    ⟨h.quiet ⟨.refl _, fun _ => rfl, rfl, rfl, rfl, rfl, rfl, rfl, rfl⟩ (fun _ => rfl) h.tidy rfl,
      .refl _⟩
  have hrun : ((define name value).run b).2 =
      if b.func = b.script.main then { b with consts := b.consts.insert name value } else b := rfl
  rw [Gives, hrun]
  split
  · exact hconsts
  · exact ⟨h, .refl _⟩

/-- A call is made, and what a predicate on types asserts is recorded. -/
theorem emitPredicate_succeeds (h : Inv F {} b) (callee : Option String) {name : OperandId}
    {args : List OperandId} (hname : F.Mine b.arena name) (hargs : F.AllMine b.arena args)
    (span : Span) :
    Succeeds (do
      let result ← emitCall span (.functionCall name args ·)
      match callee.bind predicateType?, args with
      | some type, subject :: _ =>
        if (← look (·.nameOf? subject)).isSome then
          addAssertion result subject (.type (← newString type) false)
      | _, _ => pure ()
      return result) b fun r b' => After F {} b b' ∧ F.Mine b'.arena r := by
  refine Succeeds.bind (.lift (emitCall_gives h (valueOp_functionCall hname hargs) span)) ?_
  rintro r b₁ ⟨h₁, hr⟩
  dsimp only
  split
  · rename_i type subject rest _
    have hsubject := (hargs subject List.mem_cons_self).grows h₁.grows
    refine Succeeds.look ?_
    split
    · refine Succeeds.bind (.lift (newString_gives h₁.inv type)) ?_
      rintro x b₂ ⟨h₂, -, hx, hkind⟩
      refine Succeeds.bind (.lift (addAssertion_gives h₂.inv r
        ⟨hsubject.grows h₂.grows, fun y hy => ?_⟩)) ?_
      · rw [List.mem_singleton.1 hy]
        exact ⟨hx, _, hkind⟩
      · intro _ b₃ h₃
        exact Succeeds.pure ⟨(h₁.trans h₂).trans h₃, (hr.grows h₂.grows).grows h₃.grows⟩
    · exact Succeeds.pure ⟨h₁, hr⟩
  · exact Succeeds.pure ⟨h₁, hr⟩

theorem call_keeps {args : List (Lowering OperandId)} {name target : Lowering OperandId}
    (hargs : ∀ x ∈ args, Keeps F x F.Mine) (hname : Keeps F name F.Mine)
    (htarget : Targets F target) (span : Span) : Keeps F (call args name target span) F.Mine := by
  intro b h
  refine Succeeds.bind (mapM_keeps (fun x hx => current_keeps (hargs x hx)) h) ?_
  rintro vs b₁ ⟨h₁, hvs⟩
  refine Succeeds.bind (hname h₁.inv) ?_
  rintro n b₂ ⟨h₂, hn⟩
  have hvs := hvs.grows h₂.grows
  have h₂ := h₁.trans h₂
  refine Succeeds.look ?_
  have hlast : ∀ callee b₃, After F {} b₂ b₃ → Succeeds _ b₃ _ := fun callee b₃ h₃ =>
    (emitPredicate_succeeds h₃.inv callee (hn.grows h₃.grows) (hvs.grows h₃.grows) span).mono
      fun r b₄ ⟨h₄, hr⟩ => (⟨(h₂.trans h₃).trans h₄, hr⟩ : After F {} b b₄ ∧ F.Mine b₄.arena r)
  dsimp only
  split
  · refine Succeeds.bind (settype_keeps htarget h₂.inv (hvs _ List.mem_cons_self) span) ?_
    intro _ b₃ h₃
    exact hlast _ b₃ h₃
  · refine Succeeds.look ?_
    split
    · refine Succeeds.bind (.lift (define_gives h₂.inv _ _)) ?_
      intro _ b₃ h₃
      exact hlast _ b₃ h₃
    · exact hlast _ b₂ ⟨h₂.inv, .refl _⟩
  · exact hlast _ b₂ ⟨h₂.inv, .refl _⟩

theorem valueOp_new {cls : OperandId} {args : List OperandId} (hcls : F.Mine b.arena cls)
    (hargs : F.AllMine b.arena args) : ValueOp F b (.new cls args ·) where
  slots _ := by
    refine ⟨OpKind.one .cls cls ++ OpKind.many .args args, rfl, ?_⟩
    simp only [Base.ReadsAll, List.forall_mem_append, forall_mem_one, forall_mem_many]
    exact ⟨⟨hcls, rfl⟩, fun i x hx => ⟨hargs x (List.mem_of_getElem? hx), rfl⟩⟩
  successors _ := rfl
  noPhi _ := nofun
  noAssertion _ := nofun

theorem new_gives (h : Inv F {} b) {cls : OperandId} {args : List OperandId}
    (hcls : F.Mine b.arena cls) (hargs : F.AllMine b.arena args) (span : Span) :
    Gives (new cls args span) b fun r b' => After F {} b b' ∧ F.Mine b'.arena r := by
  have hlast : ∀ r b₁, After F {} b b₁ → F.Mine b₁.arena r → b₁.arena.nameOf? r = none →
      Gives (do
        let _ ← emit (.new cls args r) span
        return r) b₁ fun r b' => After F {} b b' ∧ F.Mine b'.arena r := by
    intro r b₁ h₁ hr hname
    refine Gives.bind ((valueOp_new hcls hargs).emit_gives h₁ hr hname span) ?_
    rintro _ b₂ ⟨h₂, -⟩
    exact ⟨h₁.trans h₂, hr.grows h₂.grows⟩
  refine Gives.look ?_
  dsimp only
  split
  · refine Gives.bind (newOperand_gives h (.object _) trivial) ?_
    rintro x b₁ ⟨h₁, -, hx, hkind⟩
    refine Gives.bind (newOperand_gives h₁.inv (.temporary (some x))
      ⟨hx, hx.2, .inr ⟨_, hkind⟩⟩) ?_
    rintro r b₂ ⟨h₂, -, hr, hrkind⟩
    refine hlast r b₂ (h₁.trans h₂) hr ?_
    have hbare := h₂.grows.bare x hx.2
    rw [hkind] at hbare
    rw [(h₂.inv.tidy r hr).nameOf?_eq, Base.shortName?, hrkind]
    dsimp only
    split
    · rename_i hxkind
      rw [hxkind] at hbare
      cases hbare
    · rfl
  · refine Gives.bind (newTemporary_gives h) ?_
    rintro r b₁ ⟨h₁, -, hr, hname⟩
    exact hlast r b₁ h₁ hr hname

/-! ## Choices -/

theorem ops_attachPhi (a : Arena) (block : BlockId) (phi : OpId) (other : BlockId) :
    ((a.attachPhi block phi).block other).ops = (a.block other).ops :=
  Arena.block_modifyBlock_keep _ Block.ops _ _ fun _ => rfl

theorem preds_attachPhi (a : Arena) (block : BlockId) (phi : OpId) (other : BlockId) :
    ((a.attachPhi block phi).block other).preds = (a.block other).preds :=
  Arena.block_modifyBlock_keep _ Block.preds _ _ fun _ => rfl

theorem grows_attachPhi (a : Arena) (block : BlockId) (phi : OpId) :
    Grows a (a.attachPhi block phi) where
  operands := Nat.le_refl _
  ops := by simp [Arena.attachPhi]
  blocks := by simp [Arena.attachPhi]
  bare _ _ := rfl
  kind _ _ := Arena.op_modifyOp_keep _ Op.kind _ _ fun _ => rfl
  listed other := (ops_attachPhi ..).symm ▸ List.prefix_rfl
  preds other := by rw [preds_attachPhi]; exact List.Subset.refl _
  dead other _ := Arena.block_modifyBlock_keep _ Block.dead _ _ fun _ => rfl

/-- A φ that joins no versions of a variable is put into a block. -/
theorem Inv.attachPhi (h : Inv F {} b) (block : BlockId) (phi : OpId) (hphi : F.Joins b.arena phi) :
    After F {} b { b with arena := b.arena.attachPhi block phi } := by
  have hg := grows_attachPhi b.arena block phi
  have htidy : ∀ x, F.Mine (b.arena.attachPhi block phi) x →
      F.Tidy (b.arena.attachPhi block phi) x :=
    fun x hx => (h.tidy x hx).grows hg rfl rfl rfl
  have he : Evolves F {} b { b with arena := b.arena.attachPhi block phi } :=
    ⟨h, hg, htidy, fun _ hp => hp⟩
  refine ⟨h.settle (quiet_arena hg ?_) ?_ htidy ?_ rfl nofun, hg⟩
  · exact ops_attachPhi b.arena block phi
  · intro other _ p hp
    rw [Arena.attachPhi, Arena.block_modifyOp, Arena.block_modifyBlock] at hp
    split at hp
    · rcases mem_addNew.1 hp with hp | rfl
      · exact .inl hp
      · refine .inr ⟨Nat.lt_of_lt_of_le hphi.1 hg.ops, fun vars r hkind => ?_⟩
        rw [hg.kind _ hphi.1] at hkind
        obtain ⟨hr, hname⟩ := hphi.2 vars r hkind
        exact ⟨hr.grows hg, (he.nameOf?_eq hr).trans hname⟩
    · exact .inl hp
  · exact (preds_attachPhi b.arena block phi F.entry).trans h.start

/-- An arm of a choice. -/
theorem arm_succeeds {value : Lowering OperandId} {block last : BlockId} {cond : OperandId}
    (h : Inv F {} b)
    (hvalue : ∀ b₁, After F {} b b₁ →
      Succeeds value b₁ fun y b' => After F {} b₁ b' ∧ F.Mine b'.arena y)
    (hblock : F.Target b.arena block) (hlast : F.Target b.arena last) (span : Span) :
    Succeeds (under cond do
      guardBlock block
      goTo block
      let value ← value
      let dead ← isDead (← get).block
      jump last span
      return if dead then [] else [value]) b fun vs b' =>
        After F {} b b' ∧ F.AllMine b'.arena vs := by
  refine under_succeeds h cond fun b₁ h₁ _ => ?_
  refine Succeeds.bind (.lift (guardBlock_gives h₁.inv block)) ?_
  rintro _ b₂ ⟨h₂, -⟩
  refine Succeeds.bind (.lift (goTo_gives h₂.inv (hblock.grows (h₁.trans h₂).grows).holds)) ?_
  rintro _ b₃ ⟨h₃, -, -⟩
  refine Succeeds.bind (hvalue b₃ ((h₁.trans h₂).trans h₃)) ?_
  rintro v b₄ ⟨h₄, hv⟩
  have h₄ := (h₂.trans h₃).trans h₄
  refine Succeeds.get (Succeeds.bind (P := fun _ b₅ => b₄ = b₅) (.lift rfl) ?_)
  rintro dead _ rfl
  refine Succeeds.bind (.lift (jump_gives h₄.inv (hlast.grows (h₁.trans h₄).grows) span)) ?_
  rintro _ b₅ ⟨h₅, -⟩
  refine Succeeds.pure ⟨h₄.trans h₅, ?_⟩
  split
  · exact nofun
  · intro x hx
    rw [List.mem_singleton.1 hx]
    exact hv.grows h₅.grows

/-- The value of a choice joins the values of its arms. -/
theorem join_gives (h : Inv F {} b) {last : BlockId} (hlast : F.Target b.arena last)
    {values : List OperandId} (hvalues : F.AllMine b.arena values) (span : Span) :
    Gives (do
      goTo last
      let result ← newTemporary none
      let phi ← detached (.phi values result) span
      change (·.attachPhi last phi)
      return result) b fun r b' => After F {} b b' ∧ F.Mine b'.arena r := by
  refine Gives.bind (goTo_gives h hlast.holds) ?_
  rintro _ b₁ ⟨h₁, -, -⟩
  refine Gives.bind (newTemporary_gives h₁.inv) ?_
  rintro r b₂ ⟨h₂, -, hr, hname⟩
  have hvalues := hvalues.grows (h₁.trans h₂).grows
  refine Gives.bind (detached_gives h₂.inv (.phi values r) span ?_) ?_
  · intro sort x hx
    cases sort with
    | false =>
      rw [OpKind.mentioned_phi_false] at hx
      exact hvalues x hx
    | true =>
      rw [OpKind.mentioned_phi_true] at hx
      rw [List.mem_singleton.1 hx]
      exact hr
  rintro phi b₃ ⟨h₃, hs₃, hlt, hkind, -⟩
  have he : Evolves F {} b₂ b₃ := ⟨h₂.inv, h₃.grows, h₃.inv.tidy, hs₃.silent.pending⟩
  have h₄ := h₃.inv.attachPhi last phi ⟨hlt, fun vars r' hk => by
    cases hkind.symm.trans hk
    exact ⟨hr.grows h₃.grows, (he.nameOf?_eq hr).trans hname⟩⟩
  exact ⟨((h₁.trans h₂).trans h₃).trans h₄, (hr.grows h₃.grows).grows h₄.grows⟩

theorem ternary_keeps {cond ifFalse : Lowering OperandId} {ifTrue : Option (Lowering OperandId)}
    (hcond : Keeps F cond F.Mine) (htrue : ∀ x ∈ ifTrue, Keeps F x F.Mine)
    (hfalse : Keeps F ifFalse F.Mine) (span : Span) :
    Keeps F (ternary cond ifTrue ifFalse span) F.Mine := by
  intro b h
  refine Succeeds.bind (current_keeps hcond h) ?_
  rintro c b₁ ⟨h₁, hc⟩
  refine Succeeds.bind (.lift (newBlock_gives h₁.inv)) ?_
  rintro ifBlock b₂ ⟨h₂, -, hif⟩
  refine Succeeds.bind (.lift (newBlock_gives h₂.inv)) ?_
  rintro elseBlock b₃ ⟨h₃, -, helse⟩
  refine Succeeds.bind (.lift (newBlock_gives h₃.inv)) ?_
  rintro last b₄ ⟨h₄, -, hlast⟩
  have hif := (hif.grows h₃.grows).grows h₄.grows
  have helse := helse.grows h₄.grows
  have hc := ((hc.grows h₂.grows).grows h₃.grows).grows h₄.grows
  refine branchOff_succeeds h₄.inv hc hif helse span fun b₆ h₆ => ?_
  have hc := hc.grows h₆.grows
  refine Succeeds.bind (arm_succeeds h₆.inv (fun b' h' => ?_) (hif.grows h₆.grows)
    (hlast.grows h₆.grows) span) ?_
  · cases ifTrue with
    | none => exact Succeeds.pure ⟨⟨h'.inv, .refl _⟩, hc.grows h'.grows⟩
    | some x => exact current_keeps (htrue x rfl) h'.inv
  rintro first b₇ ⟨h₇, hfirst⟩
  refine Succeeds.bind (.lift (negate_gives h₇.inv (hc.grows h₇.grows))) ?_
  rintro negated b₈ ⟨h₈, -, -⟩
  have hfirst := hfirst.grows h₈.grows
  have h₈ := h₇.trans h₈
  have h₆₈ := h₆.trans h₈
  refine Succeeds.bind (arm_succeeds h₈.inv (fun b' h' => current_keeps hfalse h'.inv)
    (helse.grows h₆₈.grows) (hlast.grows h₆₈.grows) span) ?_
  rintro second b₉ ⟨h₉, hsecond⟩
  have hvalues : F.AllMine b₉.arena (first ++ second) := by
    intro x hx
    rcases List.mem_append.1 hx with hx | hx
    · exact (hfirst x hx).grows h₉.grows
    · exact hsecond x hx
  obtain ⟨h₁₀, hr⟩ := join_gives h₉.inv (hlast.grows (h₆₈.grows.trans h₉.grows)) hvalues span
  have hbefore := ((h₁.trans h₂).trans h₃).trans h₄
  exact ⟨_, _, rfl, (hbefore.trans h₆₈).trans (h₉.trans h₁₀), hr⟩

end QueryTaint.Lower
