import QueryTaint.Proofs.Syntax.Traversal

/-!
# Shapes and parts

A node is determined by its shape and its parts (`ExprKind.eq_of_parts`, `StmtKind.eq_of_parts`): what a
traversal makes of a node is known once it is known what it makes of the parts.
-/

namespace QueryTaint

/-- A holder of parts is determined by what is left of it without them and by the parts. What is left
also fixes how many parts there are. -/
structure Fitted {α : Type} (blank : α → α) (parts : α → List Part) : Prop where
  length : ∀ {x y}, blank x = blank y → (parts x).length = (parts y).length
  eq : ∀ {x y}, blank x = blank y → parts x = parts y → x = y

namespace Fitted

variable {α : Type} {blank : α → α} {parts : α → List Part} {x y : α} {ps qs : List Part}

/-- Parts in front of others. -/
theorem append (h : Fitted blank parts) (hblank : blank x = blank y)
    (hparts : parts x ++ ps = parts y ++ qs) : x = y ∧ ps = qs := by
  obtain ⟨hx, hps⟩ := List.append_inj hparts (h.length hblank)
  exact ⟨h.eq hblank hx, hps⟩

theorem list (h : Fitted blank parts) : Fitted (List.map blank) (List.flatMap parts) where
  length {l} := by
    induction l with
    | nil =>
      intro l' hblank
      rw [List.map_eq_nil_iff.1 hblank.symm]
    | cons x l ih =>
      intro l' hblank
      obtain ⟨y, l', rfl, hx, hl⟩ := List.map_eq_cons_iff.1 hblank.symm
      rw [List.flatMap_cons, List.flatMap_cons, List.length_append, List.length_append,
        h.length hx.symm, ih hl.symm]
  eq {l} := by
    induction l with
    | nil =>
      intro l' hblank _
      rw [List.map_eq_nil_iff.1 hblank.symm]
    | cons x l ih =>
      intro l' hblank hparts
      obtain ⟨y, l', rfl, hx, hl⟩ := List.map_eq_cons_iff.1 hblank.symm
      obtain ⟨rfl, hps⟩ := h.append hx.symm hparts
      rw [ih hl.symm hps]

end Fitted

theorem fitted_option : Fitted (Option.map fun _ => hole) optionParts where
  length {x y} h := by cases x <;> cases y <;> first | rfl | cases h
  eq {x y} h hparts := by cases x <;> cases y <;> first | cases h; done | cases hparts; rfl

theorem fitted_body : Fitted (Option.map fun _ => []) bodyParts where
  length {x y} h := by cases x <;> cases y <;> first | rfl | cases h
  eq {x y} h hparts := by cases x <;> cases y <;> first | cases h; done | cases hparts; rfl

theorem fitted_exprs : Fitted (List.map fun _ => hole) exprParts where
  length h := by
    have := congrArg List.length h
    simpa only [exprParts, List.length_map] using this
  eq _ hparts := (List.map_inj_right fun _ _ => Part.expr.inj).1 hparts

theorem fitted_args : Fitted (List.map Arg.blank) argParts := by
  have h : Fitted Arg.blank fun a => [Part.expr a.value] := by
    refine ⟨fun _ => rfl, fun {x y} hblank hparts => ?_⟩
    cases x
    cases y
    cases hparts
    cases hblank
    rfl
  have heq : argParts = List.flatMap fun a => [Part.expr a.value] :=
    funext fun _ => List.map_eq_flatMap ..
  exact heq ▸ h.list

theorem fitted_items : Fitted (List.map ArrayItem.blank) itemParts := by
  refine Fitted.list ⟨fun {x y} hblank => ?_, fun {x y} hblank hparts => ?_⟩
  · injection hblank with hkey hvalue
    rw [List.length_append, List.length_append, fitted_option.length hkey, fitted_option.length hvalue]
  · cases x
    cases y
    injection hblank with hkey hvalue hbyRef hunpack
    obtain ⟨rfl, hparts⟩ := fitted_option.append hkey hparts
    cases fitted_option.eq hvalue hparts
    cases hbyRef
    cases hunpack
    rfl

theorem fitted_params : Fitted (List.map Param.blank) paramParts := by
  refine Fitted.list ⟨fun {x y} hblank => ?_, fun {x y} hblank hparts => ?_⟩
  · injection hblank with _ hdefault
    exact fitted_option.length hdefault
  · cases x
    cases y
    simp only [Param.blank, Param.mk.injEq] at hblank ⊢
    exact ⟨hblank.1, fitted_option.eq hblank.2.1 hparts, hblank.2.2⟩

theorem fitted_declared : Fitted (List.map Declared.blank) declaredParts := by
  refine Fitted.list ⟨fun {x y} hblank => ?_, fun {x y} hblank hparts => ?_⟩
  · injection hblank with _ hdefault
    exact fitted_option.length hdefault
  · cases x
    cases y
    simp only [Declared.blank, Declared.mk.injEq] at hblank ⊢
    exact ⟨hblank.1, fitted_option.eq hblank.2.1 hparts, hblank.2.2⟩

theorem fitted_constDecls : Fitted (List.map ConstDecl.blank) constParts := by
  have h : Fitted ConstDecl.blank fun c => [Part.expr c.value] := by
    refine ⟨fun _ => rfl, fun {x y} hblank hparts => ?_⟩
    cases x
    cases y
    cases hparts
    cases hblank
    rfl
  have heq : constParts = List.flatMap fun c => [Part.expr c.value] :=
    funext fun _ => List.map_eq_flatMap ..
  exact heq ▸ h.list

theorem fitted_elseIfs : Fitted (List.map ElseIf.blank) elseIfParts := by
  refine Fitted.list ⟨fun _ => rfl, fun {x y} hblank hparts => ?_⟩
  cases x
  cases y
  cases hparts
  cases hblank
  rfl

theorem fitted_cases : Fitted (List.map Case.blank) caseParts := by
  refine Fitted.list ⟨fun {x y} hblank => ?_, fun {x y} hblank hparts => ?_⟩
  · injection hblank with hcond
    rw [List.length_append, List.length_append, fitted_option.length hcond]
    rfl
  · cases x
    cases y
    simp only [Case.blank, Case.mk.injEq] at hblank ⊢
    obtain ⟨hcond, hbody⟩ := fitted_option.append hblank.1 hparts
    cases hbody
    exact ⟨hcond, rfl, hblank.2.2⟩

theorem fitted_catches : Fitted (List.map Catch.blank) catchParts := by
  have h : Fitted Catch.blank fun c => [Part.body c.body] := by
    refine ⟨fun _ => rfl, fun {x y} hblank hparts => ?_⟩
    cases x
    cases y
    cases hparts
    cases hblank
    rfl
  have heq : catchParts = List.flatMap fun c => [Part.body c.body] :=
    funext fun _ => List.map_eq_flatMap ..
  exact heq ▸ h.list

theorem ExprKind.ctorIdx_shape (kind : ExprKind) : kind.shape.ctorIdx = kind.ctorIdx := by
  cases kind <;> rfl

theorem StmtKind.ctorIdx_shape (kind : StmtKind) : kind.shape.ctorIdx = kind.ctorIdx := by
  cases kind <;> rfl

/-- An expression is determined by its shape and its parts. -/
theorem ExprKind.eq_of_parts {kind kind' : ExprKind} (hshape : kind.shape = kind'.shape)
    (hparts : kind.parts = kind'.parts) : kind = kind' := by
  -- the other one is of the same form, so it is not split into all forms again
  have hform : kind.ctorIdx = kind'.ctorIdx := by
    rw [← ctorIdx_shape, hshape, ctorIdx_shape]
  revert hshape hparts
  cases kind <;> refine ExprKind.ctorElim
    (motive_2 := fun kind' => _ = kind'.shape → _ = kind'.parts → _ = kind') _ kind' hform ⟨?_⟩
  all_goals
    intros
    intro hshape hparts
    -- there is nothing to take apart where as many parts stand in every node of the form
    try (cases hshape; cases hparts; rfl)
  case interpolated | isset | shellExec =>
    injection hshape with hblank
    exact congrArg _ (fitted_exprs.eq hblank hparts)
  case array =>
    injection hshape with hblank hlist
    exact congrArg₂ _ (fitted_items.eq hblank hparts) hlist
  case exit =>
    injection hshape with hblank
    exact congrArg _ (fitted_option.eq hblank hparts)
  case element =>
    injection hshape with _ hblank
    injection hparts with hvar hdim
    exact congrArg₂ _ (Part.expr.inj hvar) (fitted_option.eq hblank hdim)
  case call | new =>
    injection hshape with _ hblank
    injection hparts with hcallee hargs
    exact congrArg₂ _ (Part.expr.inj hcallee) (fitted_args.eq hblank hargs)
  case methodCall | staticCall =>
    injection hshape with _ _ hblank
    injection hparts with hvar hparts
    injection hparts with hcallee hargs
    cases hvar
    cases hcallee
    cases fitted_args.eq hblank hargs
    first | rfl | exact congrArg _ ‹_›
  case closure =>
    injection hshape with hblank
    obtain ⟨hparams, hbody⟩ := fitted_params.append hblank hparts
    grind
  case ternary =>
    injection hshape with _ hblank
    injection hparts with hcond hparts
    obtain ⟨hifTrue, hifFalse⟩ := fitted_option.append hblank hparts
    grind
  case yield =>
    injection hshape with hblank hblank'
    obtain ⟨hkey, hvalue⟩ := fitted_option.append hblank hparts
    exact congrArg₂ _ hkey (fitted_option.eq hblank' hvalue)

/-- A statement is determined by its shape and its parts. -/
theorem StmtKind.eq_of_parts {kind kind' : StmtKind} (hshape : kind.shape = kind'.shape)
    (hparts : kind.parts = kind'.parts) : kind = kind' := by
  have hform : kind.ctorIdx = kind'.ctorIdx := by
    rw [← ctorIdx_shape, hshape, ctorIdx_shape]
  revert hshape hparts
  cases kind <;> refine StmtKind.ctorElim
    (motive_4 := fun kind' => _ = kind'.shape → _ = kind'.parts → _ = kind') _ kind' hform ⟨?_⟩
  all_goals
    intros
    intro hshape hparts
    try (cases hshape; cases hparts; rfl)
  case echo | global | unset =>
    injection hshape with hblank
    exact congrArg _ (fitted_exprs.eq hblank hparts)
  case returns | breakLoop | continueLoop =>
    injection hshape with hblank
    exact congrArg _ (fitted_option.eq hblank hparts)
  case static =>
    injection hshape with hblank
    exact congrArg _ (fitted_declared.eq hblank hparts)
  case classConsts | consts =>
    injection hshape with hblank
    exact congrArg _ (fitted_constDecls.eq hblank hparts)
  case namespaceDecl =>
    injection hshape with hpath hblank
    exact congrArg₂ _ hpath (fitted_body.eq hblank hparts)
  case properties =>
    injection hshape with hmodifiers htype hblank
    rw [hmodifiers, htype, fitted_declared.eq hblank hparts]
  case switch =>
    injection hshape with _ hblank
    injection hparts with hcond hcases
    exact congrArg₂ _ (Part.expr.inj hcond) (fitted_cases.eq hblank hcases)
  case ifElse =>
    injection hshape with _ _ hblank hblank'
    injection hparts with hcond hparts
    injection hparts with hthen hparts
    obtain ⟨helseIfs, helse⟩ := fitted_elseIfs.append hblank hparts
    have helse := fitted_body.eq hblank' helse
    grind
  case forLoop =>
    injection hshape with hblank hblank' hblank''
    obtain ⟨hinit, hparts⟩ := fitted_exprs.append hblank hparts
    obtain ⟨hcond, hparts⟩ := fitted_exprs.append hblank' hparts
    obtain ⟨hstep, hbody⟩ := fitted_exprs.append hblank'' hparts
    grind
  case foreach =>
    injection hshape with _ hblank
    injection hparts with hsubject hparts
    obtain ⟨hkey, hparts⟩ := fitted_option.append hblank hparts
    grind
  case tryCatch =>
    injection hshape with _ hblank hblank'
    injection hparts with hbody hparts
    obtain ⟨hcatches, hfinish⟩ := fitted_catches.append hblank hparts
    have hfinish := fitted_body.eq hblank' hfinish
    grind
  case function =>
    injection hshape with _ hblank
    obtain ⟨hparams, hbody⟩ := fitted_params.append hblank hparts
    grind
  case method =>
    injection hshape with _ _ hblank _ _ hblank'
    obtain ⟨hparams, hbody⟩ := fitted_params.append hblank hparts
    have hbody := fitted_body.eq hblank' hbody
    grind

/-! ## Names -/

/-- Whether an expression is a name. -/
def ExprKind.isName : ExprKind → Bool
  | .name _ => true
  | _ => false

/-- Whether a part is a name. -/
def Part.isName : Part → Bool
  | .expr e => e.kind.isName
  | .body _ => false

theorem ExprKind.isName_shape (kind : ExprKind) : kind.shape.isName = kind.isName := by
  cases kind <;> rfl

/-! ## Every node -/

/-- Every expression and every statement anywhere in a part satisfies a condition. -/
inductive Part.All (onExpr : ExprKind → Prop) (onStmt : StmtKind → Prop) : Part → Prop where
  | expr {kind : ExprKind} {span : Span} :
    onExpr kind → (∀ p ∈ kind.parts, All onExpr onStmt p) → All onExpr onStmt (.expr (.mk kind span))
  | nil : All onExpr onStmt (.body [])
  | cons {kind : StmtKind} {span : Span} {rest : List Stmt} :
    onStmt kind → (∀ p ∈ kind.parts, All onExpr onStmt p) → All onExpr onStmt (.body rest) →
      All onExpr onStmt (.body (.mk kind span :: rest))

/-! ## Runs -/

namespace Traversal

section

variable {m : Type → Type} [Monad m] [LawfulMonad m] {r : Traversal m} {β : Type}

/-- An edit of expressions may be made before their parts are gone through, if that holds of what it
does to the parts. -/
theorem exprKind_eq_map {kind : ExprKind} {f : ExprKind → ExprKind} {g : List Part → List Part}
    (hparts : r.parts (f kind).parts = g <$> r.parts kind.parts)
    (hresult : ∀ kind' : ExprKind, kind'.shape = kind.shape →
      (f kind').parts = g kind'.parts ∧ (f kind').shape = (f kind).shape) :
    r.exprKind (f kind) = f <$> r.exprKind kind :=
  have : Nonempty ExprKind := ⟨kind⟩
  (exprKind_covered kind).eq_map (exprKind_covered (f kind)) hparts
    (fun kind' _ h => h.1 ▸ hresult kind' h.2)
    fun _ _ _ h h' => ExprKind.eq_of_parts (h.2.trans h'.2.symm) (h.1.trans h'.1.symm)

theorem stmtKind_eq_map {kind : StmtKind} {f : StmtKind → StmtKind} {g : List Part → List Part}
    (hparts : r.parts (f kind).parts = g <$> r.parts kind.parts)
    (hresult : ∀ kind' : StmtKind, kind'.shape = kind.shape →
      (f kind').parts = g kind'.parts ∧ (f kind').shape = (f kind).shape) :
    r.stmtKind (f kind) = f <$> r.stmtKind kind :=
  have : Nonempty StmtKind := ⟨kind⟩
  (stmtKind_covered kind).eq_map (stmtKind_covered (f kind)) hparts
    (fun kind' _ h => h.1 ▸ hresult kind' h.2)
    fun _ _ _ h h' => StmtKind.eq_of_parts (h.2.trans h'.2.symm) (h.1.trans h'.1.symm)

/-- What is done with a node after its parts may be given for its shape only. -/
theorem exprKind_bind_congr {kind : ExprKind} {f g : ExprKind → m β}
    (h : ∀ kind' : ExprKind, kind'.shape = kind.shape → f kind' = g kind') :
    r.exprKind kind >>= f = r.exprKind kind >>= g := by
  obtain ⟨both, hboth, -⟩ := exprKind_covered (r := r) kind
  rw [← hboth, bind_map_left, bind_map_left]
  exact congrArg _ (funext fun y => h _ y.2.2)

theorem stmtKind_bind_congr {kind : StmtKind} {f g : StmtKind → m β}
    (h : ∀ kind' : StmtKind, kind'.shape = kind.shape → f kind' = g kind') :
    r.stmtKind kind >>= f = r.stmtKind kind >>= g := by
  obtain ⟨both, hboth, -⟩ := stmtKind_covered (r := r) kind
  rw [← hboth, bind_map_left, bind_map_left]
  exact congrArg _ (funext fun y => h _ y.2.2)

end

variable {σ α : Type} {r : Traversal (StateM σ)} {ps : List Part} {x : StateM σ α}
  {A : α → List Part → Prop}

/-- A step that goes through parts ends in the state after them. -/
theorem Covers.run (h : r.Covers ps x A) (s : σ) :
    A (x.run s).1 ((r.parts ps).run s).1 ∧ (x.run s).2 = ((r.parts ps).run s).2 := by
  obtain ⟨both, rfl, hparts⟩ := h
  rw [← hparts]
  exact ⟨(both.run s).1.2, rfl⟩

end Traversal

end QueryTaint
