import QueryTaint.Prepass.Basic
import QueryTaint.Proofs.Syntax.Shape

/-!
# Complete names

A tree is complete if no scope changes a name of it (`Complete`). What completing names leaves is
complete (`completes`), and a complete tree stays as it is (`Complete.kept`). So completing the names
of a tree again changes nothing (`namePass_namePass`).
-/

namespace QueryTaint.Prepass

namespace NamespaceScope

variable {s s' : NamespaceScope}

/-! ## The names of one node -/

theorem resolve_resolve (role : NameRole) (n : Name) :
    s'.resolve role (s.resolve role n) = s.resolve role n := by
  by_cases h : role = .cls && isSelfNaming n
  · rw [resolve.eq_1 s, if_pos h, resolve, if_pos h]
  · have hfull : isSelfNaming { n with kind := .full, parts := s.complete role n } = false := rfl
    rw [resolve.eq_1 s, if_neg h, resolve, hfull, Bool.and_false, if_neg Bool.false_ne_true]
    rfl

theorem declare_declare (n : Name) : s'.declare (s.declare n) = s.declare n := rfl

theorem resolveType_resolveType (type : TypeHint) :
    s'.resolveType (s.resolveType type) = s.resolveType type := by
  refine @TypeHint.rec (fun type => s'.resolveType (s.resolveType type) = s.resolveType type)
    (fun types => s'.resolveTypes (s.resolveTypes types) = s.resolveTypes types) ?named ?union rfl
    ?cons type
  case named =>
    intro name nullable
    simp only [resolveType, resolve_resolve]
  case union =>
    intro types ih
    simp only [resolveType, ih]
  case cons =>
    intro type types ih ihs
    simp only [resolveTypes, ih, ihs]

theorem resolveParams_resolveParams (params : List (Param Expr)) :
    s'.resolveParams (s.resolveParams params) = s.resolveParams params := by
  simp only [resolveParams, List.map_map, Function.comp_def, Option.map_map,
    resolveType_resolveType]

theorem resolveSlot_resolveSlot (role : NameRole) (e : Expr) :
    s'.resolveSlot role (s.resolveSlot role e) = s.resolveSlot role e := by
  obtain ⟨kind, span⟩ := e
  cases kind with
  | name n => simp only [resolveSlot, resolve_resolve]
  | _ => rfl

theorem editExpr_editExpr (kind : ExprKind) :
    s'.editExpr (s.editExpr kind) = s.editExpr kind := by
  cases kind <;> simp only [editExpr, resolve_resolve, resolveSlot_resolveSlot,
    resolveParams_resolveParams, Option.map_map, Function.comp_def, resolveType_resolveType]

theorem editStmt_editStmt (kind : StmtKind) :
    s'.editStmt (s.editStmt kind) = s.editStmt kind := by
  cases kind <;> simp only [editStmt, resolve_resolve, declare_declare, resolveParams_resolveParams,
    List.map_map, Option.map_map, Function.comp_def, resolveType_resolveType]

theorem paramParts_resolveParams (params : List (Param Expr)) :
    paramParts (s.resolveParams params) = paramParts params := by
  simp only [paramParts, resolveParams, List.flatMap_map]

/-- The part of an expression that may be a name to be completed, and what it is the name of. -/
def slot? : ExprKind → Option (Nat × NameRole)
  | .call .. => some (0, .function)
  | .new .. | .staticCall .. | .staticProperty .. | .classConst .. => some (0, .cls)
  | .instanceOf .. => some (1, .cls)
  | _ => none

theorem slot?_of_shape {kind kind' : ExprKind} (h : kind'.shape = kind.shape) :
    slot? kind' = slot? kind := by
  have hshape (kind : ExprKind) : slot? kind.shape = slot? kind := by
    cases kind <;> rfl
  rw [← hshape, h, hshape]

def resolvePart (s : NamespaceScope) (role : NameRole) : Part → Part
  | .expr e => .expr (s.resolveSlot role e)
  | .body stmts => .body stmts

/-- Parts of which one may be a name, with that name complete. -/
def resolveParts (s : NamespaceScope) (ps : List Part) : Option (Nat × NameRole) → List Part
  | some (i, role) => ps.modify i (s.resolvePart role)
  | none => ps

theorem parts_editExpr (kind : ExprKind) :
    (s.editExpr kind).parts = s.resolveParts kind.parts (slot? kind) := by
  cases kind with
  | closure params uses byRef isStatic returnType body arrow =>
    exact congrArg (· ++ [Part.body body]) (paramParts_resolveParams params)
  | _ => rfl

theorem shape_resolveParams (params : List (Param Expr)) :
    (s.resolveParams params).map Param.blank = s.resolveParams (params.map Param.blank) := by
  simp only [resolveParams, List.map_map]
  rfl

theorem shape_editExpr (kind : ExprKind) : (s.editExpr kind).shape = s.editExpr kind.shape := by
  cases kind with
  | closure => simp only [editExpr, ExprKind.shape, shape_resolveParams]
  | _ => rfl

theorem shape_editStmt (kind : StmtKind) : (s.editStmt kind).shape = s.editStmt kind.shape := by
  cases kind with
  | function | method => simp only [editStmt, StmtKind.shape, shape_resolveParams]
  | consts | tryCatch =>
    simp only [editStmt, StmtKind.shape, List.map_map]
    rfl
  | _ => rfl

theorem parts_editStmt (kind : StmtKind) : (s.editStmt kind).parts = kind.parts := by
  cases kind <;> simp only [editStmt, StmtKind.parts, paramParts_resolveParams, constParts, catchParts,
    List.map_map, Function.comp_def]

/-! ## Scopes -/

/-- The scope after a statement is left: one with a body ends the namespace. -/
def afterLeaving (s : NamespaceScope) : StmtKind → NamespaceScope
  | .namespaceDecl _ (some _) => enter none
  | _ => s

theorem afterEntering_of_shape {kind kind' : StmtKind} (h : kind'.shape = kind.shape) :
    s.afterEntering kind' = s.afterEntering kind := by
  have hshape (kind : StmtKind) : s.afterEntering kind.shape = s.afterEntering kind := by
    cases kind <;> rfl
  rw [← hshape, h, hshape]

theorem afterLeaving_of_shape {kind kind' : StmtKind} (h : kind'.shape = kind.shape) :
    s.afterLeaving kind' = s.afterLeaving kind := by
  have hshape (kind : StmtKind) : s.afterLeaving kind.shape = s.afterLeaving kind := by
    cases kind with
    | namespaceDecl name body => cases body <;> rfl
    | _ => rfl
  rw [← hshape, h, hshape]

theorem afterLeaving_editStmt (s s' : NamespaceScope) (kind : StmtKind) :
    s.afterLeaving (s'.editStmt kind) = s.afterLeaving kind := by
  cases kind <;> rfl

end NamespaceScope

/-! ## What the pass does -/

variable {s : NamespaceScope} {span : Span} {ps : List Part} {p : Part}

theorem run_exprKind (kind : ExprKind) (s : NamespaceScope) :
    ((completeNames.exprKind kind).run s).1.parts = ((completeNames.parts kind.parts).run s).1 ∧
    ((completeNames.exprKind kind).run s).1.shape = kind.shape ∧
    ((completeNames.exprKind kind).run s).2 = ((completeNames.parts kind.parts).run s).2 :=
  and_assoc.1 ((Traversal.exprKind_covered kind).run s)

theorem run_stmtKind (kind : StmtKind) (s : NamespaceScope) :
    ((completeNames.stmtKind kind).run s).1.parts = ((completeNames.parts kind.parts).run s).1 ∧
    ((completeNames.stmtKind kind).run s).1.shape = kind.shape ∧
    ((completeNames.stmtKind kind).run s).2 = ((completeNames.parts kind.parts).run s).2 :=
  and_assoc.1 ((Traversal.stmtKind_covered kind).run s)

theorem run_parts_cons : (completeNames.parts (p :: ps)).run s =
    let q := (completeNames.part p).run s
    let qs := (completeNames.parts ps).run q.2
    (q.1 :: qs.1, qs.2) := by
  rw [Traversal.parts_cons]
  rfl

theorem run_part_expr {kind : ExprKind} : (completeNames.part (.expr (.mk kind span))).run s =
    let kind' := (completeNames.exprKind kind).run s
    (.expr (.mk (s.editExpr kind'.1) span), kind'.2) := by
  rw [Traversal.part_expr]
  rfl

theorem run_part_cons {kind : StmtKind} {rest : List Stmt} :
    (completeNames.part (.body (.mk kind span :: rest))).run s =
      let inner := s.afterEntering kind
      let kind' := (completeNames.stmtKind kind).run inner
      let rest' := (completeNames.stmts rest).run (kind'.2.afterLeaving kind)
      (.body (.mk (inner.editStmt kind'.1) span :: rest'.1), rest'.2) := by
  have hleave (kind : StmtKind) (s : NamespaceScope) :
      (completeNames.leaveStmt kind span).run s = ((kind, []), s.afterLeaving kind) := by
    cases kind with
    | namespaceDecl name body => cases body <;> rfl
    | _ => rfl
  obtain ⟨-, hshape, -⟩ := run_stmtKind kind (s.afterEntering kind)
  generalize hrun : (completeNames.stmtKind kind).run (s.afterEntering kind) = y at hshape
  have hvisit : (completeNames.visitStmt kind span).run s =
      (((s.afterEntering kind).editStmt y.1, []), y.2.afterLeaving kind) := by
    rw [← NamespaceScope.afterLeaving_of_shape hshape,
      ← NamespaceScope.afterLeaving_editStmt _ (s.afterEntering kind), ← hleave, ← hrun]
    rfl
  rw [Traversal.part_cons, StateT.run_bind, hvisit]
  subst hrun
  rfl

/-! ## Complete trees -/

/-- No scope changes a name anywhere in a part. -/
def Complete : Part → Prop :=
  Part.All (fun kind => ∀ s : NamespaceScope, s.editExpr kind = kind)
    (fun kind => ∀ s : NamespaceScope, s.editStmt kind = kind)

theorem complete_resolveSlot (role : NameRole) {e : Expr} (h : Complete (.expr e)) :
    Complete (.expr (s.resolveSlot role e)) := by
  obtain ⟨kind, span⟩ := e
  cases kind with
  | name n => exact .expr (fun _ => rfl) nofun
  | _ => exact h

theorem complete_resolvePart (role : NameRole) {p : Part} (h : Complete p) :
    Complete (s.resolvePart role p) := by
  cases p with
  | expr e => exact complete_resolveSlot role h
  | body stmts => exact h

theorem complete_parts_editExpr {kind : ExprKind} (h : ∀ p ∈ kind.parts, Complete p) :
    ∀ p ∈ (s.editExpr kind).parts, Complete p := by
  rw [NamespaceScope.parts_editExpr]
  cases NamespaceScope.slot? kind with
  | none => exact h
  | some slot =>
    intro p hp
    obtain ⟨i, hi⟩ := List.mem_iff_getElem?.1 hp
    rw [NamespaceScope.resolveParts, List.getElem?_modify] at hi
    obtain ⟨q, hq, rfl⟩ := Option.map_eq_some_iff.1 hi
    have hq := h q (List.mem_of_getElem? hq)
    split
    · exact complete_resolvePart _ hq
    · exact hq

theorem completes_parts (h : ∀ p ∈ ps, ∀ s, Complete ((completeNames.part p).run s).1) :
    ∀ s, ∀ q ∈ ((completeNames.parts ps).run s).1, Complete q := by
  induction ps with
  | nil => exact fun _ => nofun
  | cons p ps ih =>
    obtain ⟨hp, hps⟩ := List.forall_mem_cons.1 h
    intro s
    rw [run_parts_cons]
    exact List.forall_mem_cons.2 ⟨hp s, ih hps _⟩

/-- What the pass leaves is complete. -/
theorem completes (p : Part) : ∀ s, Complete ((completeNames.part p).run s).1 := by
  induction p using Part.induct with
  | expr kind span ih =>
    intro s
    rw [run_part_expr]
    refine .expr (fun _ => NamespaceScope.editExpr_editExpr _) (complete_parts_editExpr ?_)
    rw [(run_exprKind kind s).1]
    exact completes_parts ih s
  | nil => exact fun _ => .nil
  | cons kind span rest ih ihrest =>
    intro s
    rw [run_part_cons]
    refine .cons (fun _ => NamespaceScope.editStmt_editStmt _) ?_ (ihrest _)
    rw [NamespaceScope.parts_editStmt, (run_stmtKind kind _).1]
    exact completes_parts ih _

theorem same_parts (h : ∀ p ∈ ps, ∀ s, ((completeNames.part p).run s).1 = p) :
    ∀ s, ((completeNames.parts ps).run s).1 = ps := by
  induction ps with
  | nil => exact fun _ => rfl
  | cons p ps ih =>
    obtain ⟨hp, hps⟩ := List.forall_mem_cons.1 h
    intro s
    rw [run_parts_cons]
    exact congrArg₂ List.cons (hp s) (ih hps _)

/-- The pass leaves a complete part as it is. -/
theorem Complete.kept {p : Part} (h : Complete p) : ∀ s, ((completeNames.part p).run s).1 = p := by
  induction h with
  | @expr kind span hkind _ ih =>
    intro s
    obtain ⟨hparts, hshape, -⟩ := run_exprKind kind s
    have hsame := ExprKind.eq_of_parts hshape (hparts.trans (same_parts ih s))
    simp only [run_part_expr, hsame, hkind]
  | nil => exact fun _ => rfl
  | @cons kind span rest hkind _ _ ih ihrest =>
    intro s
    obtain ⟨hparts, hshape, -⟩ := run_stmtKind kind (s.afterEntering kind)
    have hsame := StmtKind.eq_of_parts hshape (hparts.trans (same_parts ih _))
    have hrest (s : NamespaceScope) : ((completeNames.stmts rest).run s).1 = rest :=
      Part.body.inj (ihrest s)
    simp only [run_part_cons, hsame, hkind, hrest]

theorem namePass_namePass (stmts : List Stmt) : namePass (namePass stmts) = namePass stmts :=
  Part.body.inj ((completes (.body stmts) {}).kept {})

end QueryTaint.Prepass
