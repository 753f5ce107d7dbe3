import QueryTaint.Proofs.Prepass.Loop
import QueryTaint.Proofs.Prepass.Magic
import QueryTaint.Proofs.Prepass.Names

/-!
# The order of the passes

Jumps may be resolved before names are completed or after. An edit of names commutes with a traversal
(`exprKind_editExpr`, `stmtKind_editStmt`), and so does a label that is added (`stmtKind_addLabel`). By
induction over the parts of a tree, both orders take the same steps (`commutes`): the labels made are
the same, and completing the names of the resolved tree gives the tree resolved with complete names.
-/

namespace QueryTaint.Prepass

/-! ## Edits and traversals -/

section Edits

variable {m : Type → Type} [Monad m] [LawfulMonad m] {r : Traversal m} {s : NamespaceScope}

theorem part_resolvePart {role : NameRole}
    (h : ∀ e, r.expr (s.resolveSlot role e) = s.resolveSlot role <$> r.expr e) (p : Part) :
    r.part (s.resolvePart role p) = s.resolvePart role <$> r.part p := by
  cases p with
  | expr e =>
    simp only [NamespaceScope.resolvePart, Traversal.part, h, map_bind, map_pure, bind_map_left]
  | body stmts =>
    simp only [NamespaceScope.resolvePart, Traversal.part, map_bind, map_pure]

/-- The names of an expression may be completed before its parts are gone through, if those of its slots
may. -/
theorem exprKind_editExpr
    (h : ∀ role e, r.expr (s.resolveSlot role e) = s.resolveSlot role <$> r.expr e)
    (kind : ExprKind) : r.exprKind (s.editExpr kind) = s.editExpr <$> r.exprKind kind := by
  refine Traversal.exprKind_eq_map (g := (s.resolveParts · (NamespaceScope.slot? kind))) ?_
    fun kind' hshape => ⟨?_, by rw [NamespaceScope.shape_editExpr, hshape, NamespaceScope.shape_editExpr]⟩
  · rw [NamespaceScope.parts_editExpr]
    cases NamespaceScope.slot? kind with
    | none => exact (id_map _).symm
    | some slot => exact Traversal.parts_modify (part_resolvePart (h slot.2)) slot.1 kind.parts
  · rw [NamespaceScope.parts_editExpr, NamespaceScope.slot?_of_shape hshape]

/-- The names of a statement may be completed before its parts are gone through. -/
theorem stmtKind_editStmt (kind : StmtKind) :
    r.stmtKind (s.editStmt kind) = s.editStmt <$> r.stmtKind kind := by
  refine Traversal.stmtKind_eq_map (g := id) ?_ fun kind' hshape =>
    ⟨NamespaceScope.parts_editStmt kind', by
      rw [NamespaceScope.shape_editStmt, hshape, NamespaceScope.shape_editStmt]⟩
  rw [NamespaceScope.parts_editStmt, id_map]

/-- A part with a label at its end, if it is a body. -/
def withLabel (name : String) (span : Span) : Part → Part
  | .expr e => .expr e
  | .body stmts => .body (stmts ++ [.mk (.label name) span])

/-- The only body of a loop is the one that gets the label. -/
theorem parts_addLabel_eq_map (name : String) (span : Span) {kind : StmtKind}
    (h : kind.surround = .loop) :
    (addLabel name span kind).parts = kind.parts.map (withLabel name span) := by
  have hexprs (es : List Expr) : (exprParts es).map (withLabel name span) = exprParts es :=
    List.map_map
  have hoption (e : Option Expr) : (optionParts e).map (withLabel name span) = optionParts e :=
    List.map_map
  cases kind with
  | whileLoop | doWhile => rfl
  | forLoop | foreach =>
    simp only [addLabel, StmtKind.parts, List.map_append, List.map_cons, List.map_nil, hexprs, hoption]
    rfl
  | _ => cases h

theorem addLabel_of_not_loop (name : String) (span : Span) {kind : StmtKind}
    (h : kind.surround ≠ .loop) : addLabel name span kind = kind := by
  cases kind <;> first | rfl | exact absurd rfl h

/-- A label may be added to a loop before its parts are gone through, if that holds of its body. -/
theorem stmtKind_addLabel {name : String} {span : Span}
    (h : ∀ stmts, r.stmts (stmts ++ [.mk (.label name) span]) =
      (· ++ [.mk (.label name) span]) <$> r.stmts stmts) (kind : StmtKind) :
    r.stmtKind (addLabel name span kind) = addLabel name span <$> r.stmtKind kind := by
  have hpart (p : Part) : r.part (withLabel name span p) = withLabel name span <$> r.part p := by
    cases p with
    | expr e => simp only [withLabel, Traversal.part, map_bind, map_pure]
    | body stmts => simp only [withLabel, Traversal.part, h, map_bind, map_pure, bind_map_left]
  have hshape (kind' : StmtKind) (hkind : kind'.shape = kind.shape) :
      (addLabel name span kind').shape = (addLabel name span kind).shape := by
    rw [shape_addLabel, hkind, shape_addLabel]
  by_cases hloop : kind.surround = .loop
  · refine Traversal.stmtKind_eq_map (g := List.map (withLabel name span)) ?_ fun kind' hkind =>
      ⟨parts_addLabel_eq_map name span ((StmtKind.surround_of_shape hkind).trans hloop),
        hshape kind' hkind⟩
    rw [parts_addLabel_eq_map name span hloop, Traversal.parts_map hpart]
  · refine Traversal.stmtKind_eq_map (g := id) ?_ fun kind' hkind =>
      ⟨?_, hshape kind' hkind⟩
    · rw [addLabel_of_not_loop name span hloop, id_map]
    · rw [addLabel_of_not_loop name span (StmtKind.surround_of_shape hkind ▸ hloop)]
      rfl

end Edits

/-! ## Node by node -/

variable {ns : NamespaceScope} {ls : LoopScope} {span : Span} {ps : List Part}

/-- Jumps are resolved alike in a part and in the part with complete names: completing the names of what
becomes of the one gives what becomes of the other, and the scope after the part. -/
def Commutes (p : Part) : Prop :=
  ∀ (ns : NamespaceScope) (ls : LoopScope),
    Alike (fun q q' => (completeNames.part q).run ns = (q', ((completeNames.part p).run ns).2))
      ((resolveLoops.part p).run ls) ((resolveLoops.part ((completeNames.part p).run ns).1).run ls)

theorem commutes_parts (h : ∀ p ∈ ps, Commutes p) (ns : NamespaceScope) (ls : LoopScope) :
    Alike (fun qs qs' => (completeNames.parts qs).run ns = (qs', ((completeNames.parts ps).run ns).2))
      ((resolveLoops.parts ps).run ls)
      ((resolveLoops.parts ((completeNames.parts ps).run ns).1).run ls) := by
  induction ps generalizing ns ls with
  | nil => exact .ok rfl
  | cons p ps ih =>
    obtain ⟨hp, hps⟩ := List.forall_mem_cons.1 h
    rw [run_parts_cons, Traversal.parts_cons, Traversal.parts_cons]
    refine (hp ns ls).bind fun q q' s hq => alike_map.2 ?_
    refine (ih hps _ s).mono fun qs qs' hqs => ?_
    simp only [run_parts_cons, hq, hqs]

theorem commutes_exprKind {kind : ExprKind} (h : ∀ p ∈ kind.parts, Commutes p) (ns : NamespaceScope)
    (ls : LoopScope) :
    Alike (fun k k' => k.shape = kind.shape ∧
        (completeNames.exprKind k).run ns = (k', ((completeNames.exprKind kind).run ns).2))
      ((resolveLoops.exprKind kind).run ls)
      ((resolveLoops.exprKind ((completeNames.exprKind kind).run ns).1).run ls) := by
  obtain ⟨hparts, hshape, hscope⟩ := run_exprKind kind ns
  have hbefore := commutes_parts h ns ls
  rw [← hparts] at hbefore
  refine (hbefore.of_covers (Traversal.exprKind_covered kind) (Traversal.exprKind_covered _)).mono ?_
  rintro k k' ⟨qs, qs', ⟨rfl, hk⟩, ⟨rfl, hk'⟩, hrun⟩
  obtain ⟨hparts', hshape', hscope'⟩ := run_exprKind k ns
  rw [hrun] at hparts' hscope'
  refine ⟨hk, Prod.ext ?_ (by rw [hscope', hscope])⟩
  exact ExprKind.eq_of_parts (by rw [hshape', hk, hk', hshape]) hparts'

theorem commutes_stmtKind {kind : StmtKind} (h : ∀ p ∈ kind.parts, Commutes p) (ns : NamespaceScope)
    (ls : LoopScope) :
    Alike (fun k k' => k.shape = kind.shape ∧
        (completeNames.stmtKind k).run ns = (k', ((completeNames.stmtKind kind).run ns).2))
      ((resolveLoops.stmtKind kind).run ls)
      ((resolveLoops.stmtKind ((completeNames.stmtKind kind).run ns).1).run ls) := by
  obtain ⟨hparts, hshape, hscope⟩ := run_stmtKind kind ns
  have hbefore := commutes_parts h ns ls
  rw [← hparts] at hbefore
  refine (hbefore.of_covers (Traversal.stmtKind_covered kind) (Traversal.stmtKind_covered _)).mono ?_
  rintro k k' ⟨qs, qs', ⟨rfl, hk⟩, ⟨rfl, hk'⟩, hrun⟩
  obtain ⟨hparts', hshape', hscope'⟩ := run_stmtKind k ns
  rw [hrun] at hparts' hscope'
  refine ⟨hk, Prod.ext ?_ (by rw [hscope', hscope])⟩
  exact StmtKind.eq_of_parts (by rw [hshape', hk, hk', hshape]) hparts'

/-! ## Expressions -/

/-- What is done around a closure, and nothing around any other expression. -/
def aroundClosure (kind : ExprKind) (f : LoopScope → LoopScope) : LoopM Unit :=
  if kind.isClosure then modify f else pure ()

theorem visitExpr_eq (kind : ExprKind) : resolveLoops.visitExpr kind span = (do
    aroundClosure kind (·.openBody)
    let kind' ← resolveLoops.exprKind kind
    aroundClosure kind (·.closeBody)
    return kind') := by
  have henter (kind : ExprKind) : resolveLoops.enterExpr (.mk kind span) =
      (do aroundClosure kind (·.openBody); return id) := by
    cases kind <;> rfl
  have hleave (kind' : ExprKind) (h : kind'.shape = kind.shape) :
      resolveLoops.leaveExpr kind' = aroundClosure kind (·.closeBody) := by
    have hleave : resolveLoops.leaveExpr kind' = aroundClosure kind' (·.closeBody) := by
      cases kind' <;> rfl
    rw [hleave, aroundClosure, aroundClosure, ← kind'.isClosure_shape, h, kind.isClosure_shape]
  rw [Traversal.visitExpr, henter, bind_assoc]
  refine congrArg _ (funext fun _ => ?_)
  rw [pure_bind]
  exact Traversal.exprKind_bind_congr fun kind' h => by simp only [id, hleave kind' h]

theorem expr_resolveSlot (role : NameRole) (e : Expr) :
    resolveLoops.expr (ns.resolveSlot role e) = ns.resolveSlot role <$> resolveLoops.expr e := by
  obtain ⟨kind, span⟩ := e
  have hexpr (kind : ExprKind) : resolveLoops.expr (.mk kind span) = (do
      return .mk (← resolveLoops.visitExpr kind span) span) := by
    simp only [Traversal.expr, Traversal.visitExpr, bind_assoc, pure_bind]
  cases hname : kind.isName with
  | true =>
    cases kind with
    | name => rfl
    | _ => cases hname
  | false =>
    have hother (kind : ExprKind) (h : kind.isName = false) :
        ns.resolveSlot role (.mk kind span) = .mk kind span := by
      cases kind <;> first | rfl | cases h
    rw [hother kind hname, hexpr, visitExpr_eq]
    simp only [bind_assoc, pure_bind, map_bind, map_pure]
    refine congrArg _ (funext fun _ => Traversal.exprKind_bind_congr fun kind' hshape => ?_)
    rw [hother kind' (by rw [← kind'.isName_shape, hshape, kind.isName_shape, hname])]

theorem isClosure_editExpr (kind : ExprKind) : (ns.editExpr kind).isClosure = kind.isClosure := by
  cases kind <;> rfl

theorem commutes_expr {kind : ExprKind} (h : ∀ p ∈ kind.parts, Commutes p) :
    Commutes (.expr (.mk kind span)) := by
  intro ns ls
  obtain ⟨-, hshape, -⟩ := run_exprKind kind ns
  have haround (f : LoopScope → LoopScope) :
      aroundClosure (ns.editExpr ((completeNames.exprKind kind).run ns).1) f = aroundClosure kind f := by
    rw [aroundClosure, aroundClosure, isClosure_editExpr, ← ExprKind.isClosure_shape, hshape,
      kind.isClosure_shape]
  rw [run_part_expr, Traversal.part_expr, Traversal.part_expr, alike_map, visitExpr_eq, visitExpr_eq,
    haround, haround]
  refine Alike.same.bind fun _ _ ls₁ _ => ?_
  rw [exprKind_editExpr expr_resolveSlot, bind_map_left]
  refine (commutes_exprKind h ns ls₁).bind fun k k' ls₂ hk => ?_
  refine Alike.same.bind fun _ _ ls₃ _ => .ok ?_
  simp only [run_part_expr, hk.2]

/-! ## Statements -/

/-- What the pass does where a statement other than `break` and `continue` is entered. -/
def opening : Surround → LoopScope → LoopScope
  | .loop, ls => ls.openLoop
  | .switch, ls => ls.openSwitch
  | .function, ls => ls.openBody
  | .nothing, ls => ls

/-- What the pass does where a statement is left; the answer is the target of a loop or a switch. -/
def closing : Surround → LoopScope → Option LoopTarget × LoopScope
  | .loop, ls | .switch, ls => ls.close
  | .function, ls => (none, ls.closeBody)
  | .nothing, ls => (none, ls)

/-- What becomes of a statement with some target: it gets the labels of the target. -/
def ended (span : Span) (kind : StmtKind) : Option LoopTarget → StmtKind × List Stmt
  | some target => (addLabel target.endOfBody span kind, [.mk (.label target.afterLoop) span])
  | none => (kind, [])

theorem visitStmt_eq {kind : StmtKind} (hexit : kind.isExit = false) :
    resolveLoops.visitStmt kind span = (do
    modify (opening kind.surround)
    let kind' ← resolveLoops.stmtKind kind
    let target ← modifyGet (closing kind.surround)
    return ended span kind' target) := by
  have henter : resolveLoops.enterStmt (.mk kind span) =
      (do modify (opening kind.surround); return id) := by
    cases kind <;> first | rfl | cases hexit
  have hleave (kind' : StmtKind) (h : kind'.shape = kind.shape) :
      resolveLoops.leaveStmt kind' span =
        (do return ended span kind' (← modifyGet (closing kind.surround))) := by
    rw [← StmtKind.surround_of_shape h]
    funext ls
    obtain ⟨labels, frames⟩ := ls
    cases kind' <;> first | rfl | (rcases frames with _ | ⟨_ | ⟨target, frame⟩, outer⟩ <;> rfl)
  rw [Traversal.visitStmt, henter, bind_assoc]
  refine congrArg _ (funext fun _ => ?_)
  rw [pure_bind]
  exact Traversal.stmtKind_bind_congr fun kind' h => hleave kind' h

theorem stmts_label (name : String) (rest : List Stmt) :
    completeNames.stmts (.mk (.label name) span :: rest) =
      (.mk (.label name) span :: ·) <$> completeNames.stmts rest := rfl

theorem stmts_labels {added : List Stmt} (h : ∀ s ∈ added, ∃ name span, s = .mk (.label name) span)
    (rest : List Stmt) :
    completeNames.stmts (added ++ rest) = (added ++ ·) <$> completeNames.stmts rest := by
  induction added with
  | nil => exact (id_map _).symm
  | cons s added ih =>
    obtain ⟨hs, hadded⟩ := List.forall_mem_cons.1 h
    obtain ⟨name, span, rfl⟩ := hs
    rw [List.cons_append, stmts_label, ih hadded, Functor.map_map]
    rfl

theorem stmts_append_label (name : String) (stmts : List Stmt) :
    completeNames.stmts (stmts ++ [.mk (.label name) span]) =
      (· ++ [.mk (.label name) span]) <$> completeNames.stmts stmts := by
  induction stmts with
  | nil => rfl
  | cons s stmts ih =>
    obtain ⟨kind, span'⟩ := s
    simp only [List.cons_append, Traversal.stmts, ih, map_bind, map_pure, bind_map_left,
      List.append_assoc]

/-- What becomes of a statement agrees with what becomes of the one with complete names, at the head of
any statements. -/
structure VisitAgrees (ns ns' : NamespaceScope) (y y' : StmtKind × List Stmt) : Prop where
  added : y'.2 = y.2
  labels : ∀ s ∈ y.2, ∃ name span, s = .mk (.label name) span
  names : ∀ span rest, (completeNames.part (.body (.mk y.1 span :: rest))).run ns =
    let rest' := (completeNames.stmts rest).run ns'
    (.body (.mk y'.1 span :: rest'.1), rest'.2)

theorem visitAgrees_of_run {k k' kind : StmtKind} {ns₂ : NamespaceScope} {added : List Stmt}
    (hadded : ∀ s ∈ added, ∃ name span, s = .mk (.label name) span) (hshape : k.shape = kind.shape)
    (hrun : (completeNames.stmtKind k).run (ns.afterEntering kind) = (k', ns₂)) :
    VisitAgrees ns (ns₂.afterLeaving kind) (k, added) ((ns.afterEntering kind).editStmt k', added) where
  added := rfl
  labels := hadded
  names span rest := by
    simp only [run_part_cons, NamespaceScope.afterEntering_of_shape hshape,
      NamespaceScope.afterLeaving_of_shape hshape, hrun]

theorem visitAgrees_ended {k k' kind : StmtKind} {ns₂ : NamespaceScope}
    (hshape : k.shape = kind.shape)
    (hrun : (completeNames.stmtKind k).run (ns.afterEntering kind) = (k', ns₂))
    (target : Option LoopTarget) :
    VisitAgrees ns (ns₂.afterLeaving kind) (ended span k target)
      (ended span ((ns.afterEntering kind).editStmt k') target) := by
  cases target with
  | none => exact visitAgrees_of_run (fun _ h => absurd h List.not_mem_nil) hshape hrun
  | some target =>
    have hedit (k : StmtKind) (s : NamespaceScope) : addLabel target.endOfBody span (s.editStmt k) =
        s.editStmt (addLabel target.endOfBody span k) := by
      cases k <;> rfl
    have hlabel : (completeNames.stmtKind (addLabel target.endOfBody span k)).run
        (ns.afterEntering kind) = (addLabel target.endOfBody span k', ns₂) := by
      rw [stmtKind_addLabel (stmts_append_label _), StateT.run_map, hrun]
      rfl
    rw [ended, ended, hedit]
    exact visitAgrees_of_run (List.forall_mem_singleton.2 ⟨_, _, rfl⟩)
      ((shape_addLabel ..).trans hshape) hlabel

/-- Jumps are resolved alike in a statement and in the statement with complete names. -/
def CommutesStmt (kind : StmtKind) (span : Span) : Prop :=
  ∀ (ns : NamespaceScope) (ls : LoopScope),
    let inner := ns.afterEntering kind
    let kind' := (completeNames.stmtKind kind).run inner
    Alike (VisitAgrees ns (kind'.2.afterLeaving kind)) ((resolveLoops.visitStmt kind span).run ls)
      ((resolveLoops.visitStmt (inner.editStmt kind'.1) span).run ls)

theorem commutesStmt_other {kind : StmtKind} (hexit : kind.isExit = false)
    (h : ∀ p ∈ kind.parts, Commutes p) : CommutesStmt kind span := by
  have hsurround (s : NamespaceScope) (kind : StmtKind) :
      (s.editStmt kind).surround = kind.surround := by
    cases kind <;> rfl
  have hisExit (s : NamespaceScope) (kind : StmtKind) : (s.editStmt kind).isExit = kind.isExit := by
    cases kind <;> rfl
  intro ns ls
  obtain ⟨-, hshape, -⟩ := run_stmtKind kind (ns.afterEntering kind)
  have hexit' : ((completeNames.stmtKind kind).run (ns.afterEntering kind)).1.isExit = false := by
    rw [← StmtKind.isExit_shape, hshape, kind.isExit_shape, hexit]
  simp only
  rw [visitStmt_eq hexit, visitStmt_eq ((hisExit ..).trans hexit'), hsurround,
    StmtKind.surround_of_shape hshape]
  refine Alike.same.bind fun _ _ ls₁ _ => ?_
  rw [stmtKind_editStmt, bind_map_left]
  refine (commutes_stmtKind h _ ls₁).bind fun k k' ls₂ hk => ?_
  refine Alike.same.bind fun target _ ls₃ htarget => ?_
  cases htarget
  exact .ok (visitAgrees_ended hk.1 hk.2 target)

/-- The number that an expression is. -/
def int? : ExprKind → Option Int
  | .literal (.int n) => some n.toInt
  | _ => none

/-- Completing the names of a level keeps the number that it denotes. -/
theorem level?_expr (e : Expr) (ns : NamespaceScope) :
    LoopScope.level? (some ((completeNames.expr e).run ns).1) = LoopScope.level? (some e) := by
  obtain ⟨kind, span⟩ := e
  have hlevel (kind : ExprKind) : LoopScope.level? (some (.mk kind span)) = int? kind := by
    cases kind with
    | literal value => cases value <;> rfl
    | _ => rfl
  have hint (kind : ExprKind) : int? kind.shape = int? kind := by
    cases kind <;> rfl
  have hedit (kind : ExprKind) : int? (ns.editExpr kind) = int? kind := by
    cases kind <;> rfl
  have hpart : ((completeNames.part (.expr (.mk kind span))).run ns).1 = _ :=
    congrArg Prod.fst run_part_expr
  have hexpr : ((completeNames.expr (.mk kind span)).run ns).1 =
      .mk (ns.editExpr ((completeNames.exprKind kind).run ns).1) span := Part.expr.inj hpart
  rw [hexpr, hlevel, hlevel, hedit, ← hint, (run_exprKind kind ns).2.1, hint]

theorem target_congr {s : LoopScope} {keyword : String} {level level' : Option Expr}
    (h : LoopScope.level? level' = LoopScope.level? level) :
    s.target keyword level' = s.target keyword level := by
  simp only [LoopScope.target, h]

/-- A `break` or a `continue`: its level keeps its number, and one that has a number changes no scope. -/
theorem commutesStmt_exit {jump : Option Expr → StmtKind} {keyword : String}
    {pick : LoopTarget → String}
    (hvisit : ∀ level s, (resolveLoops.visitStmt (jump level) span).run s =
      (s.target keyword level).map fun target => ((.goto (pick target), []), s))
    (hnone : completeNames.stmtKind (jump none) = pure (jump none))
    (hsome : ∀ e, completeNames.stmtKind (jump (some e)) =
      (fun e => jump (some e)) <$> completeNames.expr e)
    (hnames : ∀ (s : NamespaceScope) level, s.editStmt (jump level) = jump level ∧
      s.afterEntering (jump level) = s ∧ s.afterLeaving (jump level) = s) (level : Option Expr) :
    CommutesStmt (jump level) span := by
  intro ns ls
  obtain ⟨level', ns₂, hrun, hlevel, hscope⟩ : ∃ level' ns₂,
      (completeNames.stmtKind (jump level)).run ns = (jump level', ns₂) ∧
      LoopScope.level? level' = LoopScope.level? level ∧ ((∃ n, ExitLevel level n) → ns₂ = ns) := by
    cases level with
    | none => exact ⟨none, ns, by rw [hnone]; rfl, rfl, fun _ => rfl⟩
    | some e =>
      refine ⟨some ((completeNames.expr e).run ns).1, ((completeNames.expr e).run ns).2,
        by rw [hsome]; rfl, level?_expr e ns, ?_⟩
      rintro ⟨n, h⟩
      cases h
      rfl
  simp only [hnames, hrun, hvisit, target_congr hlevel]
  cases htarget : ls.target keyword level with
  | error e => exact .error
  | ok target =>
    rw [hscope (exitLevel_of_target htarget)]
    have hgoto : VisitAgrees ns (ns.afterLeaving (.goto (pick target))) (.goto (pick target), [])
        ((ns.afterEntering (.goto (pick target))).editStmt (.goto (pick target)), []) :=
      visitAgrees_of_run (fun _ h => absurd h List.not_mem_nil) rfl rfl
    exact .ok hgoto

theorem commutesStmt {kind : StmtKind} (h : ∀ p ∈ kind.parts, Commutes p) :
    CommutesStmt kind span := by
  cases hexit : kind.isExit with
  | true =>
    cases kind with
    | breakLoop level =>
      exact commutesStmt_exit run_visitStmt_breakLoop rfl (fun _ => rfl)
        (fun _ _ => ⟨rfl, rfl, rfl⟩) level
    | continueLoop level =>
      exact commutesStmt_exit run_visitStmt_continueLoop rfl (fun _ => rfl)
        (fun _ _ => ⟨rfl, rfl, rfl⟩) level
    | _ => cases hexit
  | false => exact commutesStmt_other hexit h

/-! ## Whole trees -/

theorem commutes_stmts {stmts : List Stmt} (h : Commutes (.body stmts)) (ns : NamespaceScope)
    (ls : LoopScope) :
    Alike (fun l l' => (completeNames.stmts l).run ns = (l', ((completeNames.stmts stmts).run ns).2))
      ((resolveLoops.stmts stmts).run ls)
      ((resolveLoops.stmts ((completeNames.stmts stmts).run ns).1).run ls) := by
  have hbody : Alike _ ((resolveLoops.part (.body stmts)).run ls)
    ((resolveLoops.part (.body ((completeNames.stmts stmts).run ns).1)).run ls) := h ns ls
  have hpart (stmts : List Stmt) :
      resolveLoops.part (.body stmts) = .body <$> resolveLoops.stmts stmts :=
    (map_eq_pure_bind ..).symm
  rw [hpart, hpart, alike_map] at hbody
  refine hbody.mono fun l l' hl => ?_
  have hstmts := congrArg Prod.fst hl
  have hscope := congrArg Prod.snd hl
  exact Prod.ext (Part.body.inj hstmts) hscope

theorem commutes_cons {kind : StmtKind} {rest : List Stmt} (h : CommutesStmt kind span)
    (hrest : Commutes (.body rest)) : Commutes (.body (.mk kind span :: rest)) := by
  intro ns ls
  rw [run_part_cons, Traversal.part_cons, Traversal.part_cons]
  refine (h ns ls).bind ?_
  rintro ⟨k, added⟩ ⟨k', added'⟩ ls₁ ⟨hadded, hlabels, hnames⟩
  cases hadded
  refine (commutes_stmts hrest _ ls₁).bind fun l l' ls₂ hl => .ok ?_
  rw [hnames]
  simp only [stmts_labels hlabels, StateT.run_map, hl]
  rfl

/-- Jumps are resolved alike with and without complete names, anywhere in a tree. -/
theorem commutes (p : Part) : Commutes p := by
  induction p using Part.induct with
  | expr kind span ih => exact commutes_expr ih
  | nil => exact fun _ _ => .ok rfl
  | cons kind span rest ih ihrest => exact commutes_cons (commutesStmt ih) ihrest

/-- Resolving jumps and completing names commute, with the labels made and the errors. -/
theorem loopPass_namePass (path : String) (stmts : List Stmt) :
    loopPass path (namePass stmts) = (loopPass path stmts).map fun r => (namePass r.1, r.2) := by
  have h := commutes_stmts (commutes (.body stmts)) {} { labels := .forFile path }
  rw [loopPass, loopPass, namePass]
  generalize (resolveLoops.stmts stmts).run { labels := .forFile path } = u at h
  generalize (resolveLoops.stmts ((completeNames.stmts stmts).run {}).1).run
    { labels := .forFile path } = v at h
  cases h with
  | @ok out _ ls hrun =>
    have hout := congrArg Prod.fst hrun
    exact congrArg (fun out => Except.ok (out, ls.labels)) hout.symm
  | error => rfl

/-- Completing names a second time changes nothing, nor does replacing magic constants a second time,
once it succeeds. Resolving jumps and completing names may change places: the tree, the labels made and
the error are the same. -/
theorem passes_idempotent_and_commute (path : String) (stmts : List Stmt) :
    namePass (namePass stmts) = namePass stmts ∧
    (∀ out, magicPass path stmts = .ok out → magicPass path out = .ok out) ∧
    loopPass path (namePass stmts) = (loopPass path stmts).map fun r => (namePass r.1, r.2) :=
  ⟨namePass_namePass stmts, fun _ => magicPass_magicPass, loopPass_namePass path stmts⟩

/-- A method with a relative class name and a magic constant in a loop that it leaves. -/
def scopedConstants : List Stmt :=
  [.mk (.namespaceDecl (some ⟨.plain, ["App"], .none⟩) none) .none,
   .mk (.classDecl .plain ⟨.plain, ["Page"], .none⟩ 0 none []
    [.mk (.method "render" 0 [] false none (some
      [.mk (.whileLoop (.mk (.new (.mk (.name ⟨.plain, ["self"], .none⟩) .none) []) .none)
        [.mk (.echo [.mk (.magicConst .methodName) .none]) .none, .mk (.breakLoop none) .none])
        .none])) .none]) .none]

theorem passes_idempotent_and_commute_scopedConstants :
    ∃ out, magicPass "page.php" scopedConstants = .ok out ∧ magicPass "page.php" out = .ok out := by
  have hok : (magicPass "page.php" scopedConstants).isOk = true := by decide +kernel
  obtain ⟨-, hmagic, -⟩ := passes_idempotent_and_commute "page.php" scopedConstants
  cases h : magicPass "page.php" scopedConstants with
  | ok out => exact ⟨out, rfl, hmagic out h⟩
  | error e =>
    rw [h] at hok
    cases hok

end QueryTaint.Prepass
