import QueryTaint.Proofs.Prepass.Basic
import QueryTaint.Proofs.Prepass.Target

/-!
# Resolving jumps out of loops

By induction over the parts of a tree, every step of the pass fails only at a jump whose level does not
fit, and else resolves all jumps (`resolves`). `loopPass_resolves` states this of whole trees.
-/

namespace QueryTaint.Prepass

variable {l : Labels} {frame frame' : List LoopTarget} {outer : List (List LoopTarget)}
  {kind : StmtKind} {span : Span} {m n : Nat} {around : List Enclosing} {ps : List Part}

/-- What the pass does to a part, below the constructs of one body. -/
def Resolves (p : Part) : Prop :=
  ∀ l frame outer around, around.length = frame.length →
    Ends (resolveLoops.part p) ⟨l, frame :: outer⟩ (∃ j ∈ p.jumps around, ¬ j.Fits) fun q s =>
      ∃ n, s = ⟨l.advance n, frame :: outer⟩ ∧ Resolved l n frame around [p] [q]

theorem resolves_parts (h : ∀ p ∈ ps, Resolves p) (hlength : around.length = frame.length)
    (l : Labels) (outer : List (List LoopTarget)) :
    Ends (resolveLoops.parts ps) ⟨l, frame :: outer⟩
      (∃ j ∈ ps.flatMap (Part.jumps around), ¬ j.Fits) fun qs s =>
        ∃ n, s = ⟨l.advance n, frame :: outer⟩ ∧ Resolved l n frame around ps qs := by
  induction ps generalizing l with
  | nil => exact .parts_nil ⟨0, rfl, .nil⟩
  | cons p ps ih =>
    obtain ⟨hp, hps⟩ := List.forall_mem_cons.1 h
    refine .parts_cons ((hp l frame outer around hlength).mono ?_ fun _ _ => id) ?_
    · rintro ⟨j, hj, hfit⟩
      exact ⟨j, List.mem_flatMap.2 ⟨p, List.mem_cons_self, hj⟩, hfit⟩
    · rintro q _ ⟨m, rfl, hq⟩
      refine (ih hps _).mono ?_ ?_
      · rintro ⟨j, hj, hfit⟩
        exact ⟨j, by rw [List.flatMap_cons]; exact List.mem_append_right _ hj, hfit⟩
      · rintro qs _ ⟨n, rfl, hqs⟩
        exact ⟨m + n, by rw [Labels.advance_advance], hq.cons hqs⟩

/-- How a visit of one statement ends: at a jump of it that does not fit, or with the statement
resolved. -/
def VisitEnds (kind : StmtKind) (span : Span) (rest : List Stmt) (l : Labels)
    (frame : List LoopTarget) (outer : List (List LoopTarget)) (around : List Enclosing) : Prop :=
  Ends (resolveLoops.visitStmt kind span) ⟨l, frame :: outer⟩
    (∃ j ∈ (kind.jump? around).toList ++ kind.parts.flatMap (Part.jumps (kind.around rest around)),
      ¬ j.Fits) fun y s =>
    ∃ n, s = ⟨l.advance n, frame :: outer⟩ ∧ Becomes l n frame around rest kind y.1 y.2

/-- What the pass does to a statement, below the constructs of one body. -/
def ResolvesStmt (kind : StmtKind) : Prop :=
  ∀ span rest l frame outer around, around.length = frame.length →
    VisitEnds kind span rest l frame outer around

/-! ## One statement -/

/-- A statement is resolved if its parts are and the labels that are made where it is entered are placed
where it is left. -/
theorem visitStmt_ends {rest : List Stmt} {outer' : List (List LoopTarget)}
    (hparts : ∀ p ∈ kind.parts, Resolves p)
    (henter : (resolveLoops.enterStmt (.mk kind span)).run ⟨l, frame :: outer⟩ =
      .ok (id, ⟨l.advance m, frame' :: outer'⟩))
    (hlength : (kind.around rest around).length = frame'.length)
    (hleave : ∀ n kind', kind'.shape = kind.shape →
      Resolved (l.advance m) n frame' (kind.around rest around) kind.parts kind'.parts →
      ∃ kind'' added, (resolveLoops.leaveStmt kind' span).run ⟨l.advance (m + n), frame' :: outer'⟩ =
        .ok ((kind'', added), ⟨l.advance (m + n), frame :: outer⟩) ∧
        Becomes l (m + n) frame around rest kind kind'' added) :
    VisitEnds kind span rest l frame outer around := by
  rw [VisitEnds, Traversal.visitStmt]
  refine Ends.bind (Ends.of_run henter ⟨rfl, rfl⟩) (Q := fun edit s =>
    edit = id ∧ s = ⟨l.advance m, frame' :: outer'⟩) ?_
  rintro _ _ ⟨rfl, rfl⟩
  have hkind := Ends.of_covers (Traversal.stmtKind_covered kind)
    (resolves_parts hparts hlength (l.advance m) outer')
  refine (hkind.mono ?_ fun _ _ => id).bind ?_
  · rintro ⟨j, hj, hfit⟩
    exact ⟨j, List.mem_append_right _ hj, hfit⟩
  · rintro kind' _ ⟨qs, ⟨rfl, hshape⟩, n, rfl, hresolved⟩
    obtain ⟨kind'', added, hrun, hbecomes⟩ := hleave n kind' hshape hresolved
    rw [Labels.advance_advance]
    exact Ends.of_run hrun ⟨m + n, rfl, hbecomes⟩

theorem resolvesStmt_loop (h : kind.surround = .loop) (hparts : ∀ p ∈ kind.parts, Resolves p) :
    ResolvesStmt kind := by
  intro span rest l frame outer around hlength
  refine visitStmt_ends hparts (enterStmt_loop h)
    (by simp [StmtKind.around_construct (.inl h), hlength]) ?_
  intro n kind' hshape hresolved
  have h' : kind'.surround = .loop := (StmtKind.surround_of_shape hshape).trans h
  have hshape' := (shape_addLabel (l.name (l.labels + 1)) span).trans hshape
  have h'' := (StmtKind.surround_of_shape hshape').trans h
  -- the label at the end of the body comes to parts that are resolved already
  refine ⟨_, _, leaveStmt_loop h' _, .of_parts (StmtKind.isExit_of_surround (by simp [h])) hshape'
    hresolved (labelled_addLabel _ span h') ?_ (List.forall_mem_singleton.2 ⟨_, _, rfl⟩) fun rest' => ?_⟩
  · have hperm := (labels_addLabel (l.name (l.labels + 1)) span h').append_right [l.name l.labels]
    rw [List.append_assoc] at hperm
    simp only [Part.labels_cons, Part.labels_nil]
    exact hperm.trans (List.Perm.append_left _ (List.Perm.swap ..))
  · refine .construct ⟨kind, rest⟩ ⟨addLabel (l.name (l.labels + 1)) span kind',
      .mk (.label (l.name l.labels)) span :: rest'⟩ hshape' rfl ?_ ?_ ?_
      (StmtKind.around_construct (.inl h) rest) (StmtKind.around_construct (.inl h'') _)
    · rw [Enclosing.ContinuesAt, h'']
      exact getLast?_addLabel _ span h'
    · simp [Labels.names_two]
    · simp [Labels.names_two]

theorem resolvesStmt_switch (h : kind.surround = .switch) (hparts : ∀ p ∈ kind.parts, Resolves p) :
    ResolvesStmt kind := by
  intro span rest l frame outer around hlength
  refine visitStmt_ends hparts (enterStmt_switch h)
    (by simp [StmtKind.around_construct (.inr h), hlength]) ?_
  intro n kind' hshape hresolved
  have h' : kind'.surround = .switch := (StmtKind.surround_of_shape hshape).trans h
  refine ⟨_, _, leaveStmt_switch h' _, .of_parts (StmtKind.isExit_of_surround (by simp [h])) hshape
    hresolved (labelled_refl _) (by simp [Labels.names_one, StmtKind.label?, StmtKind.parts])
    (List.forall_mem_singleton.2 ⟨_, _, rfl⟩) fun rest' => ?_⟩
  refine .construct ⟨kind, rest⟩ ⟨kind', .mk (.label (l.name l.labels)) span :: rest'⟩ hshape rfl
    ?_ ?_ ?_ (StmtKind.around_construct (.inr h) rest) (StmtKind.around_construct (.inr h') _)
  · rw [Enclosing.ContinuesAt, h']
    rfl
  · simp [Labels.names_one]
  · simp [Labels.names_one]

theorem resolvesStmt_function (h : kind.surround = .function)
    (hparts : ∀ p ∈ kind.parts, Resolves p) : ResolvesStmt kind := by
  intro span rest l frame outer around hlength
  refine visitStmt_ends (m := 0) hparts (enterStmt_function h)
    (by simp [StmtKind.around_function h]) ?_
  intro n kind' hshape hresolved
  have h' : kind'.surround = .function := (StmtKind.surround_of_shape hshape).trans h
  exact ⟨_, _, leaveStmt_function h', .of_parts (StmtKind.isExit_of_surround (by simp [h])) hshape
    hresolved (labelled_refl _) (by simp [Labels.names_zero]) (fun _ h => nomatch h) fun rest' =>
    .function (StmtKind.around_function h rest) (StmtKind.around_function h' _)⟩

theorem resolvesStmt_nothing (h : kind.surround = .nothing) (hexit : kind.isExit = false)
    (hparts : ∀ p ∈ kind.parts, Resolves p) : ResolvesStmt kind := by
  intro span rest l frame outer around hlength
  refine visitStmt_ends (m := 0) hparts (enterStmt_nothing h hexit)
    (by rw [StmtKind.around_nothing h, hlength]) ?_
  intro n kind' hshape hresolved
  have h' : kind'.surround = .nothing := (StmtKind.surround_of_shape hshape).trans h
  exact ⟨_, _, leaveStmt_nothing h', .of_parts hexit hshape hresolved
    (labelled_refl _) (by simp [Labels.names_zero]) (fun _ h => nomatch h) fun rest' =>
    .nothing (StmtKind.around_nothing h rest) (StmtKind.around_nothing h' _)⟩

theorem labels_level {level : Option Expr} {n : Int} (h : ExitLevel level n) :
    (optionParts level).flatMap Part.labels = [] := by
  cases h <;> simp [optionParts, ExprKind.parts]

theorem jumps_level {level : Option Expr} {n : Int} (h : ExitLevel level n) :
    (optionParts level).flatMap (Part.jumps around) = [] := by
  cases h <;> simp [optionParts, ExprKind.parts]

theorem exitLevel_of_target {s : LoopScope} {keyword : String} {level : Option Expr}
    {target : LoopTarget} (h : s.target keyword level = .ok target) : ∃ n, ExitLevel level n := by
  unfold LoopScope.target at h
  split at h
  · cases h
  · next n hlevel => exact ⟨n, level?_eq_some_iff.1 hlevel⟩

/-- A `break` or a `continue` becomes a jump to a label of the target that its level gives. -/
theorem run_visitStmt_exit {keyword : String} {level : Option Expr} {pick : LoopTarget → String}
    (henter : ∀ s, (resolveLoops.enterStmt (.mk kind span)).run s =
      (s.target keyword level).map fun target => (fun _ => .goto (pick target), s))
    (hkind : ∀ n s, ExitLevel level n → (resolveLoops.stmtKind kind).run s = .ok (kind, s))
    (s : LoopScope) : (resolveLoops.visitStmt kind span).run s =
      (s.target keyword level).map fun target => ((.goto (pick target), []), s) := by
  rw [Traversal.visitStmt, StateT.run_bind, henter]
  cases htarget : s.target keyword level with
  | error e => rfl
  | ok target =>
    obtain ⟨n, hlevel⟩ := exitLevel_of_target htarget
    show (resolveLoops.stmtKind kind >>= fun _ =>
      resolveLoops.leaveStmt (.goto (pick target)) span).run s = _
    rw [StateT.run_bind, hkind n s hlevel]
    rfl

theorem run_visitStmt_breakLoop (level : Option Expr) (s : LoopScope) :
    (resolveLoops.visitStmt (.breakLoop level) span).run s =
      (s.target "break" level).map fun target => ((.goto target.afterLoop, []), s) := by
  refine run_visitStmt_exit (fun s => ?_) (by rintro n s (_ | _) <;> rfl) s
  simp only [resolveLoops, Stmt.kind, StateT.run_bind, StateT.run_get]
  cases h : s.target "break" level <;> simp [h] <;> rfl

theorem run_visitStmt_continueLoop (level : Option Expr) (s : LoopScope) :
    (resolveLoops.visitStmt (.continueLoop level) span).run s =
      (s.target "continue" level).map fun target => ((.goto target.endOfBody, []), s) := by
  refine run_visitStmt_exit (fun s => ?_) (by rintro n s (_ | _) <;> rfl) s
  simp only [resolveLoops, Stmt.kind, StateT.run_bind, StateT.run_get]
  cases h : s.target "continue" level <;> simp [h] <;> rfl

/-- A `break` or a `continue`, which differ in the label of the target that they lead to. -/
theorem resolvesStmt_exit (keyword : String) (level : Option Expr) (pick : LoopTarget → String)
    (hparts : kind.parts = optionParts level) (hlabel : kind.label? = none)
    (hjump : kind.isJump = true)
    (hvisit : ∀ span s, (resolveLoops.visitStmt kind span).run s =
      (s.target keyword level).map fun target => ((.goto (pick target), []), s))
    (hfits : ∀ around, (Jump.mk kind around).Fits ↔
      ∃ n, ExitLevel level n ∧ 1 ≤ n ∧ n ≤ around.length)
    (hresolves : ∀ good around around' n target c, ExitLevel level n → 1 ≤ n →
      around'[n.toNat - 1]? = some c → target.Leads good c →
      around'.map (·.kind.shape) = around.map (·.kind.shape) →
      Jump.Resolves good ⟨kind, around⟩ ⟨.goto (pick target), around'⟩) :
    ResolvesStmt kind := by
  intro span rest l frame outer around hlength
  have hown : (kind.jump? around).toList = [⟨kind, around⟩] := by simp [StmtKind.jump?, hjump]
  have hrun := hvisit span ⟨l, frame :: outer⟩
  rcases target_cases keyword level with ⟨n, target, hok, hlevel, hpos, hget⟩ | ⟨e, herror, hnone⟩
  · rw [hok] at hrun
    refine Ends.of_run hrun ⟨0, rfl, ⟨hlabel.symm, ?_, List.forall_mem_nil _, ?_⟩⟩
    · rw [hparts, labels_level hlevel, Part.labels_nil]
      exact .nil
    · intro good around' rest' _ hshape hleads
      obtain ⟨c, hc, htarget⟩ := leads_getElem? hleads hget
      rw [hown, hparts, jumps_level hlevel]
      exact .cons (hresolves good _ _ n target c hlevel hpos hc htarget hshape) .nil
  · rw [herror] at hrun
    refine Ends.of_error hrun ⟨⟨kind, around⟩, by simp [hown], ?_⟩
    rwa [hfits, hlength]

theorem resolvesStmt_breakLoop (level : Option Expr) : ResolvesStmt (.breakLoop level) := by
  refine resolvesStmt_exit "break" level LoopTarget.afterLoop rfl rfl rfl
    (fun _ => run_visitStmt_breakLoop level) (fun _ => .rfl) ?_
  intro good around around' n target c hlevel hpos hc htarget hshape
  refine ⟨hshape, ?_, nofun, nofun⟩
  intro level' heq
  cases heq
  exact ⟨n, _, c, hlevel, hpos, hc, htarget.ends, rfl, htarget.good_afterLoop⟩

theorem resolvesStmt_continueLoop (level : Option Expr) : ResolvesStmt (.continueLoop level) := by
  refine resolvesStmt_exit "continue" level LoopTarget.endOfBody rfl rfl rfl
    (fun _ => run_visitStmt_continueLoop level) (fun _ => .rfl) ?_
  intro good around around' n target c hlevel hpos hc htarget hshape
  refine ⟨hshape, nofun, ?_, nofun⟩
  intro level' heq
  cases heq
  exact ⟨n, _, c, hlevel, hpos, hc, htarget.continues, rfl, htarget.good_endOfBody⟩

theorem resolvesStmt (hparts : ∀ p ∈ kind.parts, Resolves p) : ResolvesStmt kind := by
  cases hexit : kind.isExit with
  | true =>
    cases kind with
    | breakLoop level => exact resolvesStmt_breakLoop level
    | continueLoop level => exact resolvesStmt_continueLoop level
    | _ => cases hexit
  | false =>
    cases h : kind.surround with
    | loop => exact resolvesStmt_loop h hparts
    | switch => exact resolvesStmt_switch h hparts
    | function => exact resolvesStmt_function h hparts
    | nothing => exact resolvesStmt_nothing h hexit hparts

/-! ## Expressions -/

/-- What the pass does before and after the parts of an expression: it opens a body or does
nothing. -/
theorem enterExpr_inside (l : Labels) (frame : List LoopTarget) (outer : List (List LoopTarget))
    (kind : ExprKind) : ∃ frame' outer',
    (∀ span, (resolveLoops.enterExpr (.mk kind span)).run ⟨l, frame :: outer⟩ =
      .ok (id, ⟨l, frame' :: outer'⟩)) ∧
    ∀ kind' : ExprKind, kind'.shape = kind.shape →
      Inside [] frame frame' kind.around kind'.around ∧
      ∀ l, (resolveLoops.leaveExpr kind').run ⟨l, frame' :: outer'⟩ = .ok ((), ⟨l, frame :: outer⟩) := by
  have hsame (kind' : ExprKind) (hshape : kind'.shape = kind.shape) :
      kind'.isClosure = kind.isClosure := by
    rw [← kind'.isClosure_shape, hshape, kind.isClosure_shape]
  cases h : kind.isClosure with
  | true =>
    refine ⟨[], frame :: outer, fun _ => enterExpr_closure h, fun kind' hshape => ?_⟩
    have h' := (hsame kind' hshape).trans h
    exact ⟨.function (fun _ => if_pos h) (fun _ => if_pos h'), fun _ => leaveExpr_closure h'⟩
  | false =>
    refine ⟨frame, outer, fun _ => enterExpr_other h, fun kind' hshape => ?_⟩
    have h' := (hsame kind' hshape).trans h
    exact ⟨.nothing (fun _ => if_neg (by simp [h])) (fun _ => if_neg (by simp [h'])),
      fun _ => leaveExpr_other h'⟩

theorem resolves_expr {kind : ExprKind} (hparts : ∀ p ∈ kind.parts, Resolves p) :
    Resolves (.expr (.mk kind span)) := by
  intro l frame outer around hlength
  obtain ⟨frame', outer', henter, hinside⟩ := enterExpr_inside l frame outer kind
  rw [ends_part_expr, Part.jumps_expr, Traversal.visitExpr]
  refine Ends.bind (Ends.of_run (henter span) ⟨rfl, rfl⟩) (Q := fun edit s =>
    edit = id ∧ s = ⟨l, frame' :: outer'⟩) ?_
  rintro _ _ ⟨rfl, rfl⟩
  refine (Ends.of_covers (Traversal.exprKind_covered kind)
    (resolves_parts hparts ((hinside kind rfl).1.length hlength) l outer')).bind ?_
  rintro kind' _ ⟨qs, ⟨rfl, hshape⟩, n, rfl, hresolved⟩
  obtain ⟨hinside, hleave⟩ := hinside kind' hshape
  refine Ends.bind (Ends.of_run (hleave _) rfl) (Q := fun _ s => s = ⟨l.advance n, frame :: outer⟩) ?_
  rintro _ _ rfl
  exact Ends.pure ⟨n, rfl, hresolved.expr hinside⟩

/-- Every part is resolved, or a jump in it does not fit. -/
theorem resolves (p : Part) : Resolves p := by
  induction p using Part.induct with
  | expr kind span ih => exact resolves_expr ih
  | nil =>
    intro l frame outer around _
    exact ends_part_body.2 (Ends.pure ⟨0, rfl, .body⟩)
  | cons kind span rest ih ihrest =>
    intro l frame outer around hlength
    rw [Part.jumps_cons]
    have hfirst := resolvesStmt ih span rest l frame outer around hlength
    refine Ends.part_cons (hfirst.mono ?_ fun _ _ => id) ?_
    · rintro ⟨j, hj, hfit⟩
      exact ⟨j, List.mem_append_left _ hj, hfit⟩
    · rintro kind' added _ ⟨m, rfl, hbecomes⟩
      refine (ends_part_body.1 (ihrest (l.advance m) frame outer around hlength)).mono ?_ ?_
      · rintro ⟨j, hj, hfit⟩
        exact ⟨j, List.mem_append_right _ hj, hfit⟩
      · rintro rest' _ ⟨n, rfl, hrest⟩
        exact ⟨m + n, by rw [Labels.advance_advance], .stmts hbecomes hrest⟩

/-! ## Whole trees -/

/-- The pass fails at a jump that does not fit, or resolves all jumps. -/
theorem loopPass_cases (path : String) (stmts : List Stmt) :
    (∃ e, loopPass path stmts = .error e ∧ ∃ j ∈ (Part.body stmts).jumps [], ¬ j.Fits) ∨
    ∃ out n, loopPass path stmts = .ok (out, (Labels.forFile path).advance n) ∧
      Resolved (.forFile path) n [] [] [.body stmts] [.body out] := by
  have h := ends_part_body.1 (resolves (.body stmts) (.forFile path) [] [] [] rfl)
  rw [loopPass]
  cases hrun : (resolveLoops.stmts stmts).run { labels := .forFile path } with
  | error e => exact .inl ⟨e, rfl, h.fails hrun⟩
  | ok y =>
    obtain ⟨out, s⟩ := y
    obtain ⟨n, rfl, hresolved⟩ := h.ok hrun
    exact .inr ⟨out, n, rfl, hresolved⟩

/-- No `break` and no `continue` is left. -/
theorem loopPass_exitFree {path : String} {stmts out : List Stmt} {made : Labels}
    (h : loopPass path stmts = .ok (out, made)) : (Part.body out).ExitFree := by
  obtain ⟨e, herror, _⟩ | ⟨_, n, hok, hresolved⟩ := loopPass_cases path stmts
  · cases h.symm.trans herror
  · cases h.symm.trans hok
    have hjumps := hresolved.jumps (fun _ => True) [] [.body out] (fun _ _ => trivial) rfl .nil
      (labelled_refl _)
    rw [List.flatMap_singleton, List.flatMap_singleton] at hjumps
    have hflip := (hjumps.imp fun j j' hj => (⟨hj.isExit, hj⟩ : _ ∧ j.Resolves _ j')).flip
    exact Part.exitFree_of_jumps [] ((List.forall₂_and_left _ _).1 hflip).1

/-- Jumps out of loops, for statements none of whose labels starts with the stem of generated labels.
The pass succeeds if and only if the level of every `break` and `continue` is absent or a literal
number of at least one and at most the number of loops and switches around it in its function. Then no
`break` and no `continue` is left, the generated labels differ from one another, and every jump is
resolved with a label that stands only once. -/
theorem loopPass_resolves (path : String) (stmts : List Stmt)
    (h : ∀ name ∈ (Part.body stmts).labels, ¬ Labels.labelStem.toList <+: name.toList) :
    ((∃ r, loopPass path stmts = .ok r) ↔ ∀ j ∈ (Part.body stmts).jumps [], j.Fits) ∧
    ∀ out made, loopPass path stmts = .ok (out, made) →
      (Part.body out).ExitFree ∧
      ((Part.body out).labels.filter fun name => Labels.labelStem.toList <+: name.toList).Nodup ∧
      List.Forall₂ (Jump.Resolves fun name => (Part.body out).labels.count name = 1)
        ((Part.body stmts).jumps []) ((Part.body out).jumps []) := by
  obtain ⟨e, herror, j, hj, hfit⟩ | ⟨out, n, hok, hresolved⟩ := loopPass_cases path stmts
  · rw [herror]
    exact ⟨⟨nofun, fun hall => absurd (hall j hj) hfit⟩, nofun⟩
  · have hperm := hresolved.labels
    rw [List.flatMap_singleton, List.flatMap_singleton] at hperm
    have hgood (name) (hname : name ∈ (Labels.forFile path).names n) :
        (Part.body out).labels.count name = 1 := by
      obtain ⟨i, _, rfl⟩ := List.mem_map.1 hname
      rw [hperm.count_eq, List.count_append, List.count_eq_zero_of_not_mem
        fun hmem => h _ hmem (Labels.stem_isPrefix_name ..), Nat.zero_add]
      exact List.count_eq_one_of_mem (Labels.nodup_names ..) hname
    have hjumps := hresolved.jumps _ [] [.body out] hgood rfl .nil (labelled_refl _)
    rw [List.flatMap_singleton, List.flatMap_singleton] at hjumps
    have hfits := ((List.forall₂_and_left _ _).1 (hjumps.imp fun j j' hj =>
      (⟨hj.fits, hj⟩ : j.Fits ∧ j.Resolves _ j'))).1
    refine ⟨⟨fun _ => hfits, fun _ => ⟨_, hok⟩⟩, fun out' made hok' => ?_⟩
    cases hok.symm.trans hok'
    refine ⟨loopPass_exitFree hok, ?_, hjumps⟩
    have hnone : (Part.body stmts).labels.filter
        (fun name => Labels.labelStem.toList <+: name.toList) = [] :=
      List.filter_eq_nil_iff.2 (by simpa using h)
    have hfilter := hperm.filter fun name => Labels.labelStem.toList <+: name.toList
    rw [List.filter_append, hnone, List.nil_append] at hfilter
    exact hfilter.nodup_iff.2 ((Labels.nodup_names ..).filter _)

/-- A `break` out of a switch and the loop around it, and a loop in a function inside that loop. -/
def nestedJumps : List Stmt :=
  [.mk (.label "again") .none,
   .mk (.whileLoop hole
    [.mk (.switch hole [⟨none,
      [.mk (.breakLoop (some (.mk (.literal (.int 2)) .none))) .none], .none⟩]) .none,
     .mk (.expr (.mk (.closure [] [] false false none
      [.mk (.foreach hole none hole false [.mk (.continueLoop none) .none]) .none] false) .none))
      .none]) .none,
   .mk (.goto "again") .none]

theorem loopPass_nestedJumps :
    (∀ name ∈ (Part.body nestedJumps).labels, ¬ Labels.labelStem.toList <+: name.toList) ∧
    ∃ out made, loopPass "page.php" nestedJumps = .ok (out, made) ∧ (Part.body out).ExitFree ∧
      ((Part.body out).labels.filter fun name => Labels.labelStem.toList <+: name.toList).Nodup ∧
      List.Forall₂ (Jump.Resolves fun name => (Part.body out).labels.count name = 1)
        ((Part.body nestedJumps).jumps []) ((Part.body out).jumps []) := by
  have hstem : ∀ name ∈ (Part.body nestedJumps).labels,
      ¬ Labels.labelStem.toList <+: name.toList := by
    simp [nestedJumps, Part.labels_hole, StmtKind.parts, ExprKind.parts, StmtKind.label?, caseParts,
      optionParts, paramParts, Labels.labelStem]
  have hfits : ∀ j ∈ (Part.body nestedJumps).jumps [], j.Fits := by
    simp [nestedJumps, Part.jumps_hole, StmtKind.parts, ExprKind.parts, StmtKind.jump?, caseParts,
      optionParts, paramParts, StmtKind.isJump, StmtKind.around, StmtKind.surround, ExprKind.around,
      ExprKind.isClosure]
    exact ⟨⟨_, .literal 2 _, by decide, by decide⟩, ⟨_, .absent, by decide, by decide⟩, trivial⟩
  obtain ⟨hok, hresolves⟩ := loopPass_resolves "page.php" nestedJumps hstem
  obtain ⟨⟨out, made⟩, hrun⟩ := hok.2 hfits
  exact ⟨hstem, out, made, hrun, hresolves out made hrun⟩

end QueryTaint.Prepass
