import QueryTaint.Prepass.Basic
import QueryTaint.Proofs.Syntax.Jump
import QueryTaint.Proofs.Text.Label

/-!
# Targets of jumps

What the pass that resolves jumps does at one node, and what it makes of the parts of a node. While a
body is gone through, each construct around has a target, whose labels come to stand where the construct
ends and goes on only later: the label of a loop's end is added once its body is done. `Resolved` is
therefore about every tree that differs from the new parts by such labels, and about every list of
constructs around to which the targets lead.
-/

namespace QueryTaint.Prepass

variable {l : Labels} {frame : List LoopTarget} {outer : List (List LoopTarget)} {kind : StmtKind}
  {span : Span}

/-! ## What the pass does at one node -/

theorem enterStmt_loop (h : kind.surround = .loop) :
    (resolveLoops.enterStmt (.mk kind span)).run ⟨l, frame :: outer⟩ = .ok (id,
      ⟨l.advance 2, (⟨l.name l.labels, l.name (l.labels + 1)⟩ :: frame) :: outer⟩) := by
  cases kind <;> first | rfl | cases h

theorem enterStmt_switch (h : kind.surround = .switch) :
    (resolveLoops.enterStmt (.mk kind span)).run ⟨l, frame :: outer⟩ = .ok (id,
      ⟨l.advance 1, (⟨l.name l.labels, l.name l.labels⟩ :: frame) :: outer⟩) := by
  cases kind <;> first | rfl | cases h

theorem enterStmt_function (h : kind.surround = .function) :
    (resolveLoops.enterStmt (.mk kind span)).run ⟨l, frame :: outer⟩ =
      .ok (id, ⟨l, [] :: frame :: outer⟩) := by
  cases kind <;> first | rfl | cases h

theorem enterStmt_nothing (h : kind.surround = .nothing) (hexit : kind.isExit = false) :
    (resolveLoops.enterStmt (.mk kind span)).run ⟨l, frame :: outer⟩ =
      .ok (id, ⟨l, frame :: outer⟩) := by
  cases kind <;> first | cases hexit; done | rfl | cases h

theorem leaveStmt_loop (h : kind.surround = .loop) (target : LoopTarget) :
    (resolveLoops.leaveStmt kind span).run ⟨l, (target :: frame) :: outer⟩ =
      .ok ((addLabel target.endOfBody span kind, [.mk (.label target.afterLoop) span]),
        ⟨l, frame :: outer⟩) := by
  cases kind <;> first | rfl | cases h

theorem leaveStmt_switch (h : kind.surround = .switch) (target : LoopTarget) :
    (resolveLoops.leaveStmt kind span).run ⟨l, (target :: frame) :: outer⟩ =
      .ok ((kind, [.mk (.label target.afterLoop) span]), ⟨l, frame :: outer⟩) := by
  cases kind <;> first | rfl | cases h

theorem leaveStmt_function (h : kind.surround = .function) :
    (resolveLoops.leaveStmt kind span).run ⟨l, [] :: frame :: outer⟩ =
      .ok ((kind, []), ⟨l, frame :: outer⟩) := by
  cases kind <;> first | rfl | cases h

theorem leaveStmt_nothing (h : kind.surround = .nothing) :
    (resolveLoops.leaveStmt kind span).run ⟨l, frame :: outer⟩ =
      .ok ((kind, []), ⟨l, frame :: outer⟩) := by
  cases kind <;> first | rfl | cases h

theorem enterExpr_closure {kind : ExprKind} (h : kind.isClosure = true) :
    (resolveLoops.enterExpr (.mk kind span)).run ⟨l, frame :: outer⟩ =
      .ok (id, ⟨l, [] :: frame :: outer⟩) := by
  cases kind <;> first | rfl | cases h

theorem enterExpr_other {kind : ExprKind} (h : kind.isClosure = false) :
    (resolveLoops.enterExpr (.mk kind span)).run ⟨l, frame :: outer⟩ =
      .ok (id, ⟨l, frame :: outer⟩) := by
  cases kind <;> first | rfl | cases h

theorem leaveExpr_closure {kind : ExprKind} (h : kind.isClosure = true) :
    (resolveLoops.leaveExpr kind).run ⟨l, [] :: frame :: outer⟩ = .ok ((), ⟨l, frame :: outer⟩) := by
  cases kind <;> first | rfl | cases h

theorem leaveExpr_other {kind : ExprKind} (h : kind.isClosure = false) :
    (resolveLoops.leaveExpr kind).run ⟨l, frame :: outer⟩ = .ok ((), ⟨l, frame :: outer⟩) := by
  cases kind <;> first | rfl | cases h

/-! ## Targets -/

/-- The labels of a target stand where its construct ends and goes on. -/
structure LoopTarget.Leads (good : String → Prop) (target : LoopTarget) (c : Enclosing) : Prop where
  ends : c.EndsAt target.afterLoop
  continues : c.ContinuesAt target.endOfBody
  good_afterLoop : good target.afterLoop
  good_endOfBody : good target.endOfBody

theorem level?_eq_some_iff {level : Option Expr} {n : Int} :
    LoopScope.level? level = some n ↔ ExitLevel level n := by
  constructor
  · intro h
    unfold LoopScope.level? at h
    split at h
    · cases h
      exact .absent
    · cases h
      exact .literal ..
    · cases h
  · rintro (_ | _) <;> rfl

theorem exitLevel_unique {level : Option Expr} {m n : Int} (hm : ExitLevel level m)
    (hn : ExitLevel level n) : m = n :=
  Option.some.inj ((level?_eq_some_iff.2 hm).symm.trans (level?_eq_some_iff.2 hn))

/-- The construct that a level gives is found, or the level does not fit. -/
theorem target_cases (keyword : String) (level : Option Expr) :
    (∃ n target, (LoopScope.mk l (frame :: outer)).target keyword level = .ok target ∧
      ExitLevel level n ∧ 1 ≤ n ∧ frame[n.toNat - 1]? = some target) ∨
    (∃ e, (LoopScope.mk l (frame :: outer)).target keyword level = .error e ∧
      ¬ ∃ n, ExitLevel level n ∧ 1 ≤ n ∧ n ≤ frame.length) := by
  unfold LoopScope.target
  cases hlevel : LoopScope.level? level with
  | none =>
    refine .inr ⟨_, rfl, fun ⟨n, hexit, _⟩ => ?_⟩
    cases hlevel.symm.trans (level?_eq_some_iff.2 hexit)
  | some n =>
    have hexit := level?_eq_some_iff.1 hlevel
    simp only [List.headD_cons]
    by_cases hpos : n ≤ 0
    · rw [if_pos hpos]
      refine .inr ⟨_, rfl, fun ⟨n', hexit', h, _⟩ => ?_⟩
      have := exitLevel_unique hexit hexit'
      omega
    · rw [if_neg hpos]
      cases hget : frame[n.toNat - 1]? with
      | some target => exact .inl ⟨n, target, rfl, hexit, by omega, hget⟩
      | none =>
        refine .inr ⟨_, rfl, fun ⟨n', hexit', h, hlength⟩ => ?_⟩
        have := exitLevel_unique hexit hexit'
        have := List.getElem?_eq_none_iff.1 hget
        omega

theorem leads_getElem? {good : String → Prop} {around : List Enclosing}
    (h : List.Forall₂ (LoopTarget.Leads good) frame around) {i : Nat} {target : LoopTarget}
    (htarget : frame[i]? = some target) : ∃ c, around[i]? = some c ∧ target.Leads good c := by
  obtain ⟨hi, rfl⟩ := List.getElem?_eq_some_iff.1 htarget
  have hi' : i < around.length := h.length_eq ▸ hi
  exact ⟨around[i], List.getElem?_eq_getElem hi', h.get hi hi'⟩

/-! ## What becomes of the parts -/

/-- A part that stays, or statements with a label added at their end. -/
inductive Labelled : Part → Part → Prop where
  | same (p : Part) : Labelled p p
  | added (stmts : List Stmt) (name : String) (span : Span) :
    Labelled (.body stmts) (.body (stmts ++ [.mk (.label name) span]))

theorem labelled_refl : ∀ ps : List Part, List.Forall₂ Labelled ps ps
  | [] => .nil
  | p :: ps => .cons (.same p) (labelled_refl ps)

/-- What becomes of parts below the constructs of one body: the labels made are added, and every jump
is resolved whatever labels are added to the new parts later, as long as the labels of the constructs
around stand where they should. -/
structure Resolved (l : Labels) (count : Nat) (frame : List LoopTarget) (around : List Enclosing)
    (ps qs : List Part) : Prop where
  labels : (qs.flatMap Part.labels).Perm (ps.flatMap Part.labels ++ l.names count)
  jumps : ∀ good around' qs', (∀ name ∈ l.names count, good name) →
    around'.map (·.kind.shape) = around.map (·.kind.shape) →
    List.Forall₂ (LoopTarget.Leads good) frame around' → List.Forall₂ Labelled qs qs' →
    List.Forall₂ (Jump.Resolves good) (ps.flatMap (Part.jumps around))
      (qs'.flatMap (Part.jumps around'))

variable {m n : Nat} {around : List Enclosing} {p q : Part} {ps qs : List Part}

theorem Resolved.nil : Resolved l 0 frame around [] [] where
  labels := by simp [Labels.names_zero]
  jumps good around' qs' _ _ _ h := by
    cases h
    exact .nil

theorem Resolved.body : Resolved l 0 frame around [.body []] [.body []] where
  labels := by simp [Labels.names_zero]
  jumps good around' qs' _ _ _ h := by
    obtain ⟨q', _, hq, hnil, rfl⟩ := List.forall₂_cons_left_iff.1 h
    cases hnil
    have hjumps : q'.jumps around' = [] := by
      cases hq with
      | same => exact Part.jumps_nil _
      | added => simp [StmtKind.jump?, StmtKind.isJump, StmtKind.parts]
    simp [hjumps]

theorem Resolved.cons (hp : Resolved l m frame around [p] [q])
    (hps : Resolved (l.advance m) n frame around ps qs) :
    Resolved l (m + n) frame around (p :: ps) (q :: qs) where
  labels := by
    have hp := hp.labels
    have hps := hps.labels
    simp only [List.flatMap_cons, List.flatMap_nil, List.append_nil, Labels.names_add] at *
    refine (hp.append hps).trans ?_
    rw [List.append_assoc, List.append_assoc]
    exact List.Perm.append_left _ (List.perm_append_comm_assoc ..)
  jumps good around' qs' hgood hshape hleads h := by
    rw [Labels.names_add, List.forall_mem_append] at hgood
    obtain ⟨q', rest, hq, hrest, rfl⟩ := List.forall₂_cons_left_iff.1 h
    have hfirst := hp.jumps good around' [q'] hgood.1 hshape hleads (.cons hq .nil)
    have hothers := hps.jumps good around' rest hgood.2 hshape hleads hrest
    simp only [List.flatMap_cons, List.flatMap_nil, List.append_nil] at hfirst ⊢
    exact List.rel_append hfirst hothers

/-- What is around the parts of a node leads where a frame says, if what is around the node leads
where the outer frame says. -/
structure Inside (made : List String) (frame frame' : List LoopTarget)
    (inner inner' : List Enclosing → List Enclosing) : Prop where
  length : ∀ {around : List Enclosing}, around.length = frame.length →
    (inner around).length = frame'.length
  leads : ∀ {good around'}, (∀ name ∈ made, good name) →
    List.Forall₂ (LoopTarget.Leads good) frame around' →
    List.Forall₂ (LoopTarget.Leads good) frame' (inner' around')
  shape : ∀ {around around' : List Enclosing},
    around'.map (·.kind.shape) = around.map (·.kind.shape) →
    (inner' around').map (·.kind.shape) = (inner around).map (·.kind.shape)

variable {made : List String} {frame' : List LoopTarget}
  {inner inner' : List Enclosing → List Enclosing}

theorem Inside.function (h : ∀ around, inner around = []) (h' : ∀ around, inner' around = []) :
    Inside made frame [] inner inner' where
  length _ := by rw [h]; rfl
  leads _ _ := by rw [h']; exact .nil
  shape _ := by rw [h, h']

theorem Inside.nothing (h : ∀ around, inner around = around) (h' : ∀ around, inner' around = around) :
    Inside made frame frame inner inner' where
  length hlength := by rwa [h]
  leads _ hleads := by rwa [h']
  shape hshape := by rwa [h, h']

theorem Inside.construct {target : LoopTarget} (c c' : Enclosing) (hshape : c'.kind.shape = c.kind.shape)
    (hends : c'.EndsAt target.afterLoop) (hcontinues : c'.ContinuesAt target.endOfBody)
    (hafterLoop : target.afterLoop ∈ made) (hendOfBody : target.endOfBody ∈ made)
    (h : ∀ around, inner around = c :: around) (h' : ∀ around, inner' around = c' :: around) :
    Inside made frame (target :: frame) inner inner' where
  length hlength := by rw [h, List.length_cons, List.length_cons, hlength]
  leads hgood hleads := by
    rw [h']
    exact .cons ⟨hends, hcontinues, hgood _ hafterLoop, hgood _ hendOfBody⟩ hleads
  shape h'' := by rw [h, h', List.map_cons, List.map_cons, hshape, h'']

/-- An expression is resolved if its parts are. -/
theorem Resolved.expr {kind kind' : ExprKind} (hinside : Inside [] frame frame' kind.around kind'.around)
    (hparts : Resolved l n frame' (kind.around around) kind.parts kind'.parts) :
    Resolved l n frame around [.expr (.mk kind span)] [.expr (.mk kind' span)] where
  labels := by simpa using hparts.labels
  jumps good around' qs' hgood hshape hleads h := by
    obtain ⟨q', rest, hq, hrest, rfl⟩ := List.forall₂_cons_left_iff.1 h
    cases hq
    cases hrest
    simpa using hparts.jumps good (kind'.around around') kind'.parts hgood (hinside.shape hshape)
      (hinside.leads (fun _ h => nomatch h) hleads) (labelled_refl _)

/-- What becomes of one statement, whatever comes after it. -/
structure Becomes (l : Labels) (count : Nat) (frame : List LoopTarget) (around : List Enclosing)
    (rest : List Stmt) (kind kind' : StmtKind) (added : List Stmt) : Prop where
  label : kind'.label? = kind.label?
  labels : (kind'.parts.flatMap Part.labels ++ (Part.body added).labels).Perm
    (kind.parts.flatMap Part.labels ++ l.names count)
  onlyLabels : ∀ s ∈ added, ∃ name span, s = .mk (.label name) span
  jumps : ∀ good around' rest', (∀ name ∈ l.names count, good name) →
    around'.map (·.kind.shape) = around.map (·.kind.shape) →
    List.Forall₂ (LoopTarget.Leads good) frame around' → List.Forall₂ (Jump.Resolves good)
      ((kind.jump? around).toList ++ kind.parts.flatMap (Part.jumps (kind.around rest around)))
      ((kind'.jump? around').toList ++
        kind'.parts.flatMap (Part.jumps (kind'.around (added ++ rest') around')))

theorem jumps_labels_append {added more : List Stmt}
    (h : ∀ s ∈ added, ∃ name span, s = .mk (.label name) span) :
    (Part.body (added ++ more)).jumps around = (Part.body more).jumps around := by
  induction added with
  | nil => rfl
  | cons s added ih =>
    obtain ⟨hs, hadded⟩ := List.forall_mem_cons.1 h
    obtain ⟨name, span, rfl⟩ := hs
    simp [StmtKind.jump?, StmtKind.isJump, StmtKind.parts, ih hadded]

theorem Resolved.stmts {kind kind' : StmtKind} {added rest rest' : List Stmt}
    (hfirst : Becomes l m frame around rest kind kind' added)
    (hrest : Resolved (l.advance m) n frame around [.body rest] [.body rest']) :
    Resolved l (m + n) frame around [.body (.mk kind span :: rest)]
      [.body (.mk kind' span :: (added ++ rest'))] where
  labels := by
    have hlabels := hfirst.labels.append hrest.labels
    simp only [List.flatMap_cons, List.flatMap_nil, List.append_nil, Part.labels_cons,
      Part.labels_append, Labels.names_add, hfirst.label, List.append_assoc] at hlabels ⊢
    refine (hlabels.append_left _).trans ?_
    exact ((List.perm_append_comm_assoc ..).append_left _).append_left _
  jumps good around' qs' hgood hshape hleads h := by
    rw [Labels.names_add, List.forall_mem_append] at hgood
    obtain ⟨rest'', rfl, hlabelled⟩ : ∃ rest'', qs' = [.body (.mk kind' span :: (added ++ rest''))] ∧
        Labelled (.body rest') (.body rest'') := by
      obtain ⟨q', _, hq, hnil, rfl⟩ := List.forall₂_cons_left_iff.1 h
      cases hnil
      cases hq with
      | same => exact ⟨rest', rfl, .same _⟩
      | added _ name span' =>
        exact ⟨rest' ++ [.mk (.label name) span'], by simp, .added ..⟩
    have hone := hfirst.jumps good around' rest'' hgood.1 hshape hleads
    have hothers := hrest.jumps good around' [.body rest''] hgood.2 hshape hleads
      (.cons hlabelled .nil)
    simp only [List.flatMap_cons, List.flatMap_nil, List.append_nil, Part.jumps_cons,
      jumps_labels_append hfirst.onlyLabels] at hothers ⊢
    exact List.rel_append hone hothers

theorem Becomes.of_parts {kind kind' : StmtKind} {added rest : List Stmt}
    (hexit : kind.isExit = false) (hshape : kind'.shape = kind.shape)
    (hparts : Resolved (l.advance m) n frame' (kind.around rest around) kind.parts ps)
    (hlabelled : List.Forall₂ Labelled ps kind'.parts)
    (hlabels : (kind'.parts.flatMap Part.labels ++ (Part.body added).labels).Perm
      (ps.flatMap Part.labels ++ l.names m))
    (honly : ∀ s ∈ added, ∃ name span, s = .mk (.label name) span)
    (hinside : ∀ rest', Inside (l.names m) frame frame' (kind.around rest)
      (kind'.around (added ++ rest'))) :
    Becomes l (m + n) frame around rest kind kind' added where
  label := by rw [← kind'.label?_shape, hshape, kind.label?_shape]
  labels := by
    rw [Labels.names_add]
    refine (hlabels.trans (hparts.labels.append_right _)).trans ?_
    rw [List.append_assoc]
    exact List.perm_append_comm.append_left _
  onlyLabels := honly
  jumps good around' rest' hgood hshape' hleads := by
    rw [Labels.names_add, List.forall_mem_append] at hgood
    refine List.rel_append ?_ (hparts.jumps good _ _ hgood.2 ((hinside rest').shape hshape')
      ((hinside rest').leads hgood.1 hleads) hlabelled)
    have hjump : kind'.isJump = kind.isJump := by
      rw [← kind'.isJump_shape, hshape, kind.isJump_shape]
    rw [StmtKind.jump?, StmtKind.jump?, hjump]
    split
    · rename_i hisJump
      have heq : kind' = kind := by
        cases kind <;> first | cases hexit; done | cases hisJump; done |
          (cases kind' <;> cases hshape; rfl)
      refine .cons ⟨hshape', ?_, ?_, fun _ => heq⟩ .nil
      · rintro level rfl
        cases hexit
      · rintro level rfl
        cases hexit
    · exact .nil

section AddLabel

variable (name : String) (span : Span)

theorem shape_addLabel : (addLabel name span kind).shape = kind.shape := by
  cases kind <;> rfl

/-- The label stands at the end of the body among the parts of a loop. -/
theorem parts_addLabel (h : kind.surround = .loop) : ∃ before after : List Part,
    kind.parts = before ++ .body kind.loopBody :: after ∧
    (addLabel name span kind).parts =
      before ++ .body (kind.loopBody ++ [.mk (.label name) span]) :: after := by
  cases kind with
  | whileLoop cond body => exact ⟨[.expr cond], [], rfl, rfl⟩
  | doWhile body cond => exact ⟨[], [.expr cond], rfl, rfl⟩
  | forLoop init cond step body =>
    exact ⟨exprParts init ++ exprParts cond ++ exprParts step, [], by simp [StmtKind.parts,
      StmtKind.loopBody], by simp [StmtKind.parts, StmtKind.loopBody, addLabel]⟩
  | foreach subject key value byRef body =>
    exact ⟨.expr subject :: (optionParts key ++ [.expr value]), [], by simp [StmtKind.parts,
      StmtKind.loopBody], by simp [StmtKind.parts, StmtKind.loopBody, addLabel]⟩
  | _ => cases h

theorem labelled_addLabel (h : kind.surround = .loop) :
    List.Forall₂ Labelled kind.parts (addLabel name span kind).parts := by
  obtain ⟨before, after, hparts, hparts'⟩ := parts_addLabel name span h
  rw [hparts, hparts']
  exact List.rel_append (labelled_refl _) (.cons (.added ..) (labelled_refl _))

theorem labels_addLabel (h : kind.surround = .loop) :
    ((addLabel name span kind).parts.flatMap Part.labels).Perm
      (kind.parts.flatMap Part.labels ++ [name]) := by
  obtain ⟨before, after, hparts, hparts'⟩ := parts_addLabel name span h
  have hlabel : (Part.body [.mk (.label name) span]).labels = [name] := by
    simp [StmtKind.label?, StmtKind.parts]
  simp only [hparts, hparts', List.flatMap_append, List.flatMap_cons, Part.labels_append, hlabel,
    List.append_assoc]
  exact (List.perm_append_comm.append_left _).append_left _

theorem getLast?_addLabel (h : kind.surround = .loop) :
    (addLabel name span kind).loopBody.getLast?.map Stmt.kind = some (.label name) := by
  cases kind <;> cases h <;> simp [addLabel, StmtKind.loopBody, Stmt.kind]

end AddLabel

end QueryTaint.Prepass
