import Mathlib.Data.List.Forall2
import QueryTaint.Prepass.Basic
import QueryTaint.Proofs.Prepass.Basic
import QueryTaint.Proofs.Syntax.Jump
import QueryTaint.Proofs.Syntax.Shape

/-!
# Replacing magic constants adds no jumps

The pass that replaces magic constants and relative class names edits expressions only, and what it
puts in has no parts: a tree without `break` and `continue` stays one (`magicPass_exitFree`).
-/

namespace QueryTaint.Prepass

variable {s : MagicScope} {ps : List Part}

/-! ## Edits -/

/-- An edit of an expression brings in no `break` and no `continue`. -/
def Harmless (edit : ExprKind → ExprKind) : Prop :=
  ∀ kind : ExprKind, (∀ p ∈ kind.parts, p.ExitFree) → ∀ p ∈ (edit kind).parts, p.ExitFree

theorem exitFree_name (n : Name) (span : Span) : (Part.expr (.mk (.name n) span)).ExitFree :=
  .expr nofun

/-- The class in a class slot is replaced by a name, if at all. -/
theorem mem_parts_slot {cls : Expr} {kind : ExprKind} {p : Part}
    (h : p ∈ (MagicScope.edit.slot cls kind).parts) :
    (∃ n span, p = .expr (.mk (.name n) span)) ∨ p ∈ kind.parts := by
  unfold MagicScope.edit.slot at h
  split at h
  iterate 5
    simp only [ExprKind.parts, List.mem_cons] at h ⊢
    grind
  exact .inr h

theorem harmless_slot (cls : Expr) : Harmless (MagicScope.edit.slot cls) := by
  intro kind h p hp
  rcases mem_parts_slot hp with ⟨n, span, rfl⟩ | hp
  · exact exitFree_name n span
  · exact h p hp

theorem harmless_edit {line : Nat} {kind : ExprKind} {edit : ExprKind → ExprKind}
    (h : s.edit line kind = .ok edit) : Harmless edit := by
  have hslot (cls : Expr) (h : (do return MagicScope.edit.slot (← s.resolveSlot cls)) = Except.ok edit) :
      Harmless edit := by
    cases hcls : s.resolveSlot cls with
    | error e => rw [hcls] at h; cases h
    | ok cls =>
      rw [hcls] at h
      cases h
      exact harmless_slot cls
  unfold MagicScope.edit at h
  split at h
  · cases h
    exact fun _ _ => nofun
  iterate 5 exact hslot _ h
  · cases h
    exact fun _ => id

/-! ## The pass -/

/-- What the pass makes of a part. -/
def KeepsExitFree (p : Part) : Prop :=
  ∀ s, Ends (replaceMagic.part p) s True fun q _ => q.ExitFree

theorem keepsExitFree_parts (h : ∀ p ∈ ps, KeepsExitFree p) :
    Ends (replaceMagic.parts ps) s True fun qs _ => ∀ q ∈ qs, q.ExitFree := by
  induction ps generalizing s with
  | nil => exact .parts_nil nofun
  | cons p ps ih =>
    obtain ⟨hp, hps⟩ := List.forall_mem_cons.1 h
    refine .parts_cons (hp s) fun q s' hq => ?_
    exact (ih hps).mono id fun qs _ hqs => List.forall_mem_cons.2 ⟨hq, hqs⟩

theorem enterExpr_ends {kind : ExprKind} {span : Span} {fail : Prop}
    {Q : (ExprKind → ExprKind) → Prop} (hok : ∀ edit, s.edit span.startLine kind = .ok edit → Q edit)
    (herror : ∀ e, s.edit span.startLine kind = .error e → fail) :
    Ends (replaceMagic.enterExpr (.mk kind span)) s fail fun edit _ => Q edit := by
  refine Ends.bind (Q := fun s' s₁ => s' = s ∧ s₁ = s) (Ends.of_run rfl ⟨rfl, rfl⟩) ?_
  rintro s' s₁ ⟨hs', hs₁⟩
  refine Ends.bind (Q := fun edit _ => Q edit) ?_ fun edit s₂ hedit => ?_
  · rw [hs', hs₁]
    show Ends (liftM (s.edit span.startLine kind)) s fail _
    cases hedit : s.edit span.startLine kind with
    | error e => exact Ends.of_error rfl (herror e hedit)
    | ok edit => exact Ends.of_run rfl (hok edit hedit)
  · cases kind <;> exact hedit

/-- A statement itself stays as it is. -/
theorem visitStmt_keeps {kind : StmtKind} {span : Span} {fail : Prop} {Q : StmtKind → Prop}
    (h : ∀ s, Ends (replaceMagic.stmtKind kind) s fail fun kind' _ => Q kind') :
    Ends (replaceMagic.visitStmt kind span) s fail fun y _ => Q y.1 ∧ y.2 = [] := by
  rw [Traversal.visitStmt]
  refine Ends.bind (Ends.of_run rfl rfl) (Q := fun edit _ => edit = id) ?_
  rintro _ s₁ rfl
  exact (h s₁).bind fun kind' s₂ hkind => Ends.of_run rfl ⟨hkind, rfl⟩

theorem keepsExitFree_expr {kind : ExprKind} {span : Span}
    (h : ∀ p ∈ kind.parts, KeepsExitFree p) : KeepsExitFree (.expr (.mk kind span)) := by
  intro s
  rw [ends_part_expr, Traversal.visitExpr]
  refine (enterExpr_ends (fun edit => harmless_edit) fun _ _ => trivial).bind fun edit s₁ hedit => ?_
  refine (Ends.of_covers (Traversal.exprKind_covered kind) (keepsExitFree_parts h)).bind ?_
  rintro kind' s₂ ⟨qs, ⟨rfl, -⟩, hparts⟩
  have hleave : Ends (replaceMagic.leaveExpr (edit kind')) s₂ True fun _ _ => True := by
    unfold Ends
    split <;> trivial
  exact hleave.bind fun _ _ _ => Ends.pure (.expr (hedit kind' hparts))

theorem keepsExitFree_cons {kind : StmtKind} {span : Span} {rest : List Stmt}
    (hexit : kind.isExit = false) (h : ∀ p ∈ kind.parts, KeepsExitFree p)
    (hrest : KeepsExitFree (.body rest)) : KeepsExitFree (.body (.mk kind span :: rest)) := by
  intro s
  have hvisit : Ends (replaceMagic.visitStmt kind span) s True fun y _ =>
      (y.1.isExit = false ∧ ∀ p ∈ y.1.parts, p.ExitFree) ∧ y.2 = [] := by
    refine visitStmt_keeps (Q := fun kind' => kind'.isExit = false ∧ ∀ p ∈ kind'.parts, p.ExitFree)
      fun s => ?_
    refine (Ends.of_covers (Traversal.stmtKind_covered kind) (keepsExitFree_parts h)).mono id ?_
    rintro kind' s₂ ⟨qs, ⟨rfl, hshape⟩, hparts⟩
    refine ⟨?_, hparts⟩
    rw [← kind'.isExit_shape, hshape, kind.isExit_shape, hexit]
  refine hvisit.part_cons ?_
  rintro kind' added s₁ ⟨⟨hexit', hparts⟩, rfl⟩
  exact (ends_part_body.1 (hrest s₁)).mono id fun rest' _ hrest' => .cons hexit' hparts hrest'

theorem keepsExitFree {p : Part} (h : p.ExitFree) : KeepsExitFree p := by
  induction h with
  | expr _ ih => exact keepsExitFree_expr ih
  | nil => exact fun s => ends_part_body.2 (Ends.pure .nil)
  | cons hexit _ _ ih ihrest => exact keepsExitFree_cons hexit ih ihrest

/-- How the pass ends, from the start of a file. -/
theorem magicPass_cases {path : String} {stmts : List Stmt} {fail : Prop} {Q : Part → Prop}
    (h : Ends (replaceMagic.part (.body stmts)) { path } fail fun q _ => Q q) :
    (∃ out, magicPass path stmts = .ok out ∧ Q (.body out)) ∨
      (∃ e, magicPass path stmts = .error e) ∧ fail := by
  have hends := ends_part_body.1 h
  rw [magicPass, StateT.run'_eq]
  cases hrun : (replaceMagic.stmts stmts).run { path } with
  | error e => exact .inr ⟨⟨e, rfl⟩, hends.fails hrun⟩
  | ok y => exact .inl ⟨y.1, rfl, hends.ok hrun⟩

/-- A tree without `break` and `continue` stays one when magic constants are replaced. -/
theorem magicPass_exitFree {path : String} {stmts out : List Stmt}
    (h : (Part.body stmts).ExitFree) (hout : magicPass path stmts = .ok out) :
    (Part.body out).ExitFree := by
  rcases magicPass_cases (keepsExitFree h { path }) with ⟨out', hout', hfree⟩ | ⟨⟨e, he⟩, -⟩
  · cases hout.symm.trans hout'
    exact hfree
  · cases hout.symm.trans he

end QueryTaint.Prepass

/-!
## Trees without magic constants

What replacing magic constants leaves has no magic constant and no relative class name (`Replaced`,
`settles`), and the pass leaves such a tree as it is, wherever it stands (`Replaced.kept`). So
replacing them again changes nothing (`magicPass_magicPass`).
-/

namespace QueryTaint

/-- The expression in the place of a class. -/
def ExprKind.cls? : ExprKind → Option Expr
  | .new cls _ | .staticCall cls _ _ | .staticProperty cls _ | .classConst cls _
  | .instanceOf _ cls => some cls
  | _ => none

theorem ExprKind.isSome_cls?_shape (kind : ExprKind) : kind.shape.cls?.isSome = kind.cls?.isSome := by
  cases kind <;> rfl

namespace Prepass

variable {s s' : MagicScope} {line : Nat} {kind kind' : ExprKind} {cls cls' : Expr}

/-! ### Relative class names -/

/-- An expression that is no relative class name: no scope has another class for it. -/
def Absolute (cls : Expr) : Prop := ∀ s : MagicScope, s.resolveSlot cls = .ok cls

theorem absolute_of_isName (h : (Part.expr cls).isName = false) : Absolute cls := by
  obtain ⟨kind, span⟩ := cls
  cases kind with
  | name n => cases h
  | _ => exact fun _ => rfl

/-- Which names are relative does not depend on the scope. -/
theorem relativeClass?_eq_none {n : Name} (h : s.relativeClass? n = none) :
    s'.relativeClass? n = none := by
  unfold MagicScope.relativeClass? at h ⊢
  split at h
  · next hunqualified =>
    rw [if_pos hunqualified]
    split at h
    · cases h
    · cases h
    · rfl
  · next hqualified => rw [if_neg hqualified]

/-- What stands for a class is no relative class name, and it is a name if there was one. -/
theorem absolute_of_resolveSlot (h : s.resolveSlot cls = .ok cls') :
    Absolute cls' ∧ (Part.expr cls').isName = (Part.expr cls).isName := by
  obtain ⟨kind, span⟩ := cls
  cases kind with
  | name n =>
    simp only [MagicScope.resolveSlot] at h
    split at h
    · next hnone =>
      cases h
      exact ⟨fun s' => by simp only [MagicScope.resolveSlot, relativeClass?_eq_none hnone], rfl⟩
    · cases h
    · cases h
      exact ⟨fun _ => rfl, rfl⟩
  | _ =>
    cases h
    exact ⟨fun _ => rfl, rfl⟩

/-! ### Edits -/

theorem edit_eq (hmagic : ∀ c, kind ≠ .magicConst c) : s.edit line kind =
    kind.cls?.elim (.ok id) fun cls => do return MagicScope.edit.slot (← s.resolveSlot cls) := by
  cases kind with
  | magicConst c => exact absurd rfl (hmagic c)
  | _ => rfl

theorem slot_of_isName (h : (Part.expr cls).isName = false) : MagicScope.edit.slot cls kind = kind := by
  obtain ⟨kind, span⟩ := cls
  cases kind with
  | name n => cases h
  | _ => rfl

theorem slot_self (h : kind.cls? = some cls) : MagicScope.edit.slot cls kind = kind := by
  unfold MagicScope.edit.slot
  split <;> first | cases h; rfl | rfl

theorem cls?_slot (h : (Part.expr cls).isName = true) (hcls : kind.cls?.isSome) :
    (MagicScope.edit.slot cls kind).cls? = some cls := by
  obtain ⟨kind', span⟩ := cls
  cases kind' with
  | name n => cases kind <;> first | rfl | cases hcls
  | _ => cases h

theorem isName_slot : (MagicScope.edit.slot cls kind).isName = kind.isName := by
  unfold MagicScope.edit.slot
  split <;> rfl

/-- What becomes of the class slot when its part is done. -/
theorem cls?_of_parts {R : Part → Part → Prop} (hshape : kind'.shape = kind.shape)
    (hparts : List.Forall₂ R kind.parts kind'.parts) (hcls : kind.cls? = some cls) :
    ∃ cls', kind'.cls? = some cls' ∧ R (.expr cls) (.expr cls') := by
  cases kind <;> cases hcls <;> cases kind' <;> first | (cases hshape; done) | skip
  all_goals
    simp only [ExprKind.parts, List.forall₂_cons] at hparts
    first | exact ⟨_, rfl, hparts.1⟩ | exact ⟨_, rfl, hparts.2.1⟩

/-! ### Trees that stay -/

/-- Nothing in an expression itself is replaced. -/
structure Stays (kind : ExprKind) : Prop where
  magic : ∀ c, kind ≠ .magicConst c
  cls : ∀ cls, kind.cls? = some cls → Absolute cls

theorem Stays.of_cls? (h : kind.cls? = some cls) (hcls : Absolute cls) : Stays kind where
  magic := by
    rintro c rfl
    cases h
  cls cls' h' := Option.some.inj (h.symm.trans h') ▸ hcls

theorem Stays.edit (h : Stays kind) (s : MagicScope) (line : Nat) :
    ∃ edit, s.edit line kind = .ok edit ∧ edit kind = kind := by
  rw [edit_eq h.magic]
  cases hcls : kind.cls? with
  | none => exact ⟨id, rfl, rfl⟩
  | some cls =>
    refine ⟨MagicScope.edit.slot cls, ?_, slot_self hcls⟩
    rw [Option.elim_some, h.cls cls hcls s]
    rfl

/-- No magic constant and no relative class name stands anywhere in a part. -/
def Replaced : Part → Prop := Part.All Stays fun _ => True

/-- The pass leaves a part as it is. -/
def Kept (p : Part) : Prop := ∀ s, Ends (replaceMagic.part p) s False fun q _ => q = p

theorem leaveExpr_ends (kind : ExprKind) (s : MagicScope) :
    Ends (replaceMagic.leaveExpr kind) s False fun _ _ => True := by
  cases kind <;> trivial

theorem kept_parts {ps : List Part} (h : ∀ p ∈ ps, Kept p) :
    ∀ s, Ends (replaceMagic.parts ps) s False fun qs _ => qs = ps := by
  induction ps with
  | nil => exact fun s => .parts_nil rfl
  | cons p ps ih =>
    obtain ⟨hp, hps⟩ := List.forall_mem_cons.1 h
    intro s
    refine .parts_cons (hp s) ?_
    rintro _ s' rfl
    exact (ih hps s').mono id fun _ _ hqs => congrArg _ hqs

theorem Replaced.kept {p : Part} (h : Replaced p) : Kept p := by
  induction h with
  | @expr kind span hkind _ ih =>
    intro s
    obtain ⟨edit, hedit, hsame⟩ := hkind.edit s span.startLine
    rw [ends_part_expr, Traversal.visitExpr]
    refine (enterExpr_ends (Q := fun edit => edit kind = kind) ?_ ?_).bind fun edit s₁ hsame => ?_
    · intro edit' hedit'
      cases hedit.symm.trans hedit'
      exact hsame
    · intro e he
      cases hedit.symm.trans he
    · refine (Ends.of_covers (Traversal.exprKind_covered kind) (kept_parts ih s₁)).bind ?_
      rintro kind' s₂ ⟨_, ⟨hparts, hshape⟩, rfl⟩
      rw [ExprKind.eq_of_parts hshape hparts, hsame]
      exact (leaveExpr_ends kind s₂).bind fun _ _ _ => Ends.pure rfl
  | nil => exact fun s => ends_part_body.2 (Ends.pure rfl)
  | @cons kind span rest _ _ _ ih ihrest =>
    intro s
    refine Ends.part_cons (visitStmt_keeps (Q := fun kind' => kind' = kind) fun s => ?_) ?_
    · refine (Ends.of_covers (Traversal.stmtKind_covered kind) (kept_parts ih s)).mono id ?_
      rintro kind' s₂ ⟨_, ⟨hparts, hshape⟩, rfl⟩
      exact StmtKind.eq_of_parts hshape hparts
    · rintro _ _ s₁ ⟨rfl, rfl⟩
      refine (ends_part_body.1 (ihrest s₁)).mono id fun rest' _ hrest => ?_
      rw [Part.body.inj hrest]
      rfl

/-! ### What the pass leaves -/

/-- What the pass may make of a part: nothing in it is left to replace, and it is a name only if it was
one. -/
structure Settles (p q : Part) : Prop where
  replaced : Replaced q
  isName : q.isName = p.isName

theorem replaced_of_settles {ps qs : List Part} (h : List.Forall₂ Settles ps qs) :
    ∀ q ∈ qs, Replaced q := by
  induction h with
  | nil => exact nofun
  | cons hp _ ih => exact List.forall_mem_cons.2 ⟨hp.replaced, ih⟩

/-- An expression whose parts are settled is settled by its edit. -/
theorem settles_edit {edit : ExprKind → ExprKind} {span : Span} (hedit : s.edit line kind = .ok edit)
    (hshape : kind'.shape = kind.shape) (hparts : List.Forall₂ Settles kind.parts kind'.parts) :
    Settles (.expr (.mk kind span)) (.expr (.mk (edit kind') span)) := by
  have hname : kind'.isName = kind.isName := by rw [← kind'.isName_shape, hshape, kind.isName_shape]
  have hreplaced := replaced_of_settles hparts
  by_cases hmagic : ∃ c, kind = .magicConst c
  · obtain ⟨c, rfl⟩ := hmagic
    cases hedit
    exact ⟨.expr ⟨nofun, nofun⟩ nofun, rfl⟩
  rw [edit_eq fun c hc => hmagic ⟨c, hc⟩] at hedit
  cases hcls : kind.cls? with
  | none =>
    rw [hcls] at hedit
    cases hedit
    have hnone : kind'.cls? = none := by
      rw [← Option.not_isSome_iff_eq_none, ← kind'.isSome_cls?_shape, hshape, kind.isSome_cls?_shape,
        hcls]
      exact Bool.false_ne_true
    refine ⟨.expr ⟨?_, fun cls h => by cases hnone.symm.trans h⟩ hreplaced, hname⟩
    rintro c rfl
    exact hmagic ⟨c, by cases kind <;> cases hshape; rfl⟩
  | some cls =>
    obtain ⟨cls', hcls', hsettles⟩ := cls?_of_parts hshape hparts hcls
    rw [hcls, Option.elim_some] at hedit
    cases hslot : s.resolveSlot cls with
    | error e =>
      rw [hslot] at hedit
      cases hedit
    | ok target =>
      rw [hslot] at hedit
      cases hedit
      obtain ⟨habsolute, htarget⟩ := absolute_of_resolveSlot hslot
      refine ⟨?_, isName_slot.trans hname⟩
      cases hisName : (Part.expr target).isName with
      | true =>
        have hslot : (MagicScope.edit.slot target kind').cls? = some target :=
          cls?_slot hisName (by rw [hcls']; rfl)
        refine .expr (.of_cls? hslot habsolute) fun p hp => ?_
        rcases mem_parts_slot hp with ⟨n, span, rfl⟩ | hp
        · exact .expr ⟨nofun, nofun⟩ nofun
        · exact hreplaced p hp
      | false =>
        rw [slot_of_isName hisName]
        have hnot : (Part.expr cls').isName = false := by
          rw [hsettles.isName, ← htarget, hisName]
        exact .expr (.of_cls? hcls' (absolute_of_isName hnot)) hreplaced

theorem settles_parts {ps : List Part}
    (h : ∀ p ∈ ps, ∀ s, Ends (replaceMagic.part p) s True fun q _ => Settles p q) :
    ∀ s, Ends (replaceMagic.parts ps) s True fun qs _ => List.Forall₂ Settles ps qs := by
  induction ps with
  | nil => exact fun s => .parts_nil .nil
  | cons p ps ih =>
    obtain ⟨hp, hps⟩ := List.forall_mem_cons.1 h
    intro s
    refine .parts_cons (hp s) fun q s' hq => ?_
    exact (ih hps s').mono id fun _ _ hqs => .cons hq hqs

theorem settles (p : Part) : ∀ s, Ends (replaceMagic.part p) s True fun q _ => Settles p q := by
  induction p using Part.induct with
  | expr kind span ih =>
    intro s
    rw [ends_part_expr, Traversal.visitExpr]
    refine (enterExpr_ends (Q := fun edit => s.edit span.startLine kind = .ok edit)
      (fun _ => id) fun _ _ => trivial).bind fun edit s₁ hedit => ?_
    refine (Ends.of_covers (Traversal.exprKind_covered kind) (settles_parts ih s₁)).bind ?_
    rintro kind' s₂ ⟨_, ⟨rfl, hshape⟩, hparts⟩
    refine ((leaveExpr_ends (edit kind') s₂).mono False.elim fun _ _ => id).bind fun _ _ _ => ?_
    exact Ends.pure (settles_edit hedit hshape hparts)
  | nil => exact fun s => ends_part_body.2 (Ends.pure ⟨.nil, rfl⟩)
  | cons kind span rest ih ihrest =>
    intro s
    refine Ends.part_cons (visitStmt_keeps (Q := fun kind' => ∀ p ∈ kind'.parts, Replaced p)
      fun s => ?_) ?_
    · refine (Ends.of_covers (Traversal.stmtKind_covered kind) (settles_parts ih s)).mono id ?_
      rintro kind' s₂ ⟨_, ⟨rfl, -⟩, hparts⟩
      exact replaced_of_settles hparts
    · rintro kind' _ s₁ ⟨hparts, rfl⟩
      refine (ends_part_body.1 (ihrest s₁)).mono id fun rest' _ hrest => ?_
      exact ⟨.cons trivial hparts hrest.replaced, rfl⟩

/-- Replacing magic constants a second time changes nothing, and does not fail. -/
theorem magicPass_magicPass {path : String} {stmts out : List Stmt}
    (h : magicPass path stmts = .ok out) : magicPass path out = .ok out := by
  rcases magicPass_cases (settles (.body stmts) { path }) with ⟨out', hout', hsettles⟩ | ⟨⟨e, he⟩, -⟩
  · cases h.symm.trans hout'
    rcases magicPass_cases (hsettles.replaced.kept { path }) with ⟨out', hout', heq⟩ | ⟨-, hfalse⟩
    · rw [hout', Part.body.inj heq]
    · exact hfalse.elim
  · cases h.symm.trans he

end Prepass

end QueryTaint
