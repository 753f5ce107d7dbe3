import Mathlib.Data.List.Forall2
import QueryTaint.Proofs.Syntax.Traversal

/-!
# Labels and jumps of syntax trees

The labels that stand anywhere in a tree, and its jumps (`break`, `continue` and `goto`), each with the
loops and switches around it. Functions, methods and closures have bodies of their own: what is around
such a body is not around the jumps inside.
-/

namespace QueryTaint

/-! ## What is around -/

/-- What a statement can be to the jumps inside it. -/
inductive Surround where
  | loop | switch | function | nothing
deriving DecidableEq

/-- What a statement is to the jumps inside it. -/
def StmtKind.surround : StmtKind → Surround
  | .whileLoop .. | .doWhile .. | .forLoop .. | .foreach .. => .loop
  | .switch .. => .switch
  | .function .. | .method .. => .function
  | _ => .nothing

/-- A loop or a switch that is around a jump, with the statements that follow it in its list. -/
structure Enclosing where
  kind : StmtKind
  after : List Stmt

/-- The loops and switches around the parts of a statement, the innermost first. -/
def StmtKind.around (kind : StmtKind) (after : List Stmt) (outer : List Enclosing) :
    List Enclosing :=
  match kind.surround with
  | .loop | .switch => ⟨kind, after⟩ :: outer
  | .function => []
  | .nothing => outer

theorem StmtKind.around_construct {kind : StmtKind}
    (h : kind.surround = .loop ∨ kind.surround = .switch) (after : List Stmt)
    (outer : List Enclosing) : kind.around after outer = ⟨kind, after⟩ :: outer := by
  rcases h with h | h <;> rw [around, h]

theorem StmtKind.around_function {kind : StmtKind} (h : kind.surround = .function)
    (after : List Stmt) (outer : List Enclosing) : kind.around after outer = [] := by
  rw [around, h]

theorem StmtKind.around_nothing {kind : StmtKind} (h : kind.surround = .nothing) (after : List Stmt)
    (outer : List Enclosing) : kind.around after outer = outer := by
  rw [around, h]

/-- Whether an expression has a body of its own. -/
def ExprKind.isClosure : ExprKind → Bool
  | .closure .. => true
  | _ => false

/-- The loops and switches around the parts of an expression. -/
def ExprKind.around (kind : ExprKind) (outer : List Enclosing) : List Enclosing :=
  if kind.isClosure then [] else outer

/-! ## Labels -/

/-- The label that a statement is. -/
def StmtKind.label? : StmtKind → Option String
  | .label x => some x
  | _ => none

/-- The labels that stand anywhere in a part. -/
def Part.labels : Part → List String
  | .expr (.mk kind _) => kind.parts.attach.flatMap fun p => p.1.labels
  | .body [] => []
  | .body (.mk kind _ :: rest) =>
    kind.label?.toList ++ (kind.parts.attach.flatMap fun p => p.1.labels) ++ Part.labels (.body rest)
termination_by p => sizeOf p
decreasing_by all_goals grind [→ ExprKind.sizeOf_part, → StmtKind.sizeOf_part]

theorem flatMap_attach {α β : Type} (l : List α) (f : α → List β) :
    (l.attach.flatMap fun x => f x.1) = l.flatMap f := by
  rw [List.flatMap_def, List.attach_map_val, ← List.flatMap_def]

@[simp] theorem Part.labels_expr (kind : ExprKind) (span : Span) :
    (Part.expr (.mk kind span)).labels = kind.parts.flatMap Part.labels := by
  rw [Part.labels, flatMap_attach _ Part.labels]

@[simp] theorem Part.labels_nil : (Part.body []).labels = [] := by
  rw [Part.labels]

@[simp] theorem Part.labels_cons (kind : StmtKind) (span : Span) (rest : List Stmt) :
    (Part.body (.mk kind span :: rest)).labels =
      kind.label?.toList ++ kind.parts.flatMap Part.labels ++ (Part.body rest).labels := by
  rw [Part.labels, flatMap_attach _ Part.labels]

theorem Part.labels_hole : (Part.expr hole).labels = [] :=
  Part.labels_expr ..

theorem Part.labels_append (stmts more : List Stmt) :
    (Part.body (stmts ++ more)).labels = (Part.body stmts).labels ++ (Part.body more).labels := by
  induction stmts with
  | nil => simp
  | cons s rest ih =>
    obtain ⟨kind, span⟩ := s
    simp [ih]

/-! ## Jumps -/

/-- Whether a statement is a jump. -/
def StmtKind.isJump : StmtKind → Bool
  | .breakLoop _ | .continueLoop _ | .goto _ => true
  | _ => false

/-- A jump with the loops and switches around it in the body of its function, the innermost
first. -/
structure Jump where
  kind : StmtKind
  around : List Enclosing

/-- The jump that a statement is. -/
def StmtKind.jump? (kind : StmtKind) (around : List Enclosing) : Option Jump :=
  if kind.isJump then some ⟨kind, around⟩ else none

/-- The jumps that stand anywhere in a part, in the order of the text. -/
def Part.jumps (around : List Enclosing) : Part → List Jump
  | .expr (.mk kind _) => kind.parts.attach.flatMap fun p => p.1.jumps (kind.around around)
  | .body [] => []
  | .body (.mk kind _ :: rest) =>
    (kind.jump? around).toList
      ++ (kind.parts.attach.flatMap fun p => p.1.jumps (kind.around rest around))
      ++ Part.jumps around (.body rest)
termination_by p => sizeOf p
decreasing_by all_goals grind [→ ExprKind.sizeOf_part, → StmtKind.sizeOf_part]

@[simp] theorem Part.jumps_expr (around : List Enclosing) (kind : ExprKind) (span : Span) :
    (Part.expr (.mk kind span)).jumps around =
      kind.parts.flatMap (Part.jumps (kind.around around)) := by
  rw [Part.jumps, flatMap_attach _ (Part.jumps (kind.around around))]

@[simp] theorem Part.jumps_nil (around : List Enclosing) : (Part.body []).jumps around = [] := by
  rw [Part.jumps]

@[simp] theorem Part.jumps_cons (around : List Enclosing) (kind : StmtKind) (span : Span)
    (rest : List Stmt) :
    (Part.body (.mk kind span :: rest)).jumps around =
      (kind.jump? around).toList ++ kind.parts.flatMap (Part.jumps (kind.around rest around))
        ++ (Part.body rest).jumps around := by
  rw [Part.jumps, flatMap_attach _ (Part.jumps (kind.around rest around))]

theorem Part.jumps_hole (around : List Enclosing) : (Part.expr hole).jumps around = [] :=
  Part.jumps_expr ..

/-! ## Shapes -/

theorem ExprKind.isClosure_shape (kind : ExprKind) : kind.shape.isClosure = kind.isClosure := by
  cases kind <;> rfl

theorem StmtKind.surround_shape (kind : StmtKind) : kind.shape.surround = kind.surround := by
  cases kind <;> rfl

theorem StmtKind.surround_of_shape {kind kind' : StmtKind} (h : kind'.shape = kind.shape) :
    kind'.surround = kind.surround := by
  rw [← kind'.surround_shape, h, kind.surround_shape]

theorem StmtKind.label?_shape (kind : StmtKind) : kind.shape.label? = kind.label? := by
  cases kind <;> rfl

theorem StmtKind.isJump_shape (kind : StmtKind) : kind.shape.isJump = kind.isJump := by
  cases kind <;> rfl

/-! ## Trees without `break` and `continue` -/

/-- Whether a statement is a `break` or a `continue`. -/
def StmtKind.isExit : StmtKind → Bool
  | .breakLoop _ | .continueLoop _ => true
  | _ => false

theorem StmtKind.isExit_of_surround {kind : StmtKind} (h : kind.surround ≠ .nothing) :
    kind.isExit = false := by
  cases kind <;> first | rfl | exact absurd rfl h

theorem StmtKind.isExit_shape (kind : StmtKind) : kind.shape.isExit = kind.isExit := by
  cases kind <;> rfl

/-- No `break` and no `continue` stands anywhere in a part. -/
inductive Part.ExitFree : Part → Prop where
  | expr {kind : ExprKind} {span : Span} :
    (∀ p ∈ kind.parts, ExitFree p) → ExitFree (.expr (.mk kind span))
  | nil : ExitFree (.body [])
  | cons {kind : StmtKind} {span : Span} {rest : List Stmt} :
    kind.isExit = false → (∀ p ∈ kind.parts, ExitFree p) → ExitFree (.body rest) →
      ExitFree (.body (.mk kind span :: rest))

theorem StmtKind.isJump_of_isExit {kind : StmtKind} (h : kind.isExit = true) :
    kind.isJump = true := by
  cases kind <;> first | rfl | cases h

/-- If no jump of a tree is a `break` or a `continue`, none stands anywhere. -/
theorem Part.exitFree_of_jumps {p : Part} : ∀ around : List Enclosing,
    (∀ j ∈ p.jumps around, j.kind.isExit = false) → p.ExitFree := by
  induction p using Part.induct with
  | expr kind span ih =>
    intro around h
    rw [Part.jumps_expr] at h
    exact .expr fun p hp => ih p hp _ fun j hj => h j (List.mem_flatMap_of_mem hp hj)
  | nil => exact fun _ _ => .nil
  | cons kind span rest ih ihrest =>
    intro around h
    rw [Part.jumps_cons, List.forall_mem_append, List.forall_mem_append] at h
    obtain ⟨⟨hown, hparts⟩, hrest⟩ := h
    refine .cons (Bool.eq_false_iff.2 fun hexit => ?_) (fun p hp => ih p hp _ fun j hj =>
      hparts j (List.mem_flatMap_of_mem hp hj)) (ihrest around hrest)
    have hjump : (⟨kind, around⟩ : Jump) ∈ (kind.jump? around).toList := by
      simp [StmtKind.jump?, StmtKind.isJump_of_isExit hexit]
    exact Bool.eq_false_iff.1 (hown _ hjump) hexit

/-!
## Jumps out of loops

When the level of a `break` or a `continue` fits the constructs around it (`Jump.Fits`), and what it
means that a jump to a label stands in its place (`Jump.Resolves`). Neither says how labels are made or
found.
-/

/-- The number of constructs that a `break` or `continue` leaves or goes on with. -/
inductive ExitLevel : Option Expr → Int → Prop where
  | absent : ExitLevel none 1
  | literal (n : Int64) (span : Span) : ExitLevel (some (.mk (.literal (.int n)) span)) n.toInt

/-- Whether a jump that is no `goto` leads out of one of the constructs around it. -/
def Jump.Fits (j : Jump) : Prop :=
  match j.kind with
  | .breakLoop level | .continueLoop level =>
    ∃ n, ExitLevel level n ∧ 1 ≤ n ∧ n ≤ j.around.length
  | _ => True

/-- The statements that a loop repeats. -/
def StmtKind.loopBody : StmtKind → List Stmt
  | .whileLoop _ body | .doWhile body _ | .forLoop _ _ _ body | .foreach _ _ _ _ body => body
  | _ => []

namespace Enclosing

/-- A label stands directly after the construct. -/
def EndsAt (c : Enclosing) (label : String) : Prop :=
  c.after.head?.map Stmt.kind = some (.label label)

/-- A label stands at the end of a loop's body, or directly after a switch. -/
def ContinuesAt (c : Enclosing) (label : String) : Prop :=
  match c.kind.surround with
  | .switch => c.EndsAt label
  | _ => c.kind.loopBody.getLast?.map Stmt.kind = some (.label label)

end Enclosing

/-- What becomes of a jump: a `break` or `continue` is a `goto` to a good label that stands where the
construct that its level gives ends or goes on, and a `goto` stays as it is. The constructs around are
the same but for their parts. -/
structure Jump.Resolves (good : String → Prop) (j j' : Jump) : Prop where
  around : j'.around.map (·.kind.shape) = j.around.map (·.kind.shape)
  breaks : ∀ level, j.kind = .breakLoop level → ∃ n label c, ExitLevel level n ∧ 1 ≤ n ∧
    j'.around[n.toNat - 1]? = some c ∧ c.EndsAt label ∧ j'.kind = .goto label ∧ good label
  continues : ∀ level, j.kind = .continueLoop level → ∃ n label c, ExitLevel level n ∧ 1 ≤ n ∧
    j'.around[n.toNat - 1]? = some c ∧ c.ContinuesAt label ∧ j'.kind = .goto label ∧ good label
  goto : j.kind.isExit = false → j'.kind = j.kind

namespace Jump.Resolves

variable {good : String → Prop} {j j' : Jump}

theorem fits (h : j.Resolves good j') : j.Fits := by
  have hlength : j'.around.length = j.around.length := by
    simpa only [List.length_map] using congrArg List.length h.around
  have hbound {n : Int} {c : Enclosing} (hpos : 1 ≤ n) (hc : j'.around[n.toNat - 1]? = some c) :
      n ≤ j.around.length := by
    have := (List.getElem?_eq_some_iff.1 hc).1
    omega
  unfold Fits
  split
  · next level hkind =>
    obtain ⟨n, _, c, hexit, hpos, hc, _⟩ := h.breaks level hkind
    exact ⟨n, hexit, hpos, hbound hpos hc⟩
  · next level hkind =>
    obtain ⟨n, _, c, hexit, hpos, hc, _⟩ := h.continues level hkind
    exact ⟨n, hexit, hpos, hbound hpos hc⟩
  · trivial

theorem isExit (h : j.Resolves good j') : j'.kind.isExit = false := by
  cases hkind : j.kind with
  | breakLoop level =>
    obtain ⟨_, _, _, _, _, _, _, hgoto, _⟩ := h.breaks level hkind
    rw [hgoto]
    rfl
  | continueLoop level =>
    obtain ⟨_, _, _, _, _, _, _, hgoto, _⟩ := h.continues level hkind
    rw [hgoto]
    rfl
  | _ => rw [h.goto (by rw [hkind]; rfl), hkind]; rfl

end Jump.Resolves

end QueryTaint
