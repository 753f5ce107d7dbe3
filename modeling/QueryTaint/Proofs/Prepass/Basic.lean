import QueryTaint.Error
import QueryTaint.Proofs.Syntax.Traversal

/-!
# How passes end

A pass is a traversal with a state that may fail. `Ends` says what holds after a step of it, in either
case. What holds after a whole pass follows from what holds after its parts (`Ends.of_covers`,
`Ends.parts_cons`, `Ends.part_cons`), so that only the hooks of the pass itself are left to look at.
`Alike` compares the ends of two steps in the same way.
-/

namespace QueryTaint.Prepass

variable {σ α β : Type} {s : σ} {fail fail' : Prop}

/-- What holds after a step of a pass: one thing if it fails, and another of its result and the
state. -/
def Ends (x : StateT σ (Except Error) α) (s : σ) (fail : Prop) (ok : α → σ → Prop) : Prop :=
  match x.run s with
  | .ok (y, s') => ok y s'
  | .error _ => fail

variable {x : StateT σ (Except Error) α} {f : α → StateT σ (Except Error) β}
  {Q Q' : α → σ → Prop} {R : β → σ → Prop}

theorem Ends.ok (h : Ends x s fail Q) {y : α} {s' : σ} (hx : x.run s = .ok (y, s')) : Q y s' := by
  rwa [Ends, hx] at h

theorem Ends.fails (h : Ends x s fail Q) {e : Error} (hx : x.run s = .error e) : fail := by
  rwa [Ends, hx] at h

theorem Ends.of_run {y : α} {s' : σ} (hx : x.run s = .ok (y, s')) (h : Q y s') : Ends x s fail Q := by
  rwa [Ends, hx]

theorem Ends.of_error {e : Error} (hx : x.run s = .error e) (h : fail) : Ends x s fail Q := by
  rwa [Ends, hx]

theorem Ends.mono (h : Ends x s fail Q) (hfail : fail → fail') (hok : ∀ y s', Q y s' → Q' y s') :
    Ends x s fail' Q' := by
  rw [Ends] at h ⊢
  cases hx : x.run s with
  | ok y =>
    rw [hx] at h
    exact hok y.1 y.2 h
  | error e =>
    rw [hx] at h
    exact hfail h

theorem Ends.bind (hx : Ends x s fail Q) (hf : ∀ y s', Q y s' → Ends (f y) s' fail R) :
    Ends (x >>= f) s fail R := by
  rw [Ends, StateT.run_bind]
  cases hrun : x.run s with
  | ok y => exact hf y.1 y.2 (hx.ok hrun)
  | error e => exact hx.fails hrun

theorem ends_map {g : α → β} :
    Ends (g <$> x) s fail R ↔ Ends x s fail fun y s' => R (g y) s' := by
  rw [Ends, Ends, StateT.run_map]
  cases x.run s with
  | ok _ => exact Iff.rfl
  | error _ => exact Iff.rfl

theorem Ends.pure {y : α} (h : Q y s) : Ends (pure y) s fail Q := h

variable {r : Traversal (StateT σ (Except Error))} {ps : List Part} {P : List Part → σ → Prop}

/-- A step that goes through parts ends as these do. -/
theorem Ends.of_covers {A : α → List Part → Prop} (h : r.Covers ps x A)
    (hps : Ends (r.parts ps) s fail P) : Ends x s fail fun y s' => ∃ qs, A y qs ∧ P qs s' := by
  obtain ⟨both, rfl, hparts⟩ := h
  rw [← hparts] at hps
  rw [Ends, StateT.run_map] at hps ⊢
  cases hrun : both.run s with
  | ok y =>
    rw [hrun] at hps
    exact ⟨y.1.1.2, y.1.2, hps⟩
  | error e =>
    rw [hrun] at hps
    exact hps

theorem Ends.parts_nil (h : P [] s) : Ends (r.parts []) s fail P := h

theorem Ends.parts_cons {p : Part} {Q : Part → σ → Prop} (hp : Ends (r.part p) s fail Q)
    (hps : ∀ q s', Q q s' → Ends (r.parts ps) s' fail fun qs s'' => P (q :: qs) s'') :
    Ends (r.parts (p :: ps)) s fail P := by
  rw [Traversal.parts_cons]
  exact hp.bind fun q s' hq => ends_map.2 (hps q s' hq)

theorem ends_part_expr {kind : ExprKind} {span : Span} {Q : Part → σ → Prop} :
    Ends (r.part (.expr (.mk kind span))) s fail Q ↔
      Ends (r.visitExpr kind span) s fail fun kind' s' => Q (.expr (.mk kind' span)) s' := by
  rw [Traversal.part_expr, ends_map]

theorem ends_part_body {stmts : List Stmt} {Q : Part → σ → Prop} :
    Ends (r.part (.body stmts)) s fail Q ↔ Ends (r.stmts stmts) s fail fun l s' => Q (.body l) s' := by
  rw [Traversal.part_body, ← map_eq_pure_bind, ends_map]

/-- Statements: what becomes of the first one and what it adds, and the others. -/
theorem Ends.part_cons {kind : StmtKind} {span : Span} {rest : List Stmt}
    {Q : StmtKind × List Stmt → σ → Prop} {Q' : Part → σ → Prop}
    (h : Ends (r.visitStmt kind span) s fail Q)
    (hrest : ∀ kind' added s', Q (kind', added) s' → Ends (r.stmts rest) s' fail fun rest' s'' =>
      Q' (.body (.mk kind' span :: (added ++ rest'))) s'') :
    Ends (r.part (.body (.mk kind span :: rest))) s fail Q' := by
  rw [Traversal.part_cons]
  exact h.bind fun y s' hy => (hrest y.1 y.2 s' hy).bind fun _ _ hrest' => hrest'

/-! ## Steps that agree -/

section Agree

variable {σ α β γ δ : Type} {R : α → β → Prop} {S : γ → δ → Prop}

/-- Two ends of a step: the same error, or the same state and results that are related. -/
inductive Alike (R : α → β → Prop) : Except Error (α × σ) → Except Error (β × σ) → Prop where
  | ok {a : α} {b : β} {s : σ} : R a b → Alike R (.ok (a, s)) (.ok (b, s))
  | error {e : Error} : Alike R (.error e) (.error e)

variable {x : StateT σ (Except Error) α} {y : StateT σ (Except Error) β}
  {f : α → StateT σ (Except Error) γ} {g : β → StateT σ (Except Error) δ} {s : σ}

theorem Alike.bind (h : Alike R (x.run s) (y.run s))
    (hfg : ∀ a b s', R a b → Alike S ((f a).run s') ((g b).run s')) :
    Alike S ((x >>= f).run s) ((y >>= g).run s) := by
  rw [StateT.run_bind, StateT.run_bind]
  generalize x.run s = u at h
  generalize y.run s = v at h
  cases h with
  | ok hab => exact hfg _ _ _ hab
  | error => exact .error

theorem alike_map {f : α → γ} {g : β → δ} :
    Alike S ((f <$> x).run s) ((g <$> y).run s) ↔
      Alike (fun a b => S (f a) (g b)) (x.run s) (y.run s) := by
  rw [StateT.run_map, StateT.run_map]
  generalize x.run s = u
  generalize y.run s = v
  constructor
  · intro h
    cases u with
    | error e =>
      cases v with
      | error e' =>
        cases h
        exact .error
      | ok z => cases h
    | ok w =>
      cases v with
      | error e' => cases h
      | ok z =>
        obtain ⟨a, s₁⟩ := w
        obtain ⟨b, s₂⟩ := z
        cases h with
        | ok h => exact .ok h
  · rintro (h | _)
    · exact .ok h
    · exact .error

theorem Alike.mono {R' : α → β → Prop} {u : Except Error (α × σ)} {v : Except Error (β × σ)}
    (h : Alike R u v) (hR : ∀ a b, R a b → R' a b) : Alike R' u v := by
  cases h with
  | ok hab => exact .ok (hR _ _ hab)
  | error => exact .error

theorem Alike.same {u : Except Error (α × σ)} : Alike Eq u u := by
  cases u with
  | ok y => exact .ok rfl
  | error e => exact .error

variable {r : Traversal (StateT σ (Except Error))} {ps ps' : List Part} {A : α → List Part → Prop}
  {B : β → List Part → Prop} {P : List Part → List Part → Prop}

/-- Steps that go through parts agree if the parts do. -/
theorem Alike.of_covers (h : Alike P ((r.parts ps).run s) ((r.parts ps').run s))
    (hx : r.Covers ps x A) (hy : r.Covers ps' y B) :
    Alike (fun a b => ∃ qs qs', A a qs ∧ B b qs' ∧ P qs qs') (x.run s) (y.run s) := by
  obtain ⟨both, rfl, hparts⟩ := hx
  obtain ⟨both', rfl, hparts'⟩ := hy
  rw [← hparts, ← hparts', alike_map] at h
  rw [alike_map]
  exact h.mono fun a b hab => ⟨_, _, a.2, b.2, hab⟩

end Agree

end QueryTaint.Prepass
