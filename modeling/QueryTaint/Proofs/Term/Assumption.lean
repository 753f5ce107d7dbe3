import Mathlib.Data.List.Induction
import QueryTaint.Proofs.Walk.Scope

/-!
# Assumptions in a solver

Assumptions are made one after the other, each in a scope of its own. `Feasibility.Assumes` says
that a solver holds such a list and nothing else; making an assumption adds it at the end, and
taking one back removes the last.

As long as the terms of the list are not contradictory, the answer for a literal, which is given
without the solver, is the one that the solver would give (`feasible_eq_isFeasible`).
-/

namespace QueryTaint

section Conjuncts

variable {ν : Type}

theorem Term.conjunctsAll_append (l₁ l₂ : List (Term ν)) :
    Term.conjunctsAll (l₁ ++ l₂) = Term.conjunctsAll l₁ ++ Term.conjunctsAll l₂ := by
  induction l₁ with
  | nil => rfl
  | cons arg l₁ ih =>
    rw [List.cons_append, Term.conjunctsAll, Term.conjunctsAll, ih, List.append_assoc]

variable [Numeral ν]

theorem learnAll_append (facts : Facts ν) (decided : Bool) (l₁ l₂ : List (Term ν)) :
    learnAll facts decided (l₁ ++ l₂) =
      (learnAll facts decided l₁).bind fun known => learnAll known.1 known.2 l₂ := by
  induction l₁ generalizing facts decided with
  | nil => rfl
  | cons atom l₁ ih =>
    simp only [List.cons_append, learnAll]
    cases facts.add atom with
    | recorded facts => exact ih facts decided
    | contradiction => rfl
    | opaqueTerm => exact ih facts false

/-- Terms are refuted exactly by a contradiction between atoms. -/
theorem isFeasible_decideAll (terms : List (Term ν)) :
    (decideAll terms).isFeasible = (learnAll {} true (Term.conjunctsAll terms)).isSome := by
  unfold decideAll
  split
  · rename_i h
    rw [h]
    rfl
  · rename_i h
    rw [h]
    rfl
  · rename_i facts h
    rw [h]
    cases facts.model? <;> rfl

/-- A literal after terms that are not refuted: the terms are refuted with it if it is false. -/
theorem isFeasible_decideAll_bool {terms : List (Term ν)}
    (h : (decideAll terms).isFeasible = true) (b : Bool) :
    (decideAll (terms ++ [.bool b])).isFeasible = b := by
  rw [isFeasible_decideAll] at h ⊢
  obtain ⟨known, hknown⟩ := Option.isSome_iff_exists.1 h
  have hliteral : Term.conjunctsAll [(.bool b : Term ν)] = [.bool b] := rfl
  rw [Term.conjunctsAll_append, learnAll_append, hknown, hliteral]
  cases b <;> rfl

end Conjuncts

/-- After assumptions that are not refuted, the answer to a further one is that of the solver, also
where it is given without it. -/
theorem feasible_eq_isFeasible {assumed : List (Term Float)}
    (h : (decideAll assumed).isFeasible = true) (term : Term Float) :
    feasible assumed term = (decideAll (assumed ++ [term])).isFeasible := by
  unfold feasible
  split
  · rename_i b hbool
    obtain rfl : term = .bool b := by
      cases term <;> simp_all [Term.asBool?]
    exact (isFeasible_decideAll_bool h b).symm
  · rfl

/-- The solver in which terms were assumed in order, each in a scope of its own. -/
def Solver.assuming {ν : Type} (terms : List (Term ν)) : Solver ν :=
  terms.foldl (fun solver term => solver.push.assert term) {}

theorem Solver.assuming_concat {ν : Type} (terms : List (Term ν)) (term : Term ν) :
    Solver.assuming (terms ++ [term]) = (Solver.assuming terms).push.assert term :=
  List.foldl_concat ..

theorem Solver.assertions_assuming {ν : Type} (terms : List (Term ν)) :
    (Solver.assuming terms).assertions.toList = terms := by
  induction terms using List.reverseRecOn with
  | nil => rfl
  | append_singleton terms term ih =>
    rw [Solver.assuming_concat]
    exact Array.toList_push.trans (congrArg (· ++ [term]) ih)

namespace Feasibility

/-- Exactly these terms are assumed, in this order, and they are not refuted. -/
structure Assumes (f : Feasibility Float) (terms : List (Term Float)) : Prop where
  solver : f.solver = .assuming terms
  depth : f.depth = terms.length
  feasible : (decideAll terms).isFeasible = true

namespace Assumes

variable {f g : Feasibility Float} {terms : List (Term Float)} {term : Term Float}

theorem nil (hsolver : f.solver = {}) (hdepth : f.depth = 0) : f.Assumes [] :=
  ⟨hsolver, hdepth, rfl⟩

/-- What is counted does not matter. -/
theorem of_solver (h : f.Assumes terms) (hsolver : g.solver = f.solver)
    (hdepth : g.depth = f.depth) : g.Assumes terms :=
  ⟨hsolver.trans h.solver, hdepth.trans h.depth, h.feasible⟩

theorem assertions (h : f.Assumes terms) : f.solver.assertions.toList = terms := by
  rw [h.solver, Solver.assertions_assuming]

theorem check (h : f.Assumes terms) : f.solver.check.isFeasible = true := by
  rw [Solver.check, h.assertions]
  exact h.feasible

/-- The answer to a further assumption is the one of the solver. -/
theorem assume_eq (h : f.Assumes terms) (term : Term Float) :
    (f.assume term).1 = (f.solver.push.assert term).check.isFeasible := by
  have hasserted : (f.solver.push.assert term).assertions.toList = terms ++ [term] := by
    rw [← h.assertions]
    exact Array.toList_push
  rw [assume_eq_feasible, h.assertions, feasible_eq_isFeasible h.feasible, Solver.check, hasserted]

theorem assume (h : f.Assumes terms) (haccepted : (f.assume term).1 = true) :
    (f.assume term).2.Assumes (terms ++ [term]) := by
  refine ⟨?_, ?_, ?_⟩
  · rw [solver_assume, h.solver, Solver.assuming_concat]
  · rw [depth_assume, h.depth, List.length_append, List.length_singleton]
  · rw [← feasible_eq_isFeasible h.feasible, ← h.assertions, ← assume_eq_feasible]
    exact haccepted

/-- An assumption that is taken back at once was never made. -/
theorem retract_assume (h : f.Assumes terms) (term : Term Float) :
    (f.assume term).2.retract.Assumes terms := by
  refine h.of_solver (solver_retract (solver_assume ..) (depth_assume ..)) ?_
  rw [depth_retract, depth_assume, Nat.add_sub_cancel]

/-- Terms that are not refuted together are not refuted without the last. -/
theorem isFeasible_of_concat (h : (decideAll (terms ++ [term])).isFeasible = true) :
    (decideAll terms).isFeasible = true := by
  rw [isFeasible_decideAll, Term.conjunctsAll_append, learnAll_append] at h
  rw [isFeasible_decideAll]
  cases hknown : learnAll {} true (Term.conjunctsAll terms) with
  | none => rw [hknown] at h; exact h
  | some known => rfl

theorem retract (h : f.Assumes (terms ++ [term])) : f.retract.Assumes terms := by
  have hdepth : f.depth = terms.length + 1 := by
    rw [h.depth, List.length_append, List.length_singleton]
  have hmade : f.solver = (Solver.assuming terms).push.assert term := by
    rw [h.solver, Solver.assuming_concat]
  refine ⟨?_, ?_, isFeasible_of_concat h.feasible⟩
  · exact solver_retract (f := ⟨.assuming terms, terms.length, {}⟩) hmade hdepth
  · rw [depth_retract, hdepth, Nat.add_sub_cancel]

/-- As many assumptions as are taken back are removed from the end. -/
theorem repeat_retract {taken : List (Term Float)} (h : f.Assumes (terms ++ taken)) :
    (taken.length.repeat Feasibility.retract f).Assumes terms := by
  induction taken generalizing terms with
  | nil => exact List.append_nil terms ▸ h
  | cons term taken ih =>
    rw [List.append_cons] at h
    exact (ih h).retract

end Assumes

end Feasibility

end QueryTaint
