import QueryTaint.Term.Solver

/-!
# Feasibility of assumptions

A path makes one assumption at each fork. `Feasibility` keeps the assumptions of the current path
in nested scopes of a solver and counts the answers.
-/

namespace QueryTaint

/-- How many assumptions were checked, how many of them were refuted, and how many were left
open. -/
structure FeasibilityStats where
  checks : Nat := 0
  pruned : Nat := 0
  unknown : Nat := 0
deriving DecidableEq, Repr, Inhabited

/-- A solver with one open scope for every live assumption. -/
structure Feasibility (ν : Type) where
  solver : Solver ν := {}
  depth : Nat := 0
  stats : FeasibilityStats := {}

namespace Feasibility

variable {ν : Type}

/-- Makes an assumption and tells whether the path stays feasible. The assumption is live until it
is retracted. A literal needs no solver. -/
def assume [Numeral ν] (f : Feasibility ν) (t : Term ν) : Bool × Feasibility ν :=
  let solver := f.solver.push.assert t
  let stats := { f.stats with checks := f.stats.checks + 1 }
  let pruned := { stats with pruned := stats.pruned + 1 }
  let next (stats : FeasibilityStats) : Feasibility ν := ⟨solver, f.depth + 1, stats⟩
  match t.asBool? with
  | some true => (true, next stats)
  | some false => (false, next pruned)
  | none =>
    match solver.check with
    | .unsat => (false, next pruned)
    | .unknown => (true, next { stats with unknown := stats.unknown + 1 })
    | .sat _ => (true, next stats)

/-- Takes the last live assumption back. -/
def retract (f : Feasibility ν) : Feasibility ν :=
  if f.depth = 0 then f else { f with solver := f.solver.pop, depth := f.depth - 1 }

end Feasibility

end QueryTaint
