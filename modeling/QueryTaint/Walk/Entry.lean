import QueryTaint.Program
import QueryTaint.Walk.Explore

/-!
# Walks through programs

The top level of a script is walked if the script, or one that is visible from it, has a function
that reads input. All walks share one budget.
-/

namespace QueryTaint

/-- What exploring a program gave: the walks, the scripts whose top levels were walked, and the
counts. -/
structure Exploration where
  walks : List Walk
  entries : List Nat
  stats : ExploreStats
  feasibility : FeasibilityStats
deriving Inhabited

namespace Program

/-- The scripts from which a function that reads input is visible. -/
def entries (p : Program) (resolver : Resolver) (readsInput : FuncId → Bool) : List Nat :=
  (List.range p.scripts.length).filter fun i =>
    (resolver.visibleOf i).any fun j =>
      match p.scripts[j]? with
      | some s => s.ordered.any readsInput
      | none => false

/-- Walks through a program from its entries. The operand of null is made for it. -/
def explore (p : Program) (limits : Limits) (readsInput : Arena → FuncId → Bool) :
    Exploration × Program :=
  let (null, arena) := p.arena.newOperand .null
  let p := { p with arena }
  let resolver := Resolver.ofScripts arena p.scripts
  let entries := p.entries resolver (readsInput arena)
  let mains := entries.filterMap fun i => (p.scripts[i]?).map (·.main)
  let e := ({} : Explorer).exploreFuncs ⟨resolver, null, limits⟩ mains
  (⟨e.found.toList, entries, e.stats, e.feasibility.stats⟩, p)

/-- Whether a function reads a request array. -/
def readsRequest (a : Arena) (func : FuncId) : Bool := (a.func func).readsInput

end Program

end QueryTaint
