import QueryTaint.Proofs.Simplify.Bypass
import QueryTaint.Proofs.Simplify.Removal
import QueryTaint.Simplify.Basic

/-!
# What folding and simplifying keep

Folding functions is many steps of two kinds: an operation learns its place, and a known operation is
folded. Simplifying them is many steps of two more: a trivial φ is removed, and a block that only
jumps is bypassed. What each of these steps keeps (`Lasting`, `Enduring`) is kept by them all
(`Lasting.optimizeAll`, `Enduring.simplifyAll`).
-/

namespace QueryTaint.Arena

/-- A property of arenas that every step of folding keeps. -/
structure Lasting (P : Arena → Prop) : Prop where
  install {a : Arena} (file : Option String) {block : BlockId} {op : OpId} :
    op ∈ a.members block → P a → P (installOp file block a op)
  fold {a a' : Arena} {op : OpId} : a.foldOp? op = some a' → P a → P a'

/-- A property of arenas that every step of folding and simplifying keeps. -/
structure Enduring (P : Arena → Prop) : Prop extends Lasting P where
  remove {a : Arena} {phi : OpId} {value : Option OperandId} {result : OperandId} :
    a.trivialPhi? phi = some (value, result) → P a → P (a.removePhi phi value result)
  bypass {a : Arena} {block target pred : BlockId} {jump last : OpId} :
    a.Skippable block target pred jump last → P a → P (a.bypass block target pred last)

/-- What is kept of each function is kept of them all. -/
theorem forFuncs_keeps {P : Arena → Prop} {σ : Type} {step : Arena → FuncId → σ × Arena}
    (hstep : ∀ {a}, P a → ∀ func, P (step a func).2) {a : Arena} (ha : P a) (funcs : List FuncId) :
    P (Arena.forFuncs step a funcs).2 := by
  induction funcs generalizing a with
  | nil => exact ha
  | cons func rest ih => exact ih (hstep ha func)

/-! ## Folding -/

section Folding

variable {P : Arena → Prop} {a : Arena}
  (hfold : ∀ {a a' : Arena} {op : OpId}, a.foldOp? op = some a' → P a → P a')
include hfold

theorem foldOps_keeps (ha : P a) (count : Nat) (ops : List OpId) : P (a.foldOps count ops).2 := by
  induction ops generalizing a count with
  | nil => exact ha
  | cons op rest ih =>
    rw [Arena.foldOps]
    split
    · exact ih (hfold ‹_› ha) _
    · exact ih ha count

theorem fold_keeps (ha : P a) (func : FuncId) : P (a.fold func).2 := by
  have hround {a folded : Arena} {count : Nat} (ha : P a)
      (heq : a.foldOps 0 (a.liveOps func) = (count, folded)) : P folded := by
    have hfolded := foldOps_keeps hfold ha 0 (a.liveOps func)
    rwa [heq] at hfolded
  fun_induction Arena.fold a func with
  | case1 a folded heq => exact hround ha heq
  | case2 a count folded heq _ _ more last hmore ih =>
    have hlast := ih (hround ha heq)
    rwa [hmore] at hlast
  | case3 a count folded heq _ _ => exact hround ha heq

end Folding

namespace Lasting

variable {P : Arena → Prop} {a : Arena} (h : Lasting P)
include h

theorem installOps (ha : P a) (file : Option String) (block : BlockId) {ops : List OpId}
    (hops : ∀ op ∈ ops, op ∈ a.members block) : P (ops.foldl (installOp file block) a) := by
  induction ops generalizing a with
  | nil => exact ha
  | cons op rest ih =>
    obtain ⟨hop, hrest⟩ := List.forall_mem_cons.1 hops
    exact ih (h.install file hop ha) hrest

theorem installAll (ha : P a) (func : FuncId) : P (a.install func).2 := by
  unfold Arena.install
  generalize (a.func func).file = file
  generalize 0 = count
  induction (a.func func).blocks generalizing a count with
  | nil => exact ha
  | cons block rest ih => exact ih (h.installOps ha file block fun _ => id) _

theorem optimize (ha : P a) (func : FuncId) : P (a.optimize func).2 :=
  fold_keeps h.fold (h.installAll ha func) func

theorem optimizeAll (ha : P a) (funcs : List FuncId) : P (a.optimizeAll funcs).2 :=
  forFuncs_keeps h.optimize ha funcs

end Lasting

/-! ## Simplifying -/

namespace Enduring

variable {P : Arena → Prop} {a : Arena} (h : Enduring P)
include h

theorem removePhis (ha : P a) (count : Nat) (worklist : List OpId) :
    P (a.removePhis count worklist).2 := by
  fun_induction Arena.removePhis a count worklist with
  | case1 a count => exact ha
  | case2 a count phi rest home value result htrivial _ users next waiting _ ih =>
    exact ih (h.remove htrivial ha)
  | case3 a count phi rest home value result htrivial => exact h.remove htrivial ha
  | case4 a count phi rest _ ih => exact ih ha

theorem tryBypass (ha : P a) (s : JumpState) (block : BlockId) :
    P (Arena.tryBypass s a block).2 := by
  unfold Arena.tryBypass
  split
  · exact ha
  · rename_i target htarget
    split
    · exact ha
    · rename_i hne
      split
      · exact ha
      · rename_i pred last hpred
        obtain ⟨hlive, hphis, jump, hops, hk⟩ := jumpOnly?_eq_some htarget
        obtain ⟨hpreds, hpb, hnot, ht, hleads⟩ := bypassable?_eq_some hpred
        exact h.bypass ⟨hlive, hphis, hops, hk, hne, hpreds, hpb, hnot, ht, hleads⟩ ha

theorem tryBypasses (ha : P a) (s : JumpState) (blocks : List BlockId) :
    P (blocks.foldl (fun (s, a) block => Arena.tryBypass s a block) (s, a)).2 := by
  induction blocks generalizing a s with
  | nil => exact ha
  | cons block rest ih => exact ih (h.tryBypass ha s block) _

theorem coalesceFrom (ha : P a) (func : FuncId) (s : JumpState) :
    P (Arena.coalesceFrom func s a).2 := by
  have hround {s next : JumpState} {a changed : Arena} {blocks : List BlockId} (ha : P a)
      (heq : blocks.foldl (fun (s, a) block => Arena.tryBypass s a block) (s, a) = (next, changed)) :
      P changed := by
    have hchanged := h.tryBypasses ha s blocks
    rwa [heq] at hchanged
  fun_induction Arena.coalesceFrom func s a with
  | case1 s a f next changed heq _ => exact hround ha heq
  | case2 s a f next changed heq _ _ ih => exact ih (hround ha heq)
  | case3 s a f next changed heq _ _ => exact hround ha heq

theorem simplify (ha : P a) (func : FuncId) : P (a.simplify func).2 :=
  h.coalesceFrom (h.removePhis ha 0 (a.phisOf func)) func {}

theorem simplifyAll (ha : P a) (funcs : List FuncId) : P (a.simplifyAll funcs).2 :=
  forFuncs_keeps h.simplify ha funcs

end Enduring

end QueryTaint.Arena
