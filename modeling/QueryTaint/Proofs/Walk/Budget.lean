import QueryTaint.Proofs.Walk.Course
import QueryTaint.Proofs.Walk.Halting
import QueryTaint.Walk.Entry

/-!
# The budget of walks

A smaller budget finds a prefix of what a larger one finds. Two explorations of the same functions
that differ in their budgets are followed step by step: they are at the same instant until the
smaller budget is exceeded, and from then on the smaller one finds no more (`Lockstep`).

The flag for a budget that ran out is set where a task is given up or a walk is not kept. That the
exploration of the next function is left out without it is no loss: a run that completes a walk has
left a task that takes its block off the walk, so the flag was set by then (`Counted`).
-/

namespace QueryTaint

/-- The same program under a budget of walks. -/
def Terrain.budgeted (t : Terrain) (k : Nat) : Terrain :=
  { t with limits := ⟨t.limits.maxDepth, k⟩ }

namespace Explorer

variable {t : Terrain}

/-- What a step may do to the walks that were found and to their count: nothing, complete a walk
within the budget, or note that the budget has run out. -/
inductive Counts (t : Terrain) (e : Explorer) : Explorer → Prop
  | keep {e₁ : Explorer} (found : e₁.found = e.found) (walks : e₁.stats.walks = e.stats.walks)
      (truncated : e₁.stats.truncated = e.stats.truncated) : Counts t e e₁
  | commit {e₁ : Explorer} (hne : e.remaining t ≠ 0) (w : Walk) (found : e₁.found = e.found.push w)
      (walks : e₁.stats.walks = e.stats.walks + 1)
      (truncated : e₁.stats.truncated = e.stats.truncated) : Counts t e e₁
  | truncate {e₁ : Explorer} (hzero : e.remaining t = 0) (found : e₁.found = e.found)
      (walks : e₁.stats.walks = e.stats.walks) (truncated : e₁.stats.truncated = true) :
    Counts t e e₁

theorem counts_commit (t : Terrain) (e : Explorer) (w : Walk) : Counts t e (e.commit t w) := by
  unfold Explorer.commit
  split
  · rename_i hzero
    exact .truncate hzero rfl rfl rfl
  · rename_i hne
    exact .commit hne w rfl rfl rfl

namespace Instant

variable {m : Instant}

theorem counts_advance (t : Terrain) (m : Instant) (r : Running) :
    Counts t m.explorer (m.advance t r).explorer := by
  unfold advance
  cases r.next with
  | done w => exact counts_commit t m.explorer w
  | tasks next => exact .keep rfl rfl rfl
  | run w block index =>
    have hresult := comesAfter t m.explorer w block index
    dsimp only
    generalize m.explorer.nextAt t w block index = result at hresult ⊢
    cases hresult with
    | call hop hu hfunc hcall hplace =>
      refine .keep ?_ ?_ ?_
      · exact (congrArg (·.2.found) hcall).symm
      · exact (congrArg (·.2.stats.walks) hcall).symm
      · exact (congrArg (·.2.stats.truncated) hcall).symm
    | _ => exact .keep rfl rfl rfl

theorem counts_step (t : Terrain) (m : Instant) : Counts t m.explorer (m.step t).explorer := by
  cases hr : m.running with
  | some r =>
    rw [step_of_running hr]
    exact counts_advance t m r
  | none =>
    cases htasks : m.tasks with
    | nil =>
      rw [step_of_idle hr htasks]
      split
      · exact .keep rfl rfl rfl
      · cases m.queue <;> exact .keep rfl rfl rfl
    | cons p rest =>
      by_cases hzero : m.explorer.remaining t = 0
      · rw [step_of_spent hr htasks hzero]
        exact .truncate hzero rfl rfl rfl
      · rw [step_of_task hr htasks hzero]
        unfold perform
        cases hopened : m.explorer.opened? t p.task with
        | none =>
          obtain ⟨-, found, walks, truncated⟩ := expand_keeps hopened
          exact .keep found walks truncated
        | some opened => exact .keep rfl rfl rfl

theorem remaining_eq_zero {e : Explorer} : e.remaining t = 0 ↔ t.limits.maxWalks ≤ e.stats.walks :=
  Nat.sub_eq_zero_iff_le

/-- The walks that were found are counted, not more than the budget allows, and the flag is set only
if it has run out. -/
structure Counted (t : Terrain) (e : Explorer) : Prop where
  size : e.found.size = e.stats.walks
  within : e.stats.walks ≤ t.limits.maxWalks
  flagged : e.stats.truncated = true → e.remaining t = 0

theorem Counted.of_counts {e e₁ : Explorer} (h : Counted t e) (hcounts : Counts t e e₁) :
    Counted t e₁ := by
  obtain ⟨hsize, hwithin, hflagged⟩ := h
  rw [remaining_eq_zero] at hflagged
  cases hcounts with
  | keep found walks truncated =>
    refine ⟨by rw [found, walks, hsize], by rwa [walks], fun htrue => ?_⟩
    rw [remaining_eq_zero, walks]
    exact hflagged (truncated ▸ htrue)
  | commit hne w found walks truncated =>
    rw [ne_eq, remaining_eq_zero] at hne
    refine ⟨by rw [found, walks, Array.size_push, hsize], by omega, fun htrue => ?_⟩
    exact absurd (hflagged (truncated ▸ htrue)) hne
  | truncate hzero found walks truncated =>
    refine ⟨by rw [found, walks, hsize], by rwa [walks], fun _ => ?_⟩
    rw [remaining_eq_zero] at hzero ⊢
    rwa [walks]

theorem Counted.run (h : Counted t m.explorer) (n : Nat) : Counted t (m.run t n).explorer := by
  induction n generalizing m with
  | zero => exact h
  | succ n ih => exact ih (h.of_counts (counts_step t m))

theorem counted_start (t : Terrain) (funcs : List FuncId) :
    Counted t (start {} t funcs).explorer := by
  cases funcs <;> exact ⟨rfl, Nat.zero_le _, fun h => (by cases h)⟩

/-- A step completes at most one walk. -/
theorem size_found_run (t : Terrain) (m : Instant) (n : Nat) :
    (m.run t n).explorer.found.size ≤ m.explorer.found.size + n := by
  induction n generalizing m with
  | zero => exact Nat.le_refl _
  | succ n ih =>
    have hstep : (m.step t).explorer.found.size ≤ m.explorer.found.size + 1 := by
      cases counts_step t m with
      | keep found => rw [found]; omega
      | commit hne w found => rw [found, Array.size_push]
      | truncate hzero found => rw [found]; omega
    have hrun := ih (m.step t)
    rw [run_succ]
    omega

/-- A run leaves tasks to be done after it, and no function is left out without the flag. -/
structure Left (t : Terrain) (m : Instant) : Prop where
  after : ∀ r, m.running = some r → r.after ≠ []
  idle : m.running = none → m.tasks = [] → m.explorer.remaining t = 0 →
    m.explorer.stats.truncated = true ∨ m.queue = []

theorem Left.start (t : Terrain) (funcs : List FuncId) : (start {} t funcs).Left t := by
  cases funcs with
  | nil => exact ⟨fun r hr => (by cases hr), fun _ _ _ => .inr rfl⟩
  | cons func queue => exact ⟨fun r hr => (by cases hr), fun _ htasks => (by cases htasks)⟩

theorem Left.advance (h : m.Left t) {r : Running} (hr : m.running = some r) :
    (m.advance t r).Left t := by
  have hafter := h.after r hr
  unfold Instant.advance
  cases r.next with
  | done w =>
    refine ⟨fun r hr => (by cases hr), fun _ htasks => ?_⟩
    exact absurd (List.append_eq_nil_iff.1 htasks).1 hafter
  | tasks next =>
    refine ⟨fun r hr => (by cases hr), fun _ htasks => ?_⟩
    exact absurd (List.append_eq_nil_iff.1 (List.append_eq_nil_iff.1 htasks).2).1 hafter
  | run w block index =>
    refine ⟨fun r' hr' => ?_, fun hr' => (by cases hr')⟩
    obtain rfl := Option.some.inj hr'
    exact fun hnil => hafter (List.append_eq_nil_iff.1 hnil).2

theorem Left.step (h : m.Left t) : (m.step t).Left t := by
  cases hr : m.running with
  | some r =>
    rw [step_of_running hr]
    exact h.advance hr
  | none =>
    cases htasks : m.tasks with
    | nil =>
      rw [step_of_idle hr htasks]
      split
      · exact ⟨fun r hr => (by cases hr), fun _ _ _ => .inr rfl⟩
      · rename_i hne
        cases m.queue with
        | nil => exact ⟨fun r hr => (by cases hr), fun _ _ hzero => absurd hzero hne⟩
        | cons func queue =>
          exact ⟨fun r hr => (by cases hr), fun _ htasks => (by cases htasks)⟩
    | cons p rest =>
      by_cases hzero : m.explorer.remaining t = 0
      · rw [step_of_spent hr htasks hzero]
        exact ⟨fun r hr => (by cases hr), fun _ _ _ => .inl rfl⟩
      · rw [step_of_task hr htasks hzero]
        unfold Instant.perform
        cases hopened : m.explorer.opened? t p.task with
        | none =>
          obtain ⟨-, -, hwalks, -⟩ := expand_keeps hopened
          refine ⟨fun r hr' => ?_, fun _ _ hspent => ?_⟩
          · rw [show _ = none from hr] at hr'
            cases hr'
          · rw [remaining_eq_zero] at hzero hspent
            exact absurd (hwalks ▸ hspent) hzero
        | some opened =>
          refine ⟨fun r hr' => ?_, fun hr' => (by cases hr')⟩
          obtain rfl := Option.some.inj hr'
          exact List.cons_ne_nil _ _

theorem Left.run (h : m.Left t) (n : Nat) : (m.run t n).Left t := by
  induction n generalizing m with
  | zero => exact h
  | succ n ih => exact ih h.step

end Instant

/-! ## What the budget has no part in -/

section Budgeted

variable {k l : Nat}

theorem bindParams_budgeted (args : List OperandId) (w : Walk) (params : List OpId) :
    bindParams (t.budgeted k) args w params = bindParams (t.budgeted l) args w params := by
  induction params generalizing args w with
  | nil => rfl
  | cons param params ih => exact ih _ _

theorem enterCall_budgeted (e : Explorer) (w : Walk) (op : OpId) (func : FuncId) (block : BlockId)
    (index : Nat) :
    e.enterCall (t.budgeted k) w op func block index =
      e.enterCall (t.budgeted l) w op func block index := by
  unfold enterCall
  dsimp only
  rw [bindParams_budgeted (l := l)]
  rfl

theorem nextAt_budgeted (e : Explorer) (w : Walk) (block : BlockId) (index : Nat) :
    e.nextAt (t.budgeted k) w block index = e.nextAt (t.budgeted l) w block index := by
  have hrunOp (op : OpId) :
      e.runOp (t.budgeted k) w block index op = e.runOp (t.budgeted l) w block index op := by
    unfold runOp
    dsimp only
    simp only [enterCall_budgeted (k := k) (l := l)]
    rfl
  unfold nextAt
  simp only [hrunOp]
  rfl

theorem expand_budgeted {e : Explorer} {task : Task}
    (hopened : e.opened? (t.budgeted k) task = none) :
    e.expand (t.budgeted k) task = e.expand (t.budgeted l) task := by
  cases task with
  | leave | retract | branch => rfl
  | enter w block source =>
    unfold Explorer.expand Explorer.enter
    dsimp only [opened?] at hopened ⊢
    split at hopened
    · rename_i hor
      rw [Bool.or_eq_true, decide_eq_true_eq] at hor
      by_cases hdead : (t.arena.block block).dead = true
      · exact (if_pos hdead).trans (if_pos hdead).symm
      · have hseen := hor.resolve_left hdead
        refine (if_neg hdead).trans (Eq.trans ?_ (if_neg hdead).symm)
        exact (if_pos hseen).trans (if_pos hseen).symm
    · cases hopened

namespace Instant

variable {m : Instant}

theorem perform_budgeted (p : Logged) (rest : List Logged) :
    m.perform (t.budgeted k) p rest = m.perform (t.budgeted l) p rest := by
  have hsame : m.explorer.opened? (t.budgeted k) p.task =
      m.explorer.opened? (t.budgeted l) p.task := rfl
  unfold Instant.perform
  cases hopened : m.explorer.opened? (t.budgeted k) p.task with
  | some opened =>
    rw [← hsame, hopened]
  | none =>
    rw [← hsame, hopened]
    dsimp only
    rw [expand_budgeted hopened]

theorem advance_budgeted {r : Running}
    (h : ∀ w, r.next = .done w →
      m.explorer.remaining (t.budgeted k) ≠ 0 ∧ m.explorer.remaining (t.budgeted l) ≠ 0) :
    m.advance (t.budgeted k) r = m.advance (t.budgeted l) r := by
  unfold Instant.advance
  cases hnext : r.next with
  | done w =>
    obtain ⟨hk, hl⟩ := h w hnext
    unfold commit
    dsimp only
    rw [if_neg hk, if_neg hl, if_neg hk, if_neg hl]
  | tasks next => rfl
  | run w block index =>
    dsimp only
    rw [nextAt_budgeted]
    rfl

/-! ## Two budgets -/

/-- Under a smaller budget and a larger one, exploring is at the same instant, or the smaller budget
has run out and its walks are the first ones of the others. -/
def Lockstep (k : Nat) (small large : Instant) : Prop :=
  small = large ∨
    small.explorer.stats.truncated = true ∧ k ≤ small.explorer.stats.walks ∧
      k ≤ large.explorer.found.size ∧
      small.explorer.found.toList = large.explorer.found.toList.take k

/-- The smaller budget has run out in the state in which both were. -/
theorem lockstep_of_spent {small large : Instant} (h : Counted (t.budgeted k) m.explorer)
    (hzero : m.explorer.remaining (t.budgeted k) = 0)
    (hsmall : small.explorer.found = m.explorer.found)
    (hwalks : small.explorer.stats.walks = m.explorer.stats.walks)
    (htruncated : small.explorer.stats.truncated = true)
    (hlarge : m.explorer.found.toList <+: large.explorer.found.toList) :
    Lockstep k small large := by
  have hk : k ≤ m.explorer.stats.walks := remaining_eq_zero.1 hzero
  have hsize : m.explorer.found.toList.length = k := by
    have hwithin : m.explorer.stats.walks ≤ k := h.within
    rw [Array.length_toList, h.size]
    omega
  have htake : large.explorer.found.toList.take k = m.explorer.found.toList := by
    rw [← hsize]
    exact (List.prefix_iff_eq_take.1 hlarge).symm
  refine .inr ⟨htruncated, by rwa [hwalks], ?_, by rw [hsmall, htake]⟩
  rw [← hsize, ← Array.length_toList]
  exact hlarge.length_le

theorem found_prefix_step (t : Terrain) (m : Instant) :
    m.explorer.found.toList <+: (m.step t).explorer.found.toList := by
  cases counts_step t m with
  | keep found | truncate hzero found => exact found ▸ List.prefix_rfl
  | commit hne w found =>
    rw [found, Array.toList_push]
    exact List.prefix_append ..

/-- A smaller budget that has run out stays so. -/
theorem lockstep_step_of_cut {small large : Instant}
    (htruncated : small.explorer.stats.truncated = true) (hwalks : k ≤ small.explorer.stats.walks)
    (hsize : k ≤ large.explorer.found.size)
    (hfound : small.explorer.found.toList = large.explorer.found.toList.take k) :
    Lockstep k (small.step (t.budgeted k)) (large.step (t.budgeted l)) := by
  have hprefix := found_prefix_step (t.budgeted l) large
  have hle : k ≤ large.explorer.found.toList.length := hsize
  have htake : (large.step (t.budgeted l)).explorer.found.toList.take k =
      large.explorer.found.toList.take k := by
    obtain ⟨more, hmore⟩ := hprefix
    rw [← hmore, List.take_append_of_le_length hle]
  refine .inr ?_
  have hle' : k ≤ (large.step (t.budgeted l)).explorer.found.size :=
    Nat.le_trans hle hprefix.length_le
  rw [htake]
  cases counts_step (t.budgeted k) small with
  | keep found walks truncated =>
    exact ⟨by rw [truncated, htruncated], by rwa [walks], hle', by rw [found, hfound]⟩
  | commit hne => exact absurd (remaining_eq_zero.2 hwalks) hne
  | truncate hzero found walks truncated =>
    exact ⟨truncated, by rwa [walks], hle', by rw [found, hfound]⟩

/-- Both budgets allow the same step, or the smaller one runs out in it. -/
theorem lockstep_step (hkl : k ≤ l) (hcounted : Counted (t.budgeted k) m.explorer)
    (hleft : m.Left (t.budgeted k)) :
    Lockstep k (m.step (t.budgeted k)) (m.step (t.budgeted l)) := by
  have hprefix := found_prefix_step (t.budgeted l) m
  by_cases hzero : m.explorer.remaining (t.budgeted k) = 0
  · cases hr : m.running with
    | some r =>
      rw [step_of_running hr] at hprefix ⊢
      rw [step_of_running hr]
      by_cases hdone : ∃ w, r.next = .done w
      · obtain ⟨w, hw⟩ := hdone
        have hcommit : (m.advance (t.budgeted k) r).explorer = m.explorer.truncate := by
          rw [Instant.advance, hw]
          exact if_pos hzero
        refine lockstep_of_spent hcounted hzero ?_ ?_ ?_ hprefix <;> rw [hcommit] <;> rfl
      · exact .inl (advance_budgeted fun w hw => absurd ⟨w, hw⟩ hdone)
    | none =>
      cases htasks : m.tasks with
      | cons p rest =>
        rw [step_of_spent hr htasks hzero]
        exact lockstep_of_spent hcounted hzero rfl rfl rfl hprefix
      | nil =>
        rcases hleft.idle hr htasks hzero with htruncated | hqueue
        · rw [step_of_idle hr htasks, if_pos hzero]
          exact lockstep_of_spent hcounted hzero rfl rfl htruncated hprefix
        · refine .inl ?_
          rw [step_of_idle hr htasks, step_of_idle hr htasks, if_pos hzero, hqueue]
          exact (ite_self _).symm
  · have hne : m.explorer.remaining (t.budgeted l) ≠ 0 := by
      rw [remaining_eq_zero] at hzero
      rw [ne_eq, remaining_eq_zero]
      exact fun hle => hzero (Nat.le_trans hkl hle)
    refine .inl ?_
    cases hr : m.running with
    | some r =>
      rw [step_of_running hr, step_of_running hr]
      exact advance_budgeted fun _ _ => ⟨hzero, hne⟩
    | none =>
      cases htasks : m.tasks with
      | nil =>
        rw [step_of_idle hr htasks, step_of_idle hr htasks, if_neg hzero, if_neg hne]
        cases m.queue <;> rfl
      | cons p rest =>
        rw [step_of_task hr htasks hzero, step_of_task hr htasks hne, perform_budgeted]

theorem lockstep_run (hkl : k ≤ l) (t : Terrain) (funcs : List FuncId) (n : Nat) :
    Lockstep k ((start {} (t.budgeted k) funcs).run (t.budgeted k) n)
      ((start {} (t.budgeted l) funcs).run (t.budgeted l) n) := by
  induction n with
  | zero => exact .inl (by cases funcs <;> rfl)
  | succ n ih =>
    have hcounted := (counted_start (t.budgeted k) funcs).run n
    have hleft := (Left.start (t.budgeted k) funcs).run n
    rw [run_succ_last, run_succ_last]
    rcases ih with heq | ⟨htruncated, hwalks, hsize, hfound⟩
    · rw [← heq]
      exact lockstep_step hkl hcounted hleft
    · exact lockstep_step_of_cut htruncated hwalks hsize hfound

end Instant

end Budgeted

/-- From some budget on, exploring finds the same walks and never runs out; any other one finds the
first of them, and all of them unless the flag says that it ran out. -/
theorem found_budgeted (t : Terrain) (funcs : List FuncId) : ∃ (all : List Walk) (enough : Nat),
    ∀ k, let e := ({} : Explorer).exploreFuncs (t.budgeted k) funcs
      (enough ≤ k → e.found.toList = all ∧ e.stats.truncated = false) ∧
        e.found.toList = all.take (min k all.length) ∧
        (e.stats.truncated = false → e.found.toList = all) := by
  obtain ⟨n, hn⟩ := Instant.halts_start t.resolver t.null funcs
  let last (k : Nat) : Instant := (Instant.start {} (t.budgeted k) funcs).run (t.budgeted k) n
  have hlast (k : Nat) : (last k).explorer = ({} : Explorer).exploreFuncs (t.budgeted k) funcs :=
    (hn ⟨t.limits.maxDepth, k⟩ {} [] rfl).explorer_eq
  have hcounted (k : Nat) : Instant.Counted (t.budgeted k) (last k).explorer :=
    (Instant.counted_start (t.budgeted k) funcs).run n
  -- a step completes at most one walk, so a budget of more than all steps never runs out
  have hsize (k : Nat) : (last k).explorer.found.toList.length ≤ n := by
    have hle := Instant.size_found_run (t.budgeted k) (Instant.start {} (t.budgeted k) funcs) n
    have hempty : (Instant.start {} (t.budgeted k) funcs).explorer.found.size = 0 := by
      cases funcs <;> rfl
    rwa [hempty, Nat.zero_add] at hle
  have hwalks (k : Nat) : (last k).explorer.stats.walks ≤ n := by
    rw [← (hcounted k).size]
    exact hsize k
  have hflag (k : Nat) (hk : n + 1 ≤ k) : (last k).explorer.stats.truncated = false := by
    refine Bool.eq_false_iff.2 fun htrue => ?_
    have hle : k ≤ (last k).explorer.stats.walks :=
      Instant.remaining_eq_zero.1 ((hcounted k).flagged htrue)
    exact absurd (Nat.le_trans hk (Nat.le_trans hle (hwalks k))) (Nat.lt_irrefl n)
  have hsame (k : Nat) (hk : n + 1 ≤ k) : last (n + 1) = last k := by
    refine (Instant.lockstep_run hk t funcs n).resolve_right fun hcut => ?_
    exact absurd (Nat.le_trans hcut.2.1 (hwalks (n + 1))) (Nat.lt_irrefl n)
  refine ⟨(last (n + 1)).explorer.found.toList, n + 1, fun k => ?_⟩
  dsimp only
  rw [← hlast k]
  refine ⟨fun hk => ⟨by rw [hsame k hk], hflag k hk⟩, ?_⟩
  rcases Nat.le_total k (n + 1) with hk | hk
  · rcases Instant.lockstep_run hk t funcs n with heq | ⟨htruncated, -, hle, hfound⟩
    · have heq : last k = last (n + 1) := heq
      have hwithin : (last k).explorer.found.toList.length ≤ k := by
        rw [Array.length_toList, (hcounted k).size]
        exact (hcounted k).within
      rw [← heq, Nat.min_eq_right hwithin, List.take_length]
      exact ⟨rfl, fun _ => rfl⟩
    · have hmin : min k (last (n + 1)).explorer.found.toList.length = k := Nat.min_eq_left hle
      rw [hmin]
      exact ⟨hfound, fun hfalse => absurd (htruncated.symm.trans hfalse) Bool.true_eq_false.mp⟩
  · have hwithin := Nat.le_trans (hsize k) (Nat.le_trans (Nat.le_succ n) hk)
    rw [hsame k hk, Nat.min_eq_right hwithin, List.take_length]
    exact ⟨rfl, fun _ => rfl⟩

end Explorer

namespace Program

/-- The budget of walks only cuts off a prefix. There are walks that exploring a program gives under
every budget from some number on, none of which runs out; and under each budget `k` it gives exactly
the first `min k n` of these `n` walks, from all entries together, and all of them if the flag does
not say that the budget ran out. -/
theorem walks_explore_eq_take (p : Program) (maxDepth : Nat)
    (readsInput : Arena → FuncId → Bool) : ∃ (all : List Walk) (enough : Nat),
    ∀ k, let r := (p.explore ⟨maxDepth, k⟩ readsInput).1
      (enough ≤ k → r.walks = all ∧ r.stats.truncated = false) ∧
        r.walks = all.take (min k all.length) ∧
        (r.stats.truncated = false → r.walks = all) := by
  let resolver : Resolver := Resolver.ofScripts (p.arena.newOperand .null).2 p.scripts
  let t : Terrain := ⟨resolver, (p.arena.newOperand .null).1, ⟨maxDepth, 0⟩⟩
  let inner : Program := { p with arena := (p.arena.newOperand .null).2 }
  exact Explorer.found_budgeted t
    ((inner.entries resolver (readsInput (p.arena.newOperand .null).2)).filterMap fun i =>
      (p.scripts[i]?).map (·.main))

/-- A page whose top level has a loop. -/
def loopPage : Program := { arena := Explorer.loopArena, scripts := [.ofMain "a.php" ⟨0⟩] }

/-- A budget of one walk gives the walk through the loop, a larger one also the walk past it. -/
example : ∀ k ∈ [1, 2, 3],
    (loopPage.explore ⟨5, k⟩ fun _ _ => true).1.walks.map (·.events.size) = [5, 3].take k := by
  intro k hk
  have hentries : (loopPage.explore ⟨5, k⟩ fun _ _ => true).1.entries = [0] := by cbv
  unfold explore at hentries ⊢
  dsimp only at hentries ⊢
  rw [hentries]
  refine Explorer.exploreFuncs_of_idle 40 (P := fun e =>
    e.found.toList.map (·.events.size) = [5, 3].take k) ?_
  revert k
  decide +kernel

end Program

end QueryTaint
