import Mathlib.Algebra.Order.BigOperators.Group.List
import Mathlib.Algebra.Order.Group.Nat
import QueryTaint.Proofs.Walk.Instant
import QueryTaint.Proofs.Walk.Nesting

/-!
# Exploring comes to an end

From every instant, exploring halts after a number of steps that depends on the program alone, not
on how deep calls may go or how many walks may be made (`Instant.halts_start`).

The costs of the recursive exploration go down with every operation, but they count walks of a
limited depth. A call is followed only out of a function that belongs to a script, and no function
has two open calls, so the number of such functions limits the depth as well (`Terrain.capped`), and
the costs are taken there. What a cost leads to is a tree of tasks, where a task has at most as many
others below it as an operation has ways out (`Arena.fan`); `stepBound` counts the steps of such a
tree, together with those that take places and assumptions off again.

The rest of the stack is a continuation: a task `Takes` some steps if the tasks below it are done
after so many more, whatever they are.
-/

namespace QueryTaint

/-- How many ways out all operations have together. -/
def Arena.fan (a : Arena) : Nat := (a.ops.toList.map fun op => (Explorer.exits op.kind).length).sum

theorem Arena.length_exits_le_fan (a : Arena) (op : OpId) :
    (Explorer.exits (a.op op).kind).length ≤ a.fan := by
  unfold Arena.op
  by_cases h : op.index < a.ops.size
  · rw [Array.getD_eq_getD_getElem?, Array.getElem?_eq_getElem h, Option.getD_some]
    refine List.single_le_sum (fun _ _ => Nat.zero_le _) _
      (List.mem_map.2 ⟨a.ops[op.index], ?_, rfl⟩)
    exact Array.getElem_mem_toList h
  · rw [Array.getD_eq_getD_getElem?, Array.getElem?_eq_none (Nat.le_of_not_lt h)]
    exact Nat.zero_le _

/-- The same program with room for every chain of calls that can be open. -/
def Terrain.capped (t : Terrain) : Terrain :=
  { t with limits := ⟨t.resolver.owners.size + 1, 0⟩ }

namespace Explorer

variable {t : Terrain} {e : Explorer}

theorem length_reenter_le (t : Terrain) (e : Explorer) (w : Walk) (block : BlockId) :
    (e.reenter t w block).2.length ≤ t.arena.fan := by
  unfold reenter
  dsimp only
  rw [List.length_map]
  refine Nat.le_trans (List.length_filter_le ..) ?_
  split
  · exact t.arena.length_exits_le_fan _
  · exact Nat.zero_le _

/-- In how many steps a task or a run is done whose cost is below a number, in a program whose
operations have so many ways out. -/
def stepBound (fan : Nat) : Nat → Nat
  | 0 => 2
  | n + 1 => (fan + 1) * (stepBound fan n + 4) + 2

namespace Instant

variable {m : Instant} {n k : Nat}

/-! ## Halting -/

/-- Nothing is left to be done, and nothing is assumed or on the walk. -/
structure Rests (m : Instant) : Prop where
  running : m.running = none
  tasks : m.tasks = []
  queue : m.queue = []
  reset : m.explorer.reset = m.explorer

/-- There is nothing left to be done after a number of steps. -/
def Halts (t : Terrain) (n : Nat) (m : Instant) : Prop := (m.run t n).Rests

theorem Rests.step (h : m.Rests) (t : Terrain) : m.step t = m := by
  obtain ⟨e, running, tasks, queue, completed⟩ := m
  obtain ⟨rfl, rfl, rfl, hreset⟩ := h
  rw [step_of_idle rfl rfl]
  dsimp only at hreset ⊢
  rw [hreset]
  exact ite_self _

theorem Rests.run (h : m.Rests) (t : Terrain) (n : Nat) : m.run t n = m :=
  Function.iterate_fixed (h.step t) n

theorem Rests.finish (h : m.Rests) (t : Terrain) : m.finish t = m.explorer := by
  rw [finish_idle h.running h.tasks, h.queue, h.reset, exploreFuncs]
  exact ite_self _

namespace Halts

theorem of_step (h : Halts t n (m.step t)) : Halts t (n + 1) m := h

theorem mono (h : Halts t n m) (hle : n ≤ k) : Halts t k m := by
  obtain ⟨d, rfl⟩ := Nat.exists_eq_add_of_le hle
  unfold Halts
  rw [run_add, Rests.run h t d]
  exact h

/-- Once the budget has run out, what is on the stack and in the queue is given up. -/
theorem of_spent (h : m.running = none) (hzero : m.explorer.remaining t = 0) : Halts t 2 m := by
  have hidle (m : Instant) (h : m.running = none) (htasks : m.tasks = [])
      (hzero : m.explorer.remaining t = 0) : Halts t 1 m := by
    refine of_step ?_
    rw [step_of_idle h htasks, if_pos hzero]
    exact ⟨rfl, rfl, rfl, Stage.reset_reset _⟩
  cases htasks : m.tasks with
  | nil => exact (hidle m h htasks hzero).mono (by omega)
  | cons p rest =>
    refine of_step ?_
    rw [step_of_spent h htasks hzero]
    exact hidle _ rfl rfl hzero

end Halts

/-! ## Tasks and the tasks below them -/

/-- An instant with some work in front of it, where the places of an explorer are on the walk. -/
structure At (m : Instant) (e : Explorer) (running : Option Running) (tasks : List Logged)
    (queue : List FuncId) : Prop where
  running : m.running = running
  tasks : m.tasks = tasks
  queue : m.queue = queue
  places : m.explorer.places = e.places
  invocations : e.invocations ≤ m.explorer.invocations

/-- Tasks and functions are done in a number of steps. -/
def Clears (t : Terrain) (n : Nat) (e : Explorer) (tasks : List Logged) (queue : List FuncId) :
    Prop :=
  ∀ m : Instant, m.At e none tasks queue → m.Halts t n

/-- A task is done in a number of steps, whatever is below it. -/
def Takes (t : Terrain) (n : Nat) (e : Explorer) (p : Logged) : Prop :=
  ∀ k rest queue, Clears t k e rest queue → Clears t (n + k) e (p :: rest) queue

/-- A run comes to its end, and what it leads to is done, in a number of steps. -/
def Goes (t : Terrain) (n : Nat) (e : Explorer) (next : Next) : Prop :=
  ∀ k trace after rest queue, Clears t k e (after ++ rest) queue →
    ∀ m : Instant, m.At e (some ⟨next, trace, after⟩) rest queue → m.Halts t (n + k)

variable {p : Logged} {rest : List Logged} {queue : List FuncId} {next : Next}

theorem Clears.mono (h : Clears t n e rest queue) (hle : n ≤ k) : Clears t k e rest queue :=
  fun m hm => (h m hm).mono hle

theorem Takes.mono (h : Takes t n e p) (hle : n ≤ k) : Takes t k e p :=
  fun j rest queue hrest => (h j rest queue hrest).mono (Nat.add_le_add_right hle j)

theorem Goes.mono (h : Goes t n e next) (hle : n ≤ k) : Goes t k e next :=
  fun j trace after rest queue hrest m hm =>
    (h j trace after rest queue hrest m hm).mono (Nat.add_le_add_right hle j)

/-- A task costs two steps more than what it leads to, or the budget has run out. -/
theorem clears_cons
    (h : ∀ m : Instant, m.At e none (p :: rest) queue → (m.perform t p rest).Halts t n) :
    Clears t (n + 2) e (p :: rest) queue := by
  intro m hm
  by_cases hzero : m.explorer.remaining t = 0
  · exact (Halts.of_spent hm.running hzero).mono (by omega)
  · have hstep : Halts t (n + 1) m := by
      refine .of_step ?_
      rw [step_of_task hm.running hm.tasks hzero]
      exact h m hm
    exact hstep.mono (by omega)

/-- Tasks that are alike are done one after the other. -/
theorem clears_append {ps : List Logged} (hps : ∀ p ∈ ps, Takes t n e p)
    (hrest : Clears t k e rest queue) :
    Clears t (ps.length * n + k) e (ps ++ rest) queue := by
  induction ps with
  | nil => rwa [List.length_nil, Nat.zero_mul, Nat.zero_add]
  | cons p ps ih =>
    have htail := ih fun p hp => hps p (List.mem_cons_of_mem _ hp)
    have hhead := hps p List.mem_cons_self _ _ _ htail
    refine hhead.mono ?_
    rw [List.length_cons, Nat.succ_mul]
    omega

/-- A place is on the walk until the task that takes it off is done. -/
theorem clears_leave {place : Place} (h : Clears t k e rest queue) (trace : Trace) :
    Clears t (k + 2) (e.visit place).1 (⟨.leave place, trace⟩ :: rest) queue := by
  refine clears_cons fun m hm => h _ ⟨hm.running, rfl, hm.queue, ?_, hm.invocations⟩
  have hplaces : m.explorer.places = place :: e.places := hm.places
  exact (congrArg (List.erase · place) hplaces).trans (List.erase_cons_head ..)

theorem takes_retract (t : Terrain) (e : Explorer) (trace : Trace) :
    Takes t 2 e ⟨.retract, trace⟩ := by
  intro k rest queue h
  refine Clears.mono (n := k + 2) (clears_cons fun m hm => ?_) (by omega)
  exact h _ ⟨hm.running, rfl, hm.queue, hm.places, hm.invocations⟩

/-- An arm of a fork is entered, or it is not feasible. -/
theorem takes_branch {w : Walk} {term : Term Float} {choice : Choice} {target source : BlockId}
    {trace : Trace}
    (h : ∀ trace, Takes t n e ⟨.enter (w.choose choice) target (some source), trace⟩) :
    Takes t (n + 4) e ⟨.branch w term choice target source, trace⟩ := by
  intro k rest queue hrest
  have hclears (traces : Trace × Trace) :=
    h traces.1 _ _ _ (takes_retract t e traces.2 _ _ _ hrest)
  refine Clears.mono (n := n + (2 + k) + 2) (clears_cons fun m hm => ?_) (by omega)
  unfold perform
  dsimp only [opened?, expand]
  split
  · exact hclears ⟨_, _⟩ _ ⟨hm.running, rfl, hm.queue, hm.places, hm.invocations⟩
  · refine Halts.mono (n := k) (hrest _ ⟨hm.running, ?_, hm.queue, ?_, ?_⟩) (by omega)
    · rfl
    · exact hm.places
    · exact hm.invocations

/-! ## Runs -/

theorem goes_done (t : Terrain) (e : Explorer) (w : Walk) : Goes t 1 e (.done w) := by
  intro k trace after rest queue hrest m hm
  refine (Halts.of_step (n := k) ?_).mono (by omega)
  rw [step_of_running hm.running, advance]
  refine hrest _ ⟨rfl, by rw [hm.tasks], hm.queue, ?_, ?_⟩
  · exact (Passes.commit t m.explorer w).places.trans hm.places
  · exact Nat.le_trans hm.invocations (Passes.commit t m.explorer w).invocations

theorem goes_tasks {tasks : List Task} (h : ∀ task ∈ tasks, ∀ trace, Takes t n e ⟨task, trace⟩) :
    Goes t (tasks.length * n + 1) e (.tasks tasks) := by
  intro k trace after rest queue hrest m hm
  have hclears : Clears t (tasks.length * n + k) e
      (tasks.map (⟨·, trace⟩) ++ (after ++ rest)) queue := by
    have htakes : ∀ p ∈ tasks.map (⟨·, trace⟩ : Task → Logged), Takes t n e p := by
      intro p hp
      obtain ⟨task, htask, rfl⟩ := List.mem_map.1 hp
      exact h task htask trace
    have happend := clears_append htakes hrest
    rwa [List.length_map] at happend
  refine (Halts.of_step (n := tasks.length * n + k) ?_).mono (by omega)
  rw [step_of_running hm.running, advance]
  exact hclears _ ⟨rfl, by rw [hm.tasks], hm.queue, hm.places, hm.invocations⟩

theorem Clears.congr {e₁ : Explorer} (h : Clears t n e rest queue) (hplaces : e₁.places = e.places)
    (hinvocations : e.invocations ≤ e₁.invocations) : Clears t n e₁ rest queue :=
  fun m hm => h m ⟨hm.running, hm.tasks, hm.queue, hm.places.trans hplaces,
    Nat.le_trans hinvocations hm.invocations⟩

/-! ## Costs and steps -/

/-- What entering a block costs at most, with all that can come after it. -/
def enterCost (t : Terrain) (s : Scope) (w : Walk) (block : BlockId) : Nat :=
  t.capped.intoCost s.seen block * t.capped.weight w.frames.length
    + t.capped.callersCost w.frames s.callers

/-- What running from a place costs at most, with all that can come after it. -/
def runCost (t : Terrain) (s : Scope) (w : Walk) (block : BlockId) (index : Nat) : Nat :=
  t.capped.fromCost s.seen block index * t.capped.weight w.frames.length
    + t.capped.callersCost w.frames s.callers

/-- Whatever has a cost below a number is done in the steps for that number. -/
structure Bounded (t : Terrain) (n : Nat) : Prop where
  enter : ∀ {e : Explorer} {s : Scope} {w : Walk} {block : BlockId} (source : Option BlockId)
    (trace : Trace), e.Tracks w.openInvocations s → w.Nests t → enterCost t s w block < n →
    Takes t (stepBound t.arena.fan n) e ⟨.enter w block source, trace⟩
  run : ∀ {e : Explorer} {s : Scope} {w : Walk} {block : BlockId} {index : Nat},
    e.Tracks w.openInvocations s → w.Nests t → runCost t s w block index < n →
    Goes t (stepBound t.arena.fan n) e (.run w block index)

theorem bounded_zero (t : Terrain) : Bounded t 0 :=
  ⟨fun _ _ _ _ h => absurd h (Nat.not_lt_zero _), fun _ _ h => absurd h (Nat.not_lt_zero _)⟩

/-- A scope that fits an explorer fits others with the same places. -/
theorem tracks_of_places {ids : List Nat} {s : Scope} {e₁ : Explorer} (h : e.Tracks ids s)
    (hplaces : e₁.places = e.places) (hinvocations : e.invocations ≤ e₁.invocations) :
    e₁.Tracks ids { s with assumed := e₁.feasibility.solver.assertions.toList } := by
  refine ⟨rfl, by rw [hplaces]; exact h.marked, h.nodup,
    fun i hi => Nat.lt_of_lt_of_le (h.opened i hi) hinvocations, fun p hp => ?_⟩
  rw [hplaces] at hp
  exact Nat.lt_of_lt_of_le (h.placed p hp) hinvocations

section Step

variable (hbound : Bounded t n) {s : Scope} {w : Walk} {block : BlockId}
include hbound

/-- A return goes on in the caller, or the walk is complete. -/
theorem Bounded.back {index : Nat} (htracks : e.Tracks w.openInvocations s) (hnests : w.Nests t)
    (hcost : runCost t s w block index < n + 1) (via : Option OpId) (value : Option OperandId) :
    Goes t (stepBound t.arena.fan n + 1) e (unwind t w via value) := by
  unfold unwind
  cases hframes : w.frames with
  | nil => exact (goes_done t e w).mono (by omega)
  | cons frame rest =>
    rw [Walk.openInvocations, hframes] at htracks
    obtain ⟨seen, callers, hcallers⟩ : ∃ seen callers, s.callers = seen :: callers := by
      have hlength := htracks.marked.length_eq
      simp only [List.map_cons, List.length_cons, List.length_map] at hlength
      exact List.exists_cons_of_length_eq_add_one (n := rest.length) (by omega)
    have hback : runCost t { s with seen, callers } (leaveCall t w frame rest via value)
        frame.resumeBlock frame.resumeIndex < n := by
      have hlt := t.capped.back_cost_lt s.seen block index w.frames.length
        (t.capped.callersCost w.frames s.callers)
      have hcallersCost : t.capped.callersCost w.frames s.callers =
          runCost t { s with seen, callers } (leaveCall t w frame rest via value)
            frame.resumeBlock frame.resumeIndex := by
        rw [hframes, hcallers, Terrain.callersCost, runCost, frames_leaveCall]
      rw [runCost] at hcost
      omega
    refine Goes.mono (hbound.run ?_ (nests_leaveCall hnests hframes via value) hback) (by omega)
    rw [openInvocations_leaveCall]
    exact htracks.back hcallers

/-- Tasks that lead out of a block enter blocks at a lower cost. -/
theorem Bounded.out {index : Nat} {op : OpId} (hop : (t.arena.block block).ops[index]? = some op)
    (htracks : e.Tracks w.openInvocations s) (hnests : w.Nests t)
    (hcost : runCost t s w block index < n + 1) {task : Task} (htask : LeadsOut w block task)
    (trace : Trace) : Takes t (stepBound t.arena.fan n + 4) e ⟨task, trace⟩ := by
  have hinto (target : BlockId) : enterCost t s w target < n := by
    have hinto : t.capped.intoCost s.seen target < t.capped.fromCost s.seen block index :=
      t.capped.intoCost_lt_fromCost hop target
    have hlt := t.capped.weighed_lt hinto w.frames.length
      (t.capped.callersCost w.frames s.callers)
    rw [runCost] at hcost
    rw [enterCost]
    omega
  cases htask with
  | enter target => exact (hbound.enter _ trace htracks hnests (hinto target)).mono (by omega)
  | branch term choice target =>
    exact takes_branch fun trace =>
      hbound.enter (w := w.choose choice) _ trace htracks hnests (hinto target)

/-- The next operation of a block has a lower cost. -/
theorem Bounded.onward {index : Nat} {op : OpId} {v : Walk}
    (hop : (t.arena.block block).ops[index]? = some op) (htracks : e.Tracks w.openInvocations s)
    (hcost : runCost t s w block index < n + 1)
    (hopen : v.openInvocations = w.openInvocations) (hv : v.Nests t)
    (hframes : v.frames = w.frames) :
    Goes t (stepBound t.arena.fan n) e (.run v block (index + 1)) := by
  have hsucc : t.capped.fromCost s.seen block (index + 1) < t.capped.fromCost s.seen block index := by
    rw [t.capped.fromCost_succ hop]
    omega
  have hlt := t.capped.weighed_lt hsucc w.frames.length (t.capped.callersCost w.frames s.callers)
  refine hbound.run (s := s) (by rwa [hopen]) hv ?_
  rw [runCost] at hcost ⊢
  rw [hframes]
  omega

/-- A call that is followed has a lower cost, whatever depth the limits allow. -/
theorem Bounded.call {index : Nat} {op : OpId} {func : FuncId} {v : Walk} {e₁ : Explorer}
    {place : Place} (hop : (t.arena.block block).ops[index]? = some op)
    (htracks : e.Tracks w.openInvocations s) (hnests : w.Nests t)
    (hcost : runCost t s w block index < n + 1) (hfunc : t.followed? w op = some func)
    (hcall : e.enterCall t w op func block (index + 1) = (v, e₁))
    (hplace : place = ⟨e.invocations, (t.arena.func func).entry⟩) :
    Goes t (stepBound t.arena.fan n) (e₁.visit place).1 (.run v place.block 0) := by
  obtain ⟨rfl, rfl⟩ := Prod.ext_iff.1 hcall
  subst hplace
  have hopen : w.invocation < e.invocations := htracks.opened _ List.mem_cons_self
  have htracked := htracks.call t w op func block (index + 1) (t.arena.func func).entry
  rw [← openInvocations_enterCall] at htracked
  have hdepth : w.frames.length < t.capped.limits.maxDepth :=
    Nat.lt_succ_of_le (hnests.length_le_owners (Terrain.followed?_eq_some hfunc).1)
  refine hbound.run htracked (nests_enterCall hnests hopen hop hfunc) ?_
  have hlt := t.capped.call_cost_lt s.seen (t.arena.func func).entry hop hdepth
  rw [runCost] at hcost ⊢
  rw [enterCall_walk, Terrain.callersCost, List.length_cons]
  dsimp only at hlt ⊢
  omega

/-- Running from a place takes one step and then what comes after it. -/
theorem Bounded.goes {index : Nat} (htracks : e.Tracks w.openInvocations s) (hnests : w.Nests t)
    (hcost : runCost t s w block index < n + 1) :
    Goes t (stepBound t.arena.fan (n + 1)) e (.run w block index) := by
  intro k trace after rest queue hrest m hm
  refine Halts.mono (n := (t.arena.fan * (stepBound t.arena.fan n + 4) + 1
    + stepBound t.arena.fan n + 2) + k + 1) (.of_step ?_) ?_
  · rw [step_of_running hm.running, advance]
    dsimp only
    have htracks' := tracks_of_places htracks hm.places hm.invocations
    have hrest' := hrest.congr hm.places hm.invocations
    have hcases := comesAfter t m.explorer w block index
    generalize m.explorer.nextAt t w block index = result at hcases ⊢
    cases hcases with
    | back via value =>
      refine ((hbound.back htracks' hnests hcost via value).mono ?_) k _ after rest queue hrest' _
        ⟨rfl, hm.tasks, hm.queue, rfl, Nat.le_refl _⟩
      omega
    | complete =>
      refine ((goes_done t m.explorer w).mono ?_) k _ after rest queue hrest' _
        ⟨rfl, hm.tasks, hm.queue, rfl, Nat.le_refl _⟩
      omega
    | out hop hnext hlength =>
      have htasks := goes_tasks fun task htask trace =>
        hbound.out hop htracks' hnests hcost (hnext task htask) trace
      refine (htasks.mono ?_) k _ after rest queue hrest' _
        ⟨rfl, hm.tasks, hm.queue, rfl, Nat.le_refl _⟩
      have hfan := Nat.mul_le_mul_right (stepBound t.arena.fan n + 4)
        (Nat.le_trans hlength (t.arena.length_exits_le_fan _))
      omega
    | skip hop =>
      refine ((hbound.onward hop htracks' hcost rfl hnests rfl).mono ?_) k _ after rest queue
        hrest' _ ⟨rfl, hm.tasks, hm.queue, rfl, Nat.le_refl _⟩
      omega
    | pass hop skipped =>
      refine ((hbound.onward (v := w.pushOp _ _) hop htracks' hcost rfl hnests rfl).mono ?_) k _
        after rest queue hrest' _ ⟨rfl, hm.tasks, hm.queue, rfl, Nat.le_refl _⟩
      omega
    | @call op func u v e₁ place hop hu hfunc hcall hplace =>
      subst hu
      have hgoes := hbound.call hop (w := w.pushOp _ _) htracks' hnests hcost hfunc hcall hplace
      have hcalled := explorer_enterCall hcall
      have hclears : Clears t (k + 2) (e₁.visit place).1
          (⟨.leave place, trace.turn t w block index⟩ :: (after ++ rest)) queue := by
        refine (clears_leave hrest' _).congr (congrArg (place :: ·) hcalled.1) ?_
        exact Nat.le_trans (Nat.le_succ _) (Nat.le_of_eq hcalled.2.symm)
      refine Halts.mono (n := stepBound t.arena.fan n + (k + 2)) ?_ (by omega)
      exact hgoes (k + 2) _ (_ :: after) rest queue hclears _
        ⟨rfl, hm.tasks, hm.queue, rfl, Nat.le_refl _⟩
  · rw [stepBound, Nat.succ_mul]
    omega

/-- A block that is met again is left for blocks at a lower cost. -/
theorem Bounded.again (htracks : e.Tracks w.openInvocations s) (hnests : w.Nests t)
    (hcost : enterCost t s w block < n + 1) (hseen : (⟨w.invocation, block⟩ : Place) ∈ e.places)
    (p : Logged) : ∀ q ∈ (e.reenter t w block).2.map p.follower,
      Takes t (stepBound t.arena.fan n) e q := by
  intro q hq
  obtain ⟨task, htask, rfl⟩ := List.mem_map.1 hq
  obtain ⟨target, choice, rfl, hfresh⟩ := mem_reenter htask
  have hblock : block ∈ s.seen := (htracks.mem_places block).1 hseen
  have htarget : target ∉ s.seen := fun hmem => hfresh ((htracks.mem_places target).2 hmem)
  have hlt := t.capped.weighed_lt (t.capped.intoCost_lt_of_seen hblock htarget) w.frames.length
    (t.capped.callersCost w.frames s.callers)
  have hopen : (w.chooseAny choice).openInvocations = w.openInvocations := by cases choice <;> rfl
  have hnests' : (w.chooseAny choice).Nests t := by cases choice <;> exact hnests
  refine hbound.enter (s := s) _ _ (by rwa [hopen]) hnests' ?_
  rw [enterCost] at hcost ⊢
  rw [Walk.frames_chooseAny]
  omega

/-- A block that is put on the walk is run at a lower cost. -/
theorem Bounded.fresh (htracks : e.Tracks w.openInvocations s) (hnests : w.Nests t)
    (hcost : enterCost t s w block < n + 1)
    (hfresh : (⟨w.invocation, block⟩ : Place) ∉ e.places) :
    Goes t (stepBound t.arena.fan n) (e.visit ⟨w.invocation, block⟩).1 (.run w block 0) := by
  have hblock : block ∉ s.seen := fun hmem => hfresh ((htracks.mem_places block).2 hmem)
  have hlt := t.capped.weighed_lt (t.capped.fromCost_lt_intoCost hblock) w.frames.length
    (t.capped.callersCost w.frames s.callers)
  refine hbound.run (htracks.visit block) hnests ?_
  rw [enterCost] at hcost
  rw [runCost]
  dsimp only
  omega

/-- Entering a block takes a step or two and then running it, or leaving it for fresh ones. -/
theorem Bounded.takes (source : Option BlockId) (trace : Trace)
    (htracks : e.Tracks w.openInvocations s) (hnests : w.Nests t)
    (hcost : enterCost t s w block < n + 1) :
    Takes t (stepBound t.arena.fan (n + 1)) e ⟨.enter w block source, trace⟩ := by
  intro k rest queue hrest
  refine Clears.mono (n := (t.arena.fan * stepBound t.arena.fan n + stepBound t.arena.fan n + 2 + k)
    + 2) (clears_cons fun m hm => ?_) (by rw [stepBound, Nat.succ_mul, Nat.mul_add]; omega)
  have hopen := openInvocations_commitPhis t.arena w block source
  have htracks' := tracks_of_places htracks hm.places hm.invocations
  have hrest' := hrest.congr hm.places hm.invocations
  have hnests' := nests_commitPhis hnests block source
  have hframes := frames_commitPhis t.arena w block source
  rw [← hopen] at htracks'
  have hcost' : enterCost t s (commitPhis t.arena w block source) block < n + 1 := by
    rwa [enterCost, hframes]
  generalize hv : commitPhis t.arena w block source = v at htracks' hnests' hcost'
  unfold perform
  dsimp only [opened?]
  rw [hv]
  by_cases hdead : (t.arena.block block).dead = true
  · rw [if_pos (by rw [hdead, Bool.true_or])]
    dsimp only [expand]
    rw [Explorer.enter, if_pos hdead]
    refine Halts.mono (n := k) (hrest' _ ⟨hm.running, ?_, hm.queue, rfl, ?_⟩) (by omega)
    · rfl
    · exact Nat.le_refl _
  by_cases hseen : (⟨v.invocation, block⟩ : Place) ∈ m.explorer.places
  · rw [if_pos (by rw [decide_eq_true hseen, Bool.or_true])]
    dsimp only [expand]
    rw [Explorer.enter, if_neg hdead, hv]
    dsimp only
    rw [if_pos hseen]
    have hclears := clears_append
      (hbound.again htracks' hnests' hcost' hseen ⟨.enter w block source, trace⟩) hrest'
    refine Halts.mono (hclears _ ⟨hm.running, rfl, hm.queue, rfl, Nat.le_refl _⟩) ?_
    have hfan := Nat.mul_le_mul_right (stepBound t.arena.fan n)
      (length_reenter_le t m.explorer v block)
    rw [List.length_map]
    omega
  · rw [if_neg (by simp [hdead, hseen])]
    dsimp only
    have hgoes := hbound.fresh htracks' hnests' hcost' hseen
    refine Halts.mono (n := stepBound t.arena.fan n + (k + 2)) ?_ (by omega)
    exact hgoes (k + 2) _ [_] rest queue (clears_leave hrest' _) _
      ⟨rfl, rfl, hm.queue, rfl, Nat.le_refl _⟩

end Step

theorem bounded (t : Terrain) (n : Nat) : Bounded t n := by
  induction n with
  | zero => exact bounded_zero t
  | succ n ih =>
    exact ⟨fun source trace htracks hnests hcost => ih.takes source trace htracks hnests hcost,
      fun htracks hnests hcost => ih.goes htracks hnests hcost⟩

/-! ## Functions in turn -/

/-- A walk that begins has nothing but its own invocation open. -/
theorem tracks_start (h : e.places = []) (func : FuncId) :
    Tracks { e with invocations := e.invocations + 1 }
      ({ func, invocation := e.invocations } : Walk).openInvocations
      { assumed := e.feasibility.solver.assertions.toList } := by
  refine ⟨rfl, .cons (fun b => ?_) .nil, List.nodup_singleton _, fun i hi => ?_, fun p hp => ?_⟩
  · rw [h]
    exact iff_of_false List.not_mem_nil List.not_mem_nil
  · rw [List.mem_singleton.1 hi]
    exact Nat.lt_succ_self _
  · rw [h] at hp
    cases hp

/-- Exploring functions halts after a number of steps that the limits have no part in. -/
theorem halts_start (resolver : Resolver) (null : OperandId) (funcs : List FuncId) :
    ∃ n, ∀ (limits : Limits) (e : Explorer) (completed : List (Walk × Trace)), e.reset = e →
      Halts ⟨resolver, null, limits⟩ n (start e ⟨resolver, null, limits⟩ funcs completed) := by
  induction funcs with
  | nil => exact ⟨0, fun limits e completed h => ⟨rfl, rfl, rfl, h⟩⟩
  | cons func queue ih =>
    obtain ⟨n, hn⟩ := ih
    -- the cost is that of entering the function with nothing on the walk, under any limits
    let cost : Nat := enterCost ⟨resolver, null, default⟩ {} { func, invocation := 0 }
      (resolver.arena.func func).entry
    refine ⟨stepBound resolver.arena.fan (cost + 1) + (n + 2), fun limits e completed h => ?_⟩
    have hplaces : e.places = [] := (congrArg Explorer.places h).symm
    have hlt : enterCost ⟨resolver, null, limits⟩
        { assumed := e.feasibility.solver.assertions.toList }
        { func, invocation := e.invocations } (resolver.arena.func func).entry < cost + 1 :=
      Nat.lt_succ_self _
    have htakes := (bounded ⟨resolver, null, limits⟩ (cost + 1)).enter none {}
      (tracks_start hplaces func) (.of_start _ func e.invocations) hlt
    refine htakes (n + 2) [] queue ?_ _ ⟨rfl, rfl, rfl, rfl, Nat.le_refl _⟩
    -- when the function is done, the next one begins, unless the budget has run out
    intro m hm
    by_cases hzero : m.explorer.remaining ⟨resolver, null, limits⟩ = 0
    · exact (Halts.of_spent hm.running hzero).mono (by omega)
    · refine (Halts.of_step (n := n) ?_).mono (by omega)
      rw [step_of_idle hm.running hm.tasks, if_neg hzero, hm.queue]
      exact hn limits m.explorer.reset m.completed (Stage.reset_reset _)

/-- When nothing is left to be done, the explorer is what exploring gives. -/
theorem Rests.explorer_eq {funcs : List FuncId} (h : ((start {} t funcs).run t n).Rests) :
    ((start {} t funcs).run t n).explorer = ({} : Explorer).exploreFuncs t funcs := by
  rw [← h.finish t, finish_run]
  exact finish_start t rfl funcs []

end Instant

/-- Exploring comes to an end. For every program, whatever its control flow and its calls, and for
all functions, there is a number of steps, each without a loop, after which nothing is left to be
done under any limits; and what was found then is what exploring gives. -/
theorem exploreFuncs_halts (resolver : Resolver) (null : OperandId) (funcs : List FuncId) :
    ∃ n, ∀ limits : Limits,
      let t : Terrain := ⟨resolver, null, limits⟩
      ((Instant.start {} t funcs).run t n).Rests ∧
        ((Instant.start {} t funcs).run t n).explorer = ({} : Explorer).exploreFuncs t funcs := by
  obtain ⟨n, hn⟩ := Instant.halts_start resolver null funcs
  refine ⟨n, fun limits => ?_⟩
  have hrests := hn limits {} [] rfl
  exact ⟨hrests, hrests.explorer_eq⟩

/-- With nothing assumed and nothing on the walk there is nothing to reset. -/
theorem reset_of_depth {e : Explorer} (hdepth : e.feasibility.depth = 0)
    (hplaces : e.places = []) : e.reset = e := by
  obtain ⟨⟨solver, depth, stats⟩, places, invocations, found, counts⟩ := e
  obtain rfl : depth = 0 := hdepth
  obtain rfl : places = [] := hplaces
  rfl

/-- What holds of the explorer when nothing is left to be done holds of what exploring gives. -/
theorem exploreFuncs_of_idle {t : Terrain} {funcs : List FuncId} (n : Nat)
    {P : Explorer → Prop}
    (h : let m := (Instant.start {} t funcs).run t n
      (m.running.isNone = true ∧ m.tasks.isEmpty = true ∧ m.queue = []) ∧
        (m.explorer.feasibility.depth = 0 ∧ m.explorer.places = []) ∧ P m.explorer) :
    P (({} : Explorer).exploreFuncs t funcs) := by
  obtain ⟨⟨hrunning, htasks, hqueue⟩, ⟨hdepth, hplaces⟩, hP⟩ := h
  have hrests := Instant.Rests.mk (Option.isNone_iff_eq_none.1 hrunning)
    (List.isEmpty_iff.1 htasks) hqueue (reset_of_depth hdepth hplaces)
  exact hrests.explorer_eq ▸ hP

end Explorer

end QueryTaint
