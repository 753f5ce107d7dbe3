import QueryTaint.Proofs.Walk.Discipline

/-!
# Exploring one operation at a time

The state of exploring between two operations. `Instant` is what there is to be done then: the walk
that is running, the tasks on the stack and the functions not begun yet; `Instant.step` runs one
operation, does one task or begins one function, and no step has a loop in it. Going on to the end
from an instant (`Instant.finish`) gives the same before and after a step, so the instants are those
of `Explorer.exploreFuncs` (`Instant.finish_run`, `Instant.finish_start`).

A walk records what happened, but not in which invocation. An observer writes that down next to each
walk (`Trace`): the places of the operations that ran, the invocation that each event belongs to,
and the calls with the events between which they were open. Nothing that is explored depends on it.
-/

namespace QueryTaint

/-- An operation that was run: its block, its index there, and the invocation. -/
structure Turn where
  invocation : Nat
  block : BlockId
  index : Nat
deriving DecidableEq, Repr, Inhabited

/-- A call that was entered: the operation, the two invocations, and the events of the walk from the
first one in the callee up to the return, if it has returned. -/
structure Stay where
  call : OpId
  caller : Nat
  callee : Nat
  start : Nat
  stop : Option Nat := none
deriving DecidableEq, Repr, Inhabited

/-- What an observer notes about a walk: the operations that were run, the latest first, whose each
event is, in the order of the events, and the calls that were entered, the latest first. -/
structure Trace where
  turns : List Turn := []
  owners : List Nat := []
  stays : List Stay := []
deriving DecidableEq, Repr, Inhabited

namespace Trace

/-- The operation at a place is run, if there is one. -/
def turn (r : Trace) (t : Terrain) (w : Walk) (block : BlockId) (index : Nat) : Trace :=
  match (t.arena.block block).ops[index]? with
  | some _ => { r with turns := ⟨w.invocation, block, index⟩ :: r.turns }
  | none => r

/-- The events up to a number belong to an invocation, unless they have an owner already. -/
def credit (r : Trace) (owner size : Nat) : Trace :=
  { r with owners := r.owners ++ List.replicate (size - r.owners.length) owner }

/-- A walk goes on as another without entering a call. One that has fewer frames has returned. -/
def goOn (r : Trace) (w v : Walk) : Trace :=
  let r := r.credit w.invocation v.events.size
  if v.frames.length < w.frames.length then
    { r with
      stays := r.stays.map fun s =>
        if s.callee = w.invocation then { s with stop := some v.events.size } else s }
  else r

/-- A walk goes on as another. The event of an operation that calls is the caller's, and then come
those of the callee up to the value that it returns. -/
def observe (r : Trace) (w v : Walk) : Trace :=
  match v.frames with
  | f :: below =>
    if below.length = w.frames.length then
      let r := r.credit w.invocation (w.events.size + 1)
      { r.credit v.invocation v.events.size with
        stays := ⟨f.call, w.invocation, v.invocation, w.events.size + 1, none⟩ :: r.stays }
    else r.goOn w v
  | [] => r.goOn w v

end Trace

namespace Explorer

variable {t : Terrain}

/-- A task and what was observed of its walk. -/
structure Logged where
  task : Task
  trace : Trace

/-- A walk between two operations: what comes next, what was observed, and the tasks that its run
has left to be done after it. -/
structure Running where
  next : Next
  trace : Trace
  after : List Logged

/-- The state between two operations: the explorer, the walk that is running, the stack of tasks,
the functions to be explored after this one, and the walks that were completed, as observed. -/
structure Instant where
  explorer : Explorer
  running : Option Running
  tasks : List Logged
  queue : List FuncId
  completed : List (Walk × Trace)

/-- The task follows another one. Values that flowed into φs belong to the running invocation. -/
def Logged.follower (p : Logged) (task : Task) : Logged :=
  match task.walk? with
  | some w => ⟨task, p.trace.credit w.invocation w.events.size⟩
  | none => ⟨task, p.trace⟩

/-- What is observed when a walk goes on to what is next. -/
def Next.observed (w : Walk) (r : Trace) : Next → Trace
  | .run v _ _ => r.observe w v
  | _ => r

/-- What comes after a place: a return at the end of a block, else what its operation leads to. -/
def nextAt (e : Explorer) (t : Terrain) (w : Walk) (block : BlockId) (index : Nat) :
    Next × List Task × Explorer :=
  match (t.arena.block block).ops[index]? with
  | none => (unwind t w none none, [], e)
  | some op =>
    if (t.arena.op op).kind.isTerminator then (terminate t w block op, [], e)
    else e.runOp t w block index op

/-- The block that a task puts on the walk, with the walk in it. -/
def opened? (e : Explorer) (t : Terrain) : Task → Option (Walk × BlockId)
  | .enter w block source =>
    let v := commitPhis t.arena w block source
    if (t.arena.block block).dead || ⟨v.invocation, block⟩ ∈ e.places then none
    else some (v, block)
  | _ => none

/-! ## What comes after a place -/

/-- A task that goes on from a block with the walk as it is. -/
inductive LeadsOut (w : Walk) (block : BlockId) : Task → Prop
  | enter (target : BlockId) : LeadsOut w block (.enter w target (some block))
  | branch (term : Term Float) (choice : Choice) (target : BlockId) :
    LeadsOut w block (.branch w term choice target block)

/-- What can come after a place: a return, the end of the walk, tasks that lead out of the block,
the next operation, or the first one of a function that is called. -/
inductive ComesAfter (t : Terrain) (e : Explorer) (w : Walk) (block : BlockId) (index : Nat) :
    Next × List Task × Explorer → Prop
  | back (via : Option OpId) (value : Option OperandId) :
    ComesAfter t e w block index (unwind t w via value, [], e)
  | complete : ComesAfter t e w block index (.done w, [], e)
  | out {op : OpId} {next : List Task} (hop : (t.arena.block block).ops[index]? = some op)
      (hnext : ∀ task ∈ next, LeadsOut w block task)
      (hlength : next.length ≤ (exits (t.arena.op op).kind).length) :
    ComesAfter t e w block index (.tasks next, [], e)
  | skip {op : OpId} (hop : (t.arena.block block).ops[index]? = some op) :
    ComesAfter t e w block index (.run w block (index + 1), [], e)
  | pass {op : OpId} (hop : (t.arena.block block).ops[index]? = some op) (skipped : Nat) :
    ComesAfter t e w block index
      (.run (w.pushOp op (t.arena.op op).kind.result?) block (index + 1), [],
        { e with stats := { e.stats with skipped } })
  | call {op : OpId} {func : FuncId} {u v : Walk} {e₁ : Explorer} {place : Place}
      (hop : (t.arena.block block).ops[index]? = some op)
      (hu : u = w.pushOp op (t.arena.op op).kind.result?)
      (hfunc : t.followed? u op = some func)
      (hcall : e.enterCall t u op func block (index + 1) = (v, e₁))
      (hplace : place = ⟨e.invocations, (t.arena.func func).entry⟩) :
    ComesAfter t e w block index (.run v place.block 0, [.leave place], (e₁.visit place).1)

/-- A call is followed, or it is at most counted. -/
theorem callee?_cases (t : Terrain) (e : Explorer) (w : Walk) {op : OpId}
    (hcalls : (t.arena.op op).kind.callsFunction = true) :
    (∃ func, t.followed? w op = some func) ∨
      ∃ skipped, e.callee? t w op = (none, { e with stats := { e.stats with skipped } }) := by
  cases hfollowed : t.followed? w op with
  | some func => exact .inl ⟨func, rfl⟩
  | none =>
    right
    rw [Terrain.followed?, if_pos hcalls] at hfollowed
    unfold callee?
    cases hscript : t.resolver.scriptOf? w.func with
    | none => exact ⟨e.stats.skipped, rfl⟩
    | some script =>
      refine ⟨e.stats.skipped + 1, ?_⟩
      simp only [hscript, Option.bind_eq_bind, Option.bind_some] at hfollowed
      cases hresolve : t.resolver.resolve? script w.func op w.overrides with
      | none =>
        dsimp only
        rw [hresolve]
      | some func =>
        rw [hresolve, Option.bind_some] at hfollowed
        split at hfollowed
        · rename_i hactive
          dsimp only
          rw [hresolve]
          exact if_pos hactive
        · cases hfollowed

theorem explorer_enterCall {e e₁ : Explorer} {w v : Walk} {op : OpId} {func : FuncId}
    {block : BlockId} {index : Nat} (h : e.enterCall t w op func block index = (v, e₁)) :
    e₁.places = e.places ∧ e₁.invocations = e.invocations + 1 := by
  obtain ⟨-, rfl⟩ := Prod.ext_iff.1 h
  exact ⟨rfl, rfl⟩

/-- An operation that is not followed is only recorded, and at most counted. -/
theorem runOp_of_ignored (e : Explorer) {w : Walk} (block : BlockId) (index : Nat) {op : OpId}
    (hplain : IsPlain (t.arena.op op).kind)
    (hnot : t.followed? (w.pushOp op (t.arena.op op).kind.result?) op = none) :
    ∃ skipped, e.runOp t w block index op =
      (.run (w.pushOp op (t.arena.op op).kind.result?) block (index + 1), [],
        { e with stats := { e.stats with skipped } }) := by
  by_cases hcalls : (t.arena.op op).kind.callsFunction = true
  · rcases callee?_cases t e (w.pushOp op (t.arena.op op).kind.result?) hcalls with
      ⟨func, hfunc⟩ | ⟨skipped, hcallee⟩
    · cases hnot.symm.trans hfunc
    · refine ⟨skipped, ?_⟩
      unfold runOp
      cases hkind : (t.arena.op op).kind
      case functionCall | methodCall | staticCall | new =>
        rw [hkind] at hcallee
        dsimp only
        rw [hcallee]
      all_goals
        rw [hkind] at hcalls
        cases hcalls
  · refine ⟨e.stats.skipped, ?_⟩
    unfold runOp
    cases hkind : (t.arena.op op).kind
    case functionCall | methodCall | staticCall | new =>
      rw [hkind] at hcalls
      exact absurd rfl hcalls
    case param => exact (hplain.2 _ _ _ _ _ _ _ _ hkind).elim
    all_goals rfl

theorem comesAfter_of_plain (e : Explorer) (w : Walk) {block : BlockId} {index : Nat} {op : OpId}
    (hop : (t.arena.block block).ops[index]? = some op) (hplain : IsPlain (t.arena.op op).kind) :
    ComesAfter t e w block index (e.runOp t w block index op) := by
  cases hfunc : t.followed? (w.pushOp op (t.arena.op op).kind.result?) op with
  | some func =>
    rw [runOp_of_followed hfunc]
    exact .call hop rfl hfunc rfl rfl
  | none =>
    obtain ⟨skipped, hrun⟩ := runOp_of_ignored e block index hplain hfunc
    rw [hrun]
    exact .pass hop skipped

theorem comesAfter_terminate (t : Terrain) (e : Explorer) (w : Walk) {block : BlockId} {index : Nat}
    {op : OpId} (hop : (t.arena.block block).ops[index]? = some op) :
    ComesAfter t e w block index (terminate t w block op, [], e) := by
  unfold terminate
  cases hkind : (t.arena.op op).kind
  case jump target =>
    refine .out hop (fun task htask => ?_) (by rw [hkind]; exact Nat.le_refl 1)
    rw [List.mem_singleton.1 htask]
    exact .enter target
  case jumpIf cond ifTarget elseTarget =>
    refine .out hop (fun task htask => ?_) (by rw [hkind]; exact Nat.le_refl 2)
    rcases List.mem_pair.1 htask with rfl | rfl <;> exact .branch ..
  case switch subject cases targets otherwise =>
    dsimp only
    rw [forkSwitch_eq_arms]
    refine .out hop (fun task htask => ?_) ?_
    · obtain ⟨arm, -, rfl⟩ := List.mem_map.1 htask
      exact .branch ..
    · rw [hkind, List.length_map, Terrain.arms, exits]
      simp
  case returns value => exact .back (some op) value
  all_goals exact .complete

/-- The cases of what comes after a place. -/
theorem comesAfter (t : Terrain) (e : Explorer) (w : Walk) (block : BlockId) (index : Nat) :
    ComesAfter t e w block index (e.nextAt t w block index) := by
  unfold nextAt
  cases hop : (t.arena.block block).ops[index]? with
  | none => exact .back none none
  | some op =>
    dsimp only
    split
    · exact comesAfter_terminate t e w hop
    · rename_i hterm
      cases hkind : (t.arena.op op).kind
      case param =>
        unfold runOp
        rw [hkind]
        exact .skip hop
      all_goals
        refine comesAfter_of_plain e w hop ⟨Bool.eq_false_iff.2 hterm, ?_⟩
        intro _ _ _ _ _ _ _ _ hparam
        cases hkind.symm.trans hparam

/-- A block that is met again is left for blocks that are not on the walk. -/
theorem mem_reenter {e : Explorer} {w : Walk} {block : BlockId} {task : Task}
    (h : task ∈ (e.reenter t w block).2) :
    ∃ target choice, task = .enter (w.chooseAny choice) target (some block) ∧
      (⟨w.invocation, target⟩ : Place) ∉ e.places := by
  obtain ⟨⟨target, choice⟩, hway, rfl⟩ := List.mem_map.1 h
  have hfresh := (List.mem_filter.1 hway).2
  rw [Bool.and_eq_true, Bool.not_eq_true', List.contains_eq_mem, decide_eq_false_iff_not] at hfresh
  exact ⟨target, choice, by cases choice <;> rfl, hfresh.1⟩

namespace Instant

/-- The instant at which exploring functions begins, after some walks. -/
def start (e : Explorer) (t : Terrain) (funcs : List FuncId)
    (completed : List (Walk × Trace) := []) : Instant :=
  match funcs with
  | [] => ⟨e, none, [], [], completed⟩
  | func :: queue =>
    ⟨{ e with invocations := e.invocations + 1 }, none,
      [⟨.enter { func, invocation := e.invocations } (t.arena.func func).entry none, {}⟩], queue,
      completed⟩

/-- Runs one operation, or ends a run. -/
def advance (t : Terrain) (m : Instant) (r : Running) : Instant :=
  match r.next with
  | .done w =>
    { m with
      explorer := m.explorer.commit t w
      running := none
      tasks := r.after ++ m.tasks
      completed :=
        if m.explorer.remaining t = 0 then m.completed else m.completed ++ [(w, r.trace)] }
  | .tasks next =>
    { m with running := none, tasks := next.map (⟨·, r.trace⟩) ++ (r.after ++ m.tasks) }
  | .run w block index =>
    let trace := r.trace.turn t w block index
    let (next, leave, e) := m.explorer.nextAt t w block index
    { m with
      explorer := e
      running := some ⟨next, next.observed w trace, leave.map (⟨·, trace⟩) ++ r.after⟩ }

/-- Does one task. A block that is put on the walk is not run yet. -/
def perform (t : Terrain) (m : Instant) (p : Logged) (rest : List Logged) : Instant :=
  match m.explorer.opened? t p.task with
  | some (w, block) =>
    let (e, leave) := m.explorer.visit ⟨w.invocation, block⟩
    { m with
      explorer := e
      running := some ⟨.run w block 0, p.trace.credit w.invocation w.events.size,
        [⟨leave, p.trace⟩]⟩
      tasks := rest }
  | none =>
    let (e, next) := m.explorer.expand t p.task
    { m with explorer := e, tasks := next.map p.follower ++ rest }

/-- Goes on with the running walk; else does the task on top of the stack, which is given up once
the budget has run out; else begins the next function, if the budget allows. -/
def step (t : Terrain) (m : Instant) : Instant :=
  match m.running, m.tasks with
  | some r, _ => m.advance t r
  | none, p :: rest =>
    if m.explorer.remaining t = 0 then
      ⟨m.explorer.truncate, none, [], m.queue, m.completed⟩
    else m.perform t p rest
  | none, [] =>
    if m.explorer.remaining t = 0 then ⟨m.explorer.reset, none, [], [], m.completed⟩
    else start m.explorer.reset t m.queue m.completed

/-- The instant after a number of steps. -/
def run (t : Terrain) (m : Instant) (n : Nat) : Instant := (step t)^[n] m

/-- What is explored, and what is left to be done for the running function, when the running walk
has come to its end. -/
def settle (t : Terrain) (m : Instant) : Explorer × List Task :=
  match m.running with
  | some r =>
    let (e, next) := m.explorer.run t (r.after.map Logged.task) r.next
    (e, next ++ m.tasks.map Logged.task)
  | none => (m.explorer, m.tasks.map Logged.task)

/-- What exploring ends with from an instant. -/
def finish (t : Terrain) (m : Instant) : Explorer :=
  let e := (drain t (m.settle t).1 (m.settle t).2).reset
  if e.remaining t = 0 then e else e.exploreFuncs t m.queue

/-! ### The instants are those of the exploration -/

variable {m : Instant}

theorem run_succ (t : Terrain) (m : Instant) (n : Nat) : m.run t (n + 1) = (m.step t).run t n := rfl

theorem run_add (t : Terrain) (m : Instant) (i j : Nat) : m.run t (i + j) = (m.run t i).run t j := by
  rw [run, run, run, Nat.add_comm, Function.iterate_add_apply]

theorem run_succ_last (t : Terrain) (m : Instant) (n : Nat) :
    m.run t (n + 1) = (m.run t n).step t :=
  Function.iterate_succ_apply' (step t) n m

theorem step_of_running {r : Running} (h : m.running = some r) : m.step t = m.advance t r := by
  rw [step, h]

theorem step_of_task {p : Logged} {rest : List Logged} (h : m.running = none)
    (htasks : m.tasks = p :: rest) (hne : m.explorer.remaining t ≠ 0) :
    m.step t = m.perform t p rest := by
  rw [step, h, htasks]
  exact if_neg hne

theorem step_of_spent {p : Logged} {rest : List Logged} (h : m.running = none)
    (htasks : m.tasks = p :: rest) (hzero : m.explorer.remaining t = 0) :
    m.step t = ⟨m.explorer.truncate, none, [], m.queue, m.completed⟩ := by
  rw [step, h, htasks]
  exact if_pos hzero

theorem step_of_idle (h : m.running = none) (htasks : m.tasks = []) :
    m.step t =
      if m.explorer.remaining t = 0 then ⟨m.explorer.reset, none, [], [], m.completed⟩
      else start m.explorer.reset t m.queue m.completed := by
  rw [step, h, htasks]

theorem task_follower (p : Logged) (task : Task) : (p.follower task).task = task := by
  unfold Logged.follower
  split <;> rfl

theorem map_task_follower (p : Logged) (next : List Task) :
    (next.map p.follower).map Logged.task = next := by
  rw [List.map_map]
  exact (List.map_congr_left fun task _ => task_follower p task).trans (List.map_id next)

theorem map_task_logged (trace : Trace) (next : List Task) :
    (next.map (⟨·, trace⟩ : Task → Logged)).map Logged.task = next := by
  rw [List.map_map]
  exact List.map_id next

/-- A block is put on the walk by a task to enter it, if it is live and not on the walk. -/
theorem opened?_eq_some {e : Explorer} {task : Task} {v : Walk} {block : BlockId}
    (h : e.opened? t task = some (v, block)) :
    ∃ w source, task = .enter w block source ∧ v = commitPhis t.arena w block source ∧
      (t.arena.block block).dead = false ∧ (⟨v.invocation, block⟩ : Place) ∉ e.places := by
  unfold opened? at h
  split at h
  · rename_i w b source
    dsimp only at h
    split at h
    · cases h
    · rename_i hnot
      cases h
      rw [Bool.or_eq_true, not_or, Bool.not_eq_true, decide_eq_true_eq] at hnot
      exact ⟨w, source, rfl, rfl, hnot.1, hnot.2⟩
  · cases h

/-- Doing a task that puts no block on the walk enters no call and completes no walk. -/
theorem expand_keeps {e : Explorer} {task : Task} (hopened : e.opened? t task = none) :
    (e.expand t task).1.invocations = e.invocations ∧ (e.expand t task).1.found = e.found ∧
      (e.expand t task).1.stats.walks = e.stats.walks ∧
      (e.expand t task).1.stats.truncated = e.stats.truncated := by
  cases task with
  | leave place | retract => exact ⟨rfl, rfl, rfl, rfl⟩
  | branch w term choice target source =>
    unfold Explorer.expand
    dsimp only
    split <;> exact ⟨rfl, rfl, rfl, rfl⟩
  | enter w block source =>
    unfold Explorer.expand Explorer.enter
    dsimp only [opened?] at hopened ⊢
    split at hopened
    · rename_i hor
      rw [Bool.or_eq_true, decide_eq_true_eq] at hor
      split
      · exact ⟨rfl, rfl, rfl, rfl⟩
      · rename_i hlive
        rw [if_pos (hor.resolve_left hlive)]
        exact ⟨rfl, rfl, rfl, rfl⟩
    · cases hopened

theorem run_nextAt (e : Explorer) (after : List Task) (w : Walk) (block : BlockId) (index : Nat) :
    e.run t after (.run w block index) =
      (e.nextAt t w block index).2.2.run t ((e.nextAt t w block index).2.1 ++ after)
        (e.nextAt t w block index).1 := by
  unfold nextAt
  cases hop : (t.arena.block block).ops[index]? with
  | none => exact run_none hop w
  | some op =>
    dsimp only
    split
    · rename_i hterm
      exact run_terminate hop hterm w
    · rename_i hterm
      exact run_op hop hterm w

/-- A run goes on to the same end from its next operation. -/
theorem settle_advance {r : Running} (h : m.running = some r) :
    (m.advance t r).settle t = m.settle t := by
  obtain ⟨e, running, tasks, queue, completed⟩ := m
  obtain ⟨next, trace, after⟩ := r
  cases h
  unfold advance settle
  cases next with
  | done w =>
    dsimp only
    rw [run_done, List.map_append]
  | tasks next =>
    dsimp only
    rw [run_tasks, List.map_append, List.map_append, map_task_logged, List.append_assoc]
  | run w block index =>
    dsimp only
    rw [List.map_append, map_task_logged, run_nextAt]

theorem queue_advance (t : Terrain) (m : Instant) (r : Running) :
    (m.advance t r).queue = m.queue := by
  unfold advance
  split <;> rfl

theorem queue_perform (t : Terrain) (m : Instant) (p : Logged) (rest : List Logged) :
    (m.perform t p rest).queue = m.queue := by
  unfold perform
  split <;> rfl

/-- Doing a task leads where doing all tasks leads. -/
theorem drain_settle_perform {p : Logged} {rest : List Logged} (h : m.running = none)
    (htasks : m.tasks = p :: rest) (hne : m.explorer.remaining t ≠ 0) :
    drain t ((m.perform t p rest).settle t).1 ((m.perform t p rest).settle t).2 =
      drain t (m.settle t).1 (m.settle t).2 := by
  have hsettle : m.settle t = (m.explorer, p.task :: rest.map Logged.task) := by
    rw [settle, h, htasks, List.map_cons]
  rw [hsettle, drain_cons hne]
  unfold perform
  cases hopened : m.explorer.opened? t p.task with
  | none =>
    dsimp only
    rw [settle, h]
    dsimp only
    rw [List.map_append, map_task_follower]
  | some opened =>
    obtain ⟨v, block⟩ := opened
    obtain ⟨w, source, htask, rfl, hlive, hfresh⟩ := opened?_eq_some hopened
    rw [htask, expand, enter, if_neg (Bool.eq_false_iff.1 hlive)]
    dsimp only
    rw [if_neg hfresh]
    rfl

theorem finish_idle (h : m.running = none) (htasks : m.tasks = []) :
    m.finish t =
      if m.explorer.remaining t = 0 then m.explorer.reset
      else m.explorer.reset.exploreFuncs t m.queue := by
  have hsettle : m.settle t = (m.explorer, []) := by rw [settle, h, htasks, List.map_nil]
  rw [finish, hsettle]
  dsimp only
  rw [drain_nil]
  rfl

theorem finish_start (t : Terrain) {e : Explorer} (h : e.reset = e) (funcs : List FuncId)
    (completed : List (Walk × Trace)) :
    (start e t funcs completed).finish t = e.exploreFuncs t funcs := by
  cases funcs with
  | nil =>
    rw [finish_idle rfl rfl, start, exploreFuncs]
    dsimp only
    rw [h, exploreFuncs]
    exact ite_self _
  | cons func queue =>
    rw [exploreFuncs]
    rfl

/-- Exploring ends with the same from the next instant. -/
theorem finish_step (t : Terrain) (m : Instant) : (m.step t).finish t = m.finish t := by
  cases hrunning : m.running with
  | some r =>
    rw [step_of_running hrunning, finish, finish, settle_advance hrunning, queue_advance]
  | none =>
    cases htasks : m.tasks with
    | nil =>
      rw [step_of_idle hrunning htasks, finish_idle hrunning htasks]
      split
      · rw [finish_idle rfl rfl]
        dsimp only
        rw [Stage.reset_reset, exploreFuncs]
        exact ite_self _
      · exact finish_start t (Stage.reset_reset _) m.queue m.completed
    | cons p rest =>
      by_cases hzero : m.explorer.remaining t = 0
      · have hspent : m.explorer.truncate.remaining t = 0 := hzero
        rw [step_of_spent hrunning htasks hzero, finish_idle rfl rfl, finish, settle, hrunning,
          htasks, List.map_cons]
        dsimp only
        rw [drain_of_exhausted hzero, if_pos hspent]
        exact (if_pos hspent).symm
      · rw [step_of_task hrunning htasks hzero, finish, finish,
          drain_settle_perform hrunning htasks hzero, queue_perform]

theorem finish_run (t : Terrain) (m : Instant) (n : Nat) : (m.run t n).finish t = m.finish t := by
  induction n generalizing m with
  | zero => rfl
  | succ n ih => exact (ih (m.step t)).trans (finish_step t m)

end Instant

end Explorer

end QueryTaint
