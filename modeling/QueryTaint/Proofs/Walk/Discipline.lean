import Mathlib.Logic.Function.Iterate
import QueryTaint.Proofs.Term.Assumption
import QueryTaint.Proofs.Walk.Stack

/-!
# The discipline of assumptions

Exploring makes an assumption when it takes an arm of a fork, and leaves a task on the stack that
takes it back. `Stage` is the state between two tasks, where every pending task is kept with the
decisions on the walk to it and what was assumed at each (`Pending`); `Stage.step` does the task on
top, and goes on to the next function when there is none.

`Stacked` says how the live assumptions fit the stack: they are those of the task on top, and each
task that takes one back comes after all tasks that depend on it. Doing a task keeps this
(`Stage.Sound.step`), whatever the functions that are entered on the way: running a block makes no
assumption and leaves no task that takes one back (`quiet_enter`).
-/

namespace QueryTaint

namespace Task

/-- The walk that a task goes on with. -/
def walk? : Task → Option Walk
  | .enter w .. | .branch w .. => some w
  | _ => none

/-- What doing a task may assume: an arm its own assumption, other tasks nothing. -/
def assumption? : Task → Option (Term Float)
  | .branch _ assumption .. => some assumption
  | _ => none

/-- A task goes on after decisions, and takes no assumption back. -/
def Follows (task : Task) (choices : Array Choice) : Prop :=
  task ≠ .retract ∧ ∀ w, task.walk? = some w → choices.toList <+: w.choices.toList

end Task

namespace Explorer

variable {t : Terrain} {e e₁ : Explorer} {after : List Task} {state : Explorer × List Task}
  {choices : Array Choice}

/-! ## Running makes no assumption -/

/-- The live assumptions are kept, and further tasks go on after the decisions made. -/
structure Quiet (e : Explorer) (choices : Array Choice) (after : List Task)
    (state : Explorer × List Task) : Prop where
  solver : state.1.feasibility.solver = e.feasibility.solver
  depth : state.1.feasibility.depth = e.feasibility.depth
  tasks : ∀ task ∈ state.2, task ∈ after ∨ task.Follows choices

namespace Quiet

theorem of_passes {ws : List Walk} (h : Passes t e ws e₁) (hquiet : Quiet e₁ choices after state) :
    Quiet e choices after state :=
  ⟨hquiet.solver.trans h.solver, hquiet.depth.trans h.depth, hquiet.tasks⟩

/-- A place that is put on the walk leaves a task that takes it off. -/
theorem visit {place : Place} (h : Quiet (e.visit place).1 choices (.leave place :: after) state) :
    Quiet e choices after state := by
  refine ⟨h.solver, h.depth, fun task hmem => ?_⟩
  obtain hafter | hfollows := h.tasks task hmem
  · obtain rfl | hafter := List.mem_cons.1 hafter
    · exact .inr ⟨Task.noConfusion, fun _ hw => nomatch hw⟩
    · exact .inl hafter
  · exact .inr hfollows

end Quiet

theorem follows_enter (w : Walk) (block : BlockId) (source : Option BlockId) :
    (Task.enter w block source).Follows w.choices :=
  ⟨Task.noConfusion, fun _ hw => Option.some.inj hw ▸ List.prefix_rfl⟩

theorem follows_branch (w : Walk) (assumption : Term Float) (choice : Choice)
    (target source : BlockId) :
    (Task.branch w assumption choice target source).Follows w.choices :=
  ⟨Task.noConfusion, fun _ hw => Option.some.inj hw ▸ List.prefix_rfl⟩

theorem choices_leaveCall (t : Terrain) (w : Walk) (frame : Frame) (rest : List Frame)
    (via : Option OpId) (value : Option OperandId) :
    (leaveCall t w frame rest via value).choices = w.choices := by
  unfold leaveCall
  dsimp only
  split <;> rfl

theorem choices_called (t : Terrain) (w : Walk) (call : OpId) (func : FuncId) (block : BlockId)
    (index : Nat) : (t.called w call func block index).choices = w.choices := by
  have hsupplied : (t.supplied w call func).choices = w.choices :=
    Terrain.supplied_keep (fun _ _ _ _ => rfl) t w call func
  exact hsupplied

/-- Running a block from a place in it makes no assumption. The scope has a list for every open
call, so that the recursion that the induction follows returns whenever the walk does. -/
def RunsQuiet (t : Terrain) (s : Scope) (w : Walk) (block : BlockId) (index : Nat) : Prop :=
  w.frames.length = s.callers.length → ∀ (e : Explorer) (v : Walk) (after : List Task),
    v.anonymous = w → Quiet e w.choices after (e.run t after (.run v block index))

/-- Returning from a function makes no assumption. -/
def ReturnsQuiet (t : Terrain) (s : Scope) (w : Walk) (via : Option OpId)
    (value : Option OperandId) : Prop :=
  w.frames.length = s.callers.length → ∀ (e : Explorer) (v : Walk) (after : List Task),
    v.anonymous = w → Quiet e w.choices after (e.run t after (unwind t v via value))

section Cases

variable {s : Scope} {w : Walk} {block : BlockId} {index : Nat} {op : OpId}

theorem quiet_done (t : Terrain) (e : Explorer) (after : List Task) (v : Walk) :
    Quiet e choices after (e.run t after (.done v)) := by
  rw [run_done]
  exact .of_passes (.commit t e v) ⟨rfl, rfl, fun _ => .inl⟩

theorem quiet_tasks {tasks : List Task} (t : Terrain) (e : Explorer) (after : List Task)
    (h : ∀ task ∈ tasks, task.Follows choices) :
    Quiet e choices after (e.run t after (.tasks tasks)) := by
  rw [run_tasks]
  exact ⟨rfl, rfl, fun task hmem => (List.mem_append.1 hmem).elim (.inr ∘ h task) .inl⟩

theorem runsQuiet_end (h : (t.arena.block block).ops[index]? = none)
    (ih : ReturnsQuiet t s w none none) : RunsQuiet t s w block index := by
  intro hlength e v after hv
  rw [run_none h]
  exact ih hlength e v after hv

theorem runsQuiet_jump {target : BlockId} (h : (t.arena.block block).ops[index]? = some op)
    (hkind : (t.arena.op op).kind = .jump target) : RunsQuiet t s w block index := by
  intro _ e v after hv
  subst hv
  rw [run_terminate h (by rw [hkind]; rfl), terminate, hkind]
  refine quiet_tasks t e after fun task hmem => ?_
  rw [List.mem_singleton.1 hmem]
  exact follows_enter v target (some block)

/-- A fork names a task for each arm, all after the same decisions. -/
theorem runsQuiet_fork (h : (t.arena.block block).ops[index]? = some op)
    (hkind : (∃ cond ifTarget elseTarget,
        (t.arena.op op).kind = .jumpIf cond ifTarget elseTarget) ∨
      ∃ subject cases targets otherwise,
        (t.arena.op op).kind = .switch subject cases targets otherwise) :
    RunsQuiet t s w block index := by
  intro _ e v after hv
  subst hv
  have harms : terminate t v block op = .tasks ((t.arms v (t.arena.op op).kind).map fun arm =>
      .branch v arm.assumption arm.choice arm.target block) := by
    obtain ⟨_, _, _, hk⟩ | ⟨_, _, _, _, hk⟩ := hkind
    · rw [terminate, hk]
      rfl
    · rw [terminate, hk, ← forkSwitch_eq_arms]
  have hterm : (t.arena.op op).kind.isTerminator = true := by
    obtain ⟨_, _, _, hk⟩ | ⟨_, _, _, _, hk⟩ := hkind <;> rw [hk] <;> rfl
  rw [run_terminate h hterm, harms]
  refine quiet_tasks t e after fun task hmem => ?_
  obtain ⟨arm, -, rfl⟩ := List.mem_map.1 hmem
  exact follows_branch v arm.assumption arm.choice arm.target block

theorem runsQuiet_return {value : Option OperandId}
    (h : (t.arena.block block).ops[index]? = some op)
    (hkind : (t.arena.op op).kind = .returns value) (ih : ReturnsQuiet t s w (some op) value) :
    RunsQuiet t s w block index := by
  intro hlength e v after hv
  rw [run_terminate h (by rw [hkind]; rfl), terminate, hkind]
  exact ih hlength e v after hv

theorem runsQuiet_exit (h : (t.arena.block block).ops[index]? = some op)
    (hkind : (∃ value, (t.arena.op op).kind = .exit value) ∨
      ∃ value, (t.arena.op op).kind = .throws value) : RunsQuiet t s w block index := by
  intro _ e v after _
  obtain ⟨_, hk⟩ | ⟨_, hk⟩ := hkind <;>
    rw [run_terminate h (by rw [hk]; rfl), terminate, hk] <;>
    exact quiet_done t e after v

theorem runsQuiet_param {name : OperandId} {default : Option OperandId}
    {defaultBlock : Option BlockId} {byRef variadic : Bool} {type : DeclaredType} {func : FuncId}
    {result : OperandId} (h : (t.arena.block block).ops[index]? = some op)
    (hkind : (t.arena.op op).kind =
      .param name default defaultBlock byRef variadic type func result)
    (ih : RunsQuiet t s w block (index + 1)) : RunsQuiet t s w block index := by
  intro hlength e v after hv
  rw [run_op h (by rw [hkind]; exact Bool.false_ne_true), runOp, hkind]
  exact ih hlength e v after hv

theorem runsQuiet_plain (h : (t.arena.block block).ops[index]? = some op)
    (hplain : IsPlain (t.arena.op op).kind)
    (hfunc : t.followed? (w.pushOp op (t.arena.op op).kind.result?) op = none)
    (ih : RunsQuiet t s (w.pushOp op (t.arena.op op).kind.result?) block (index + 1)) :
    RunsQuiet t s w block index := by
  intro hlength e v after hv
  subst hv
  have hfunc' : t.followed? (v.pushOp op (t.arena.op op).kind.result?) op = none := by
    rw [← followed?_anonymous]
    exact hfunc
  obtain ⟨e₁, hpasses, hrun⟩ := runOp_of_not_followed e block index hplain hfunc'
  rw [run_op h (Bool.eq_false_iff.1 hplain.1), hrun]
  exact .of_passes hpasses (ih hlength e₁ _ after rfl)

theorem runsQuiet_call {func : FuncId} (h : (t.arena.block block).ops[index]? = some op)
    (hplain : IsPlain (t.arena.op op).kind)
    (hfunc : t.followed? (w.pushOp op (t.arena.op op).kind.result?) op = some func)
    (ih : RunsQuiet t ⟨[(t.arena.func func).entry], s.seen :: s.callers, s.assumed⟩
      (t.called (w.pushOp op (t.arena.op op).kind.result?) op func block (index + 1))
      (t.arena.func func).entry 0) : RunsQuiet t s w block index := by
  intro hlength e v after hv
  subst hv
  have hfunc' : t.followed? (v.pushOp op (t.arena.op op).kind.result?) op = some func := by
    rw [← followed?_anonymous]
    exact hfunc
  rw [run_op h (Bool.eq_false_iff.1 hplain.1), runOp_of_followed hfunc']
  generalize hcall : v.pushOp op (t.arena.op op).kind.result? = u
  have hentered : Passes t e [] (e.enterCall t u op func block (index + 1)).2 := by
    refine ⟨rfl, rfl, rfl, Nat.le_succ _, ?_, rfl⟩
    rw [List.take_nil, List.append_nil]
    rfl
  have hchoices := choices_called t (v.anonymous.pushOp op (t.arena.op op).kind.result?) op func
    block (index + 1)
  refine .of_passes hentered (.visit (hchoices ▸ ih ?_ _ _ _ ?_))
  · rw [Terrain.frames_called]
    exact congrArg (· + 1) hlength
  · rw [anonymous_enterCall, ← hcall]
    rfl

theorem returnsQuiet_back {via : Option OpId} {value : Option OperandId} {frame : Frame}
    {rest : List Frame} {seen : List BlockId} {callers : List (List BlockId)}
    (hw : w.frames = frame :: rest) (hs : s.callers = seen :: callers)
    (ih : RunsQuiet t { s with seen, callers } (leaveCall t w frame rest via value)
      frame.resumeBlock frame.resumeIndex) : ReturnsQuiet t s w via value := by
  intro hlength e v after hv
  subst hv
  obtain ⟨frame', rest', hframes, rfl, rfl⟩ := List.map_eq_cons_iff.1 hw
  rw [unwind, hframes, ← choices_leaveCall t v.anonymous frame'.anonymous _ via value]
  refine ih ?_ e _ after (anonymous_leaveCall ..)
  rw [hw, hs] at hlength
  rw [frames_leaveCall]
  exact Nat.succ.inj hlength

theorem returnsQuiet_done {via : Option OpId} {value : Option OperandId}
    (h : ∀ frame rest seen callers,
      w.frames = frame :: rest → s.callers = seen :: callers → False) :
    ReturnsQuiet t s w via value := by
  intro hlength e v after hv
  subst hv
  have hframes : v.frames = [] := by
    cases hv : v.frames with
    | nil => rfl
    | cons frame rest =>
      have hanonymous : v.anonymous.frames = frame.anonymous :: rest.map Frame.anonymous :=
        congrArg (List.map Frame.anonymous) hv
      obtain ⟨seen, callers, hs⟩ : ∃ seen callers, s.callers = seen :: callers := by
        rw [hanonymous] at hlength
        exact List.exists_cons_of_length_eq_add_one hlength.symm
      exact (h _ _ _ _ hanonymous hs).elim
  rw [unwind, hframes]
  exact quiet_done t e after v

end Cases

/-- Running makes no assumption, by induction along the recursive exploration. -/
theorem runsQuiet (t : Terrain) (s : Scope) (w : Walk) (block : BlockId) (index : Nat) :
    RunsQuiet t s w block index := by
  refine (Terrain.walksInto.mutual_induct t (fun _ _ _ _ => True) (RunsQuiet t) (ReturnsQuiet t)
    ?_ ?_ ?_ ?_ ?_ ?_ ?_ ?_ ?_ ?_ ?_ ?_ ?_ ?_ ?_).2.1 s w block index
  · intros
    trivial
  · intros
    trivial
  · intros
    trivial
  · intro s w block index h ih
    exact runsQuiet_end h ih
  · intro s w block index op h _ target hkind _
    exact runsQuiet_jump h hkind
  · intro s w block index op h _ cond ifTarget elseTarget hkind _
    exact runsQuiet_fork h (.inl ⟨_, _, _, hkind⟩)
  · intro s w block index op h _ subject cases targets otherwise hkind _
    exact runsQuiet_fork h (.inr ⟨_, _, _, _, hkind⟩)
  · intro s w block index op h _ value hkind ih
    exact runsQuiet_return h hkind ih
  · intro s w block index op h _ value hkind
    exact runsQuiet_exit h (.inl ⟨_, hkind⟩)
  · intro s w block index op h _ value hkind
    exact runsQuiet_exit h (.inr ⟨_, hkind⟩)
  · intro s w block index op h _ _ _ _ _ _ _ _ _ hkind ih
    exact runsQuiet_param h hkind ih
  · intro s w block index op h _ _ func hfunc _ hjump hif hswitch hreturn hexit hthrow hparam ih
    exact runsQuiet_call h (isPlain_of_not hjump hif hswitch hreturn hexit hthrow hparam) hfunc ih
  · intro s w block index op h _ _ hfunc hjump hif hswitch hreturn hexit hthrow hparam ih
    exact runsQuiet_plain h (isPlain_of_not hjump hif hswitch hreturn hexit hthrow hparam) hfunc ih
  · intro s w via value frame rest seen callers hw hs ih
    exact returnsQuiet_back hw hs ih
  · intro s w via value h
    exact returnsQuiet_done h

theorem choices_commitPhis (a : Arena) (w : Walk) (block : BlockId) (source : Option BlockId) :
    (commitPhis a w block source).choices = w.choices :=
  commitPhis_keep (fun _ _ _ _ => rfl) a w block source

/-- Entering a block makes no assumption, also where a block is met again: the decisions by which
it is left are recorded only. -/
theorem quiet_enter (e : Explorer) (t : Terrain) (w : Walk) (block : BlockId)
    (source : Option BlockId) : Quiet e w.choices [] (e.enter t w block source) := by
  have hchoices := choices_commitPhis t.arena w block source
  unfold enter
  dsimp only
  split
  · exact ⟨rfl, rfl, fun _ => .inl⟩
  split
  · refine ⟨rfl, rfl, fun task hmem => .inr ?_⟩
    obtain ⟨⟨target, choice⟩, -, rfl⟩ := List.mem_map.1 hmem
    refine ⟨Task.noConfusion, fun v hv => ?_⟩
    obtain rfl := Option.some.inj hv
    rw [← hchoices]
    cases choice with
    | none => exact List.prefix_rfl
    | some choice =>
      exact ⟨[choice], Array.toList_push.symm⟩
  · have hquiet := runsQuiet t ⟨[], (commitPhis t.arena w block source).frames.map fun _ => [], []⟩
      (commitPhis t.arena w block source).anonymous block 0
    have hlength : (commitPhis t.arena w block source).anonymous.frames.length =
        ((commitPhis t.arena w block source).frames.map fun _ => ([] : List BlockId)).length := by
      rw [List.length_map]
      exact List.length_map _
    rw [← hchoices]
    exact .visit (hquiet hlength _ _ _ rfl)

/-! ## Stages -/

/-- A decision on a walk and the term that was assumed for it, if any: the decisions by which a
block is left that is met again are not assumed. -/
structure Decision where
  choice : Choice
  assumption : Option (Term Float)

/-- A task that is to be done, and the decisions on the walk to it, in order. -/
structure Pending where
  task : Task
  decisions : List Decision

namespace Pending

/-- The terms assumed at the forks on the walk to a task, in order. -/
def assumed (p : Pending) : List (Term Float) := p.decisions.filterMap Decision.assumption

/-- A task that was named by another one: the decisions that are new on its walk were made with what
that one assumes. -/
def follower (p : Pending) (task : Task) : Pending :=
  let made := match task.walk? with
    | some w => w.choices.toList.drop p.decisions.length
    | none => []
  ⟨task, p.decisions ++ made.map (⟨·, p.task.assumption?⟩)⟩

/-- The decisions are those that the walk of the task has recorded. -/
def Recorded (p : Pending) : Prop :=
  ∀ w, p.task.walk? = some w → p.decisions.map Decision.choice = w.choices.toList

end Pending

/-- The state between two tasks: the explorer, the stack of tasks, and the functions to be explored
after the running one. -/
structure Stage where
  explorer : Explorer
  stack : List Pending
  queue : List FuncId

namespace Stage

/-- The tasks on the stack. -/
def tasks (s : Stage) : List Task := s.stack.map Pending.task

/-- The stage at which exploring a function begins. -/
def enter (e : Explorer) (t : Terrain) (func : FuncId) (queue : List FuncId) : Stage :=
  ⟨{ e with invocations := e.invocations + 1 },
    [⟨.enter { func, invocation := e.invocations } (t.arena.func func).entry none, []⟩], queue⟩

/-- The stage at which exploring functions begins. -/
def start (e : Explorer) (t : Terrain) : List FuncId → Stage
  | [] => ⟨e, [], []⟩
  | func :: queue => enter e t func queue

/-- Does the task on top of the stack; the stack is given up once the budget has run out. When it
is empty, all assumptions are taken back, and the next function is begun if the budget allows. -/
def step (t : Terrain) (s : Stage) : Stage :=
  match s.stack with
  | p :: rest =>
    if s.explorer.remaining t = 0 then ⟨s.explorer.truncate, [], s.queue⟩
    else
      let (e, next) := s.explorer.expand t p.task
      ⟨e, next.map p.follower ++ rest, s.queue⟩
  | [] =>
    if s.explorer.remaining t = 0 then ⟨s.explorer.reset, [], []⟩
    else start s.explorer.reset t s.queue

/-- The stage after a number of steps. -/
def run (t : Terrain) (s : Stage) (n : Nat) : Stage := (step t)^[n] s

/-- What exploring ends with from a stage. -/
def finish (t : Terrain) (s : Stage) : Explorer :=
  let e := (drain t s.explorer s.tasks).reset
  if e.remaining t = 0 then e else e.exploreFuncs t s.queue

/-! ### The stages are those of the exploration -/

theorem depth_repeat_retract (n : Nat) (f : Feasibility Float) :
    (n.repeat Feasibility.retract f).depth = f.depth - n := by
  induction n with
  | zero => rfl
  | succ n ih => rw [Nat.repeat, Feasibility.depth_retract, ih, Nat.sub_sub]

theorem depth_reset (e : Explorer) : e.reset.feasibility.depth = 0 := by
  rw [reset, depth_repeat_retract, Nat.sub_self]

theorem reset_reset (e : Explorer) : e.reset.reset = e.reset := by
  have hdepth := depth_reset e
  rw [reset, hdepth]
  rfl

theorem tasks_follower (p : Pending) (next : List Task) :
    (next.map p.follower).map Pending.task = next := by
  rw [List.map_map]
  exact List.map_id next

theorem finish_nil (t : Terrain) (e : Explorer) (queue : List FuncId) :
    finish t ⟨e, [], queue⟩ =
      if e.remaining t = 0 then e.reset else e.reset.exploreFuncs t queue := by
  unfold finish tasks
  dsimp only
  rw [List.map_nil, drain_nil]
  rfl

theorem finish_start (t : Terrain) {e : Explorer} (h : e.reset = e) (funcs : List FuncId) :
    (start e t funcs).finish t = e.exploreFuncs t funcs := by
  cases funcs with
  | nil =>
    rw [start, finish_nil, h, exploreFuncs]
    exact ite_self _
  | cons func queue =>
    rw [exploreFuncs]
    rfl

theorem finish_step (t : Terrain) (s : Stage) : (s.step t).finish t = s.finish t := by
  obtain ⟨e, stack, queue⟩ := s
  cases stack with
  | nil =>
    rw [finish_nil, step]
    dsimp only
    split
    · rename_i hzero
      rw [finish_nil, reset_reset, exploreFuncs]
      exact ite_self _
    · exact finish_start t (reset_reset e) queue
  | cons p rest =>
    rw [step]
    dsimp only
    split
    · rename_i hzero
      rw [finish_nil, finish, tasks, List.map_cons, drain_of_exhausted hzero]
      rfl
    · rename_i hne
      rw [finish, finish, tasks, tasks, List.map_append, tasks_follower, List.map_cons,
        drain_cons hne]

theorem finish_run (t : Terrain) (s : Stage) (n : Nat) : (s.run t n).finish t = s.finish t := by
  induction n generalizing s with
  | zero => rfl
  | succ n ih => exact (ih (s.step t)).trans (finish_step t s)

end Stage

/-! ### Assumptions and tasks -/

/-- Live assumptions fit a stack of tasks: a task is done under the assumptions on the walk to it,
and one that takes an assumption back takes back the last. -/
inductive Stacked : List (Term Float) → List Pending → Prop
  | nil {live : List (Term Float)} : Stacked live []
  | retract {live : List (Term Float)} {term : Term Float} {decisions : List Decision}
      {rest : List Pending} (below : Stacked live rest) :
      Stacked (live ++ [term]) (⟨.retract, decisions⟩ :: rest)
  | task {p : Pending} {rest : List Pending} (hne : p.task ≠ .retract) (recorded : p.Recorded)
      (below : Stacked p.assumed rest) : Stacked p.assumed (p :: rest)

namespace Pending

variable {p : Pending} {task : Task}

/-- The follower of a task that assumes nothing has the same assumptions. -/
theorem assumed_follower (h : p.task.assumption? = none) :
    (p.follower task).assumed = p.assumed := by
  have hnone (made : List Choice) :
      (made.map fun choice => (⟨choice, none⟩ : Decision)).filterMap Decision.assumption = [] := by
    rw [List.filterMap_map]
    exact List.filterMap_eq_nil_iff.2 fun _ _ => rfl
  unfold follower assumed
  rw [h, List.filterMap_append, hnone, List.append_nil]

theorem recorded_follower {w : Walk} (hw : p.task.walk? = some w) (hp : p.Recorded)
    (h : task.Follows w.choices) : (p.follower task).Recorded := by
  intro v hv
  have hv : task.walk? = some v := hv
  have hlength : p.decisions.length = w.choices.toList.length := by
    rw [← hp w hw, List.length_map]
  obtain ⟨made, hmade⟩ := h.2 v hv
  unfold follower
  rw [hv, List.map_append, hp w hw, List.map_map]
  dsimp only
  rw [← hmade, hlength, List.drop_left]
  exact congrArg (w.choices.toList ++ ·) (List.map_id made)

/-- The arm of a fork that is taken is entered with one assumption more. -/
theorem assumed_follower_branch {w : Walk} {term : Term Float} {choice : Choice}
    {target source : BlockId} (htask : p.task = .branch w term choice target source)
    (hp : p.Recorded) :
    (p.follower (.enter (w.choose choice) target (some source))).assumed = p.assumed ++ [term] := by
  have hlength : p.decisions.length = w.choices.toList.length := by
    rw [← hp w (by rw [htask]; rfl), List.length_map]
  have hmade : (w.choose choice).choices.toList.drop p.decisions.length = [choice] := by
    rw [hlength]
    exact (congrArg (List.drop _) Array.toList_push).trans List.drop_left
  have hfollower : (p.follower (.enter (w.choose choice) target (some source))).decisions =
      p.decisions ++ [⟨choice, some term⟩] := by
    unfold follower
    dsimp only [Task.walk?]
    rw [hmade, htask]
    rfl
  unfold assumed
  rw [hfollower, List.filterMap_append]
  rfl

end Pending

namespace Stacked

variable {live : List (Term Float)} {p : Pending} {rest : List Pending}

theorem of_task (h : Stacked live (p :: rest)) (hne : p.task ≠ .retract) :
    live = p.assumed ∧ p.Recorded ∧ Stacked p.assumed rest := by
  cases h with
  | retract => exact absurd rfl hne
  | task _ hrecorded hbelow => exact ⟨rfl, hrecorded, hbelow⟩

/-- Tasks that follow one without an assumption are put in its place. -/
theorem followers {w : Walk} (hbelow : Stacked p.assumed rest) (hp : p.Recorded)
    (hw : p.task.walk? = some w) (hnone : p.task.assumption? = none) {next : List Task}
    (hnext : ∀ task ∈ next, task.Follows w.choices) :
    Stacked p.assumed (next.map p.follower ++ rest) := by
  induction next with
  | nil => exact hbelow
  | cons task next ih =>
    have hfollows := hnext task List.mem_cons_self
    have hassumed : (p.follower task).assumed = p.assumed := Pending.assumed_follower hnone
    have hrest := ih fun task hmem => hnext task (List.mem_cons_of_mem _ hmem)
    rw [← hassumed] at hrest ⊢
    exact .task hfollows.1 (Pending.recorded_follower hw hp hfollows) hrest

end Stacked

namespace Stage

/-- The live assumptions are not refuted, and they fit the stack. -/
def Sound (s : Stage) : Prop :=
  ∃ live, s.explorer.feasibility.Assumes live ∧ Stacked live s.stack

variable {s : Stage}

theorem assumes_reset {live : List (Term Float)} (h : e.feasibility.Assumes live) :
    e.reset.feasibility.Assumes [] := by
  have hnone : (live.length.repeat Feasibility.retract e.feasibility).Assumes [] :=
    .repeat_retract h
  rwa [← h.depth] at hnone

theorem Sound.start (h : e.feasibility.Assumes []) (t : Terrain) (funcs : List FuncId) :
    (start e t funcs).Sound := by
  cases funcs with
  | nil => exact ⟨[], h, .nil⟩
  | cons func queue =>
    have hrecorded : Pending.Recorded ⟨.enter { func, invocation := e.invocations }
        (t.arena.func func).entry none, []⟩ := by
      intro w hw
      obtain rfl := Option.some.inj hw
      rfl
    exact ⟨[], h, .task Task.noConfusion hrecorded .nil⟩

/-- Doing a task keeps the live assumptions in line with the stack. -/
theorem Sound.expand {p : Pending} {rest : List Pending} {live : List (Term Float)}
    (hlive : e.feasibility.Assumes live) (hstack : Stacked live (p :: rest)) (t : Terrain) :
    ∃ live', (e.expand t p.task).1.feasibility.Assumes live' ∧
      Stacked live' ((e.expand t p.task).2.map p.follower ++ rest) := by
  cases hstack with
  | retract hbelow => exact ⟨_, hlive.retract, hbelow⟩
  | task hne hrecorded hbelow =>
    cases htask : p.task with
    | retract => exact absurd htask hne
    | leave place => exact ⟨_, hlive, hbelow⟩
    | enter w block source =>
      have hquiet := quiet_enter e t w block source
      refine ⟨p.assumed, hlive.of_solver hquiet.solver hquiet.depth, ?_⟩
      refine hbelow.followers hrecorded (by rw [htask]; rfl) (by rw [htask]; rfl) fun task hmem => ?_
      exact (hquiet.tasks task hmem).resolve_left List.not_mem_nil
    | branch w term choice target source =>
      unfold Explorer.expand
      dsimp only
      split
      · rename_i haccepted
        have hassumed := Pending.assumed_follower_branch htask hrecorded
        refine ⟨p.assumed ++ [term], hlive.assume haccepted, ?_⟩
        rw [← hassumed]
        refine .task Task.noConfusion ?_ ?_
        · refine Pending.recorded_follower (by rw [htask]; rfl) hrecorded ⟨Task.noConfusion, ?_⟩
          intro v hv
          obtain rfl := Option.some.inj hv
          exact ⟨[choice], Array.toList_push.symm⟩
        · rw [hassumed]
          exact .retract hbelow
      · exact ⟨p.assumed, hlive.retract_assume term, hbelow⟩

theorem Sound.step (h : s.Sound) (t : Terrain) : (s.step t).Sound := by
  obtain ⟨e, stack, queue⟩ := s
  obtain ⟨live, hlive, hstack⟩ := h
  cases stack with
  | nil =>
    rw [Stage.step]
    dsimp only
    split
    · exact ⟨[], assumes_reset hlive, .nil⟩
    · exact .start (assumes_reset hlive) t queue
  | cons p rest =>
    rw [Stage.step]
    dsimp only
    split
    · exact ⟨live, hlive, .nil⟩
    · exact Sound.expand hlive hstack t

theorem Sound.run (h : s.Sound) (t : Terrain) (n : Nat) : (s.run t n).Sound := by
  induction n generalizing s with
  | zero => exact h
  | succ n ih => exact ih (h.step t)

/-- The discipline of assumptions. A task on top of the stack, unless it takes an assumption back,
is about to be done under exactly the terms assumed at the forks on its walk, in order; the live
assumptions are not refuted; and the answer to any further assumption, literals included, is what
the solver says of all assertions together. -/
structure Disciplined (s : Stage) : Prop where
  top : ∀ p ∈ s.stack.head?, p.task ≠ .retract → p.Recorded ∧
    s.explorer.feasibility.solver.assertions.toList = p.assumed ∧
    s.explorer.feasibility.depth = p.assumed.length
  live : s.explorer.feasibility.solver.check.isFeasible = true
  verdict : ∀ term, (s.explorer.feasibility.assume term).1 =
    (s.explorer.feasibility.solver.push.assert term).check.isFeasible

theorem Sound.disciplined (h : s.Sound) : s.Disciplined := by
  obtain ⟨live, hlive, hstack⟩ := h
  refine ⟨fun p hp hne => ?_, hlive.check, hlive.assume_eq⟩
  obtain ⟨rest, hrest⟩ := List.head?_eq_some_iff.1 hp
  rw [hrest] at hstack
  obtain ⟨rfl, hrecorded, -⟩ := hstack.of_task hne
  exact ⟨hrecorded, hlive.assertions, hlive.depth⟩

end Stage

theorem depth_exploreFuncs {e : Explorer} (h : e.feasibility.depth = 0) (t : Terrain)
    (funcs : List FuncId) : (e.exploreFuncs t funcs).feasibility.depth = 0 := by
  induction funcs generalizing e with
  | nil => exact h
  | cons func funcs ih =>
    rw [exploreFuncs]
    split
    · exact Stage.depth_reset _
    · exact ih (Stage.depth_reset _)

/-- Exploring functions under any budget keeps the discipline of assumptions at every stage, from
which it goes on to what it gives in the end; and then no assumption is left. -/
theorem disciplined_exploreFuncs (t : Terrain) (funcs : List FuncId) :
    (∀ n, ((Stage.start {} t funcs).run t n).Disciplined ∧
      ((Stage.start {} t funcs).run t n).finish t = ({} : Explorer).exploreFuncs t funcs) ∧
    (({} : Explorer).exploreFuncs t funcs).feasibility.depth = 0 := by
  refine ⟨fun n => ⟨?_, ?_⟩, depth_exploreFuncs rfl t funcs⟩
  · have hstart : (Stage.start {} t funcs).Sound := .start (.nil rfl rfl) t funcs
    exact (hstart.run t n).disciplined
  · rw [Stage.finish_run]
    exact Stage.finish_start t rfl funcs

end Explorer

end QueryTaint
