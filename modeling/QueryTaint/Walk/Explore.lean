import QueryTaint.Term.Feasibility
import QueryTaint.Walk.Callee
import QueryTaint.Walk.Condition

/-!
# Exploring walks

All walks from the entry of a function, depth first and across calls. The work is divided into
tasks on a stack: `Explorer.expand` does one task and names the tasks that are to be done next, in
order, and `Explorer.drain` goes on until the stack is empty. The arms of a fork are tried one after
the other, each under the same assumptions.

A block that is met again while it is on the walk (the end of a loop) is not run again: its φs take
the values of the back edge, and the walk leaves through successors that are not on the walk. So
every loop runs once.
-/

namespace QueryTaint

/-! ## Loops -/

section Loop

variable {α β : Type} [Nonempty β]

/-- Goes from state to state until a step gives a result. -/
def loop (step : α → α ⊕ β) (state : α) : β := Id.run (repeatM (fun state => pure (step state)) state)

variable {step : α → α ⊕ β} {state next : α} {result : β}

theorem loop_of_inl (h : step state = .inl next) : loop step state = loop step next := by
  rw [loop, repeatM_eq_of_monadTail, repeatM.body, h]
  rfl

theorem loop_of_inr (h : step state = .inr result) : loop step state = result := by
  rw [loop, repeatM_eq_of_monadTail, repeatM.body, h]
  rfl

end Loop

/-! ## Tasks and limits -/

/-- A block in an invocation of its function. The number of the invocation is assumed to be less than
2³². -/
structure Place where
  invocation : Nat
  block : BlockId
deriving DecidableEq, Repr, Inhabited

/-- What is to be done: to enter a block from another one, to take an arm of a fork if it is
feasible, to take a block off the walk, or to take an assumption back. -/
inductive Task where
  | enter (walk : Walk) (block : BlockId) (source : Option BlockId)
  | branch (walk : Walk) (assumption : Term Float) (choice : Choice) (target source : BlockId)
  | leave (place : Place)
  | retract

/-- What exploring counted: walks, calls that were entered and those that were not, loops that were
cut, and whether the budget of walks ran out. -/
structure ExploreStats where
  walks : Nat := 0
  entered : Nat := 0
  skipped : Nat := 0
  cut : Nat := 0
  truncated : Bool := false
deriving DecidableEq, Repr, Inhabited

/-- How deep calls are entered and how many walks are made. -/
structure Limits where
  maxDepth : Nat
  maxWalks : Nat
deriving DecidableEq, Repr, Inhabited

/-- The program that is explored, the operand of null, and the limits. -/
structure Terrain where
  resolver : Resolver
  null : OperandId
  limits : Limits
deriving Inhabited

/-- The program of a terrain. -/
def Terrain.arena (t : Terrain) : Arena := t.resolver.arena

/-- The state of exploring: the live assumptions, the places on the current walk, the number of
invocations so far, the walks that were completed, and the counts. The number of invocations is
assumed to stay below 2³², so that none is given out twice in 32 bits. -/
structure Explorer where
  feasibility : Feasibility Float := {}
  places : List Place := []
  invocations : Nat := 0
  found : Array Walk := #[]
  stats : ExploreStats := {}
deriving Inhabited

namespace Explorer

/-- How many walks may still be made. -/
def remaining (e : Explorer) (t : Terrain) : Nat := t.limits.maxWalks - e.stats.walks

/-- Notes that the budget ran out. -/
def truncate (e : Explorer) : Explorer := { e with stats := { e.stats with truncated := true } }

/-- Completes a walk. -/
def commit (e : Explorer) (t : Terrain) (w : Walk) : Explorer :=
  if e.remaining t = 0 then e.truncate
  else
    { e with
      found := e.found.push w
      stats := { e.stats with walks := e.stats.walks + 1 } }

/-! ## Entering blocks -/

/-- The value that flows into a φ: that of the edge taken, else the first one that was written,
else the first one. -/
def incoming? (slot : Option Nat) (known : Std.TreeSet OperandId) (vars : List OperandId) :
    Option OperandId :=
  ((slot.bind fun i => vars[i]?).or (vars.find? known.contains)).or vars.head?

/-- Lets values flow into the φs of a block that is entered from another one. -/
def commitPhis (a : Arena) (w : Walk) (block : BlockId) (source : Option BlockId) : Walk :=
  let slot := source.bind fun source => (a.livePreds block).findIdx? (· = source)
  (a.block block).phis.foldl (fun w phi =>
    match (a.op phi).kind with
    | .phi vars result =>
      match incoming? slot w.known vars with
      | some value => w.bind none result (some value)
      | none => w
    | _ => w) w

/-- The ways out of a block, each with what is decided by it. -/
def exits : OpKind → List (BlockId × Option Choice)
  | .jump target => [(target, none)]
  | .jumpIf cond ifTarget elseTarget =>
    [(ifTarget, some (.branch cond true)), (elseTarget, some (.branch cond false))]
  | .switch subject cases targets otherwise =>
    (cases.zip targets).map (fun (value, target) => (target, some (.case subject value)))
      ++ [(otherwise, some (.default subject))]
  | _ => []

/-- Leaves a block that is on the walk already, through the live blocks that are not. The decisions
belong to a later evaluation of the block's condition, so they are recorded and not assumed. -/
def reenter (e : Explorer) (t : Terrain) (w : Walk) (block : BlockId) : Explorer × List Task :=
  let leaving := match t.arena.terminator? block with
    | some op => exits (t.arena.op op).kind
    | none => []
  let leaving := leaving.filter fun (target, _) =>
    !e.places.contains ⟨w.invocation, target⟩ && !(t.arena.block target).dead
  ({ e with stats := { e.stats with cut := e.stats.cut + 1 } },
    leaving.map fun (target, choice) =>
      .enter (match choice with
        | some choice => w.choose choice
        | none => w) target (some block))

/-- Puts a place on the walk; the task takes it off again. -/
def visit (e : Explorer) (place : Place) : Explorer × Task :=
  ({ e with places := place :: e.places }, .leave place)

/-! ## Forks -/

/-- The two arms of a branch. -/
def forkIf (t : Terrain) (w : Walk) (block : BlockId) (cond : OperandId)
    (ifTarget elseTarget : BlockId) : List Task :=
  let term := ((⟨t.arena, w.overrides⟩ : Moment).condition cond).value
  [.branch w term (.branch cond true) ifTarget block,
    .branch w term.not (.branch cond false) elseTarget block]

/-- The arms of a switch. -/
def forkSwitch (t : Terrain) (w : Walk) (block : BlockId) (subject : OperandId)
    (cases : List OperandId) (targets : List BlockId) (otherwise : BlockId) : List Task :=
  let m : Moment := ⟨t.arena, w.overrides⟩
  let equations := cases.map fun case => (m.caseEquality subject case).value
  ((cases.zip equations).zip targets).map (fun ((case, equation), target) =>
      .branch w equation (.case subject case) target block)
    ++ [.branch w (.and (equations.map Term.not)) (.default subject) otherwise block]

/-! ## Calls -/

/-- The function that a call enters, with the call counted if it is not entered: one that cannot be
resolved, that is active already, or that is too deep. -/
def callee? (e : Explorer) (t : Terrain) (w : Walk) (call : OpId) : Option FuncId × Explorer :=
  let skip : Explorer := { e with stats := { e.stats with skipped := e.stats.skipped + 1 } }
  match t.resolver.scriptOf? w.func with
  | none => (none, e)
  | some script =>
    match t.resolver.resolve? script w.func call w.overrides with
    | none => (none, skip)
    | some func =>
      if w.isActive func || t.limits.maxDepth ≤ w.depth then (none, skip) else (some func, e)

/-- Lets arguments flow into parameters. A parameter without an argument has its default or is
null. -/
def bindParams (t : Terrain) (args : List OperandId) (w : Walk) : List OpId → Walk
  | [] => w
  | param :: rest =>
    let w := match (t.arena.op param).kind with
      | .param _ default _ _ _ _ _ result =>
        w.bind (some param) result (some ((args.head?.or default).getD t.null))
      | _ => w
    bindParams t args.tail w rest

/-- Lets the captured values of a closure flow into its variables. -/
def bindCaptures (t : Terrain) (w : Walk) (callable : Option OpId) : Walk :=
  match callable.map fun op => (t.arena.op op).kind with
  | some (.closure _ uses _) =>
    uses.foldl (fun w bound =>
      match (t.arena.operand bound).kind with
      | .bound _ (some value) _ _ => w.bind none bound (some value)
      | _ => w) w
  | _ => w

/-- Enters a function; the caller goes on at a place of its own. -/
def enterCall (e : Explorer) (t : Terrain) (w : Walk) (call : OpId) (func : FuncId)
    (resumeBlock : BlockId) (resumeIndex : Nat) : Walk × Explorer :=
  let record := t.arena.func func
  let w := bindParams t ((t.arena.op call).kind.operandList .args) w record.params
  let w := bindCaptures t w record.callable
  let frame : Frame :=
    ⟨func, e.invocations, call, resumeBlock, resumeIndex, w.invocation, w.func⟩
  ({ w with frames := frame :: w.frames, func, invocation := e.invocations },
    { e with
      invocations := e.invocations + 1
      stats := { e.stats with entered := e.stats.entered + 1 } })

/-- Returns from a call: the value flows into the result of the call, unless it makes an object. -/
def leaveCall (t : Terrain) (w : Walk) (frame : Frame) (rest : List Frame) (via : Option OpId)
    (value : Option OperandId) : Walk :=
  let kind := (t.arena.op frame.call).kind
  let w := { w with frames := rest, returned := value }
  let w := match kind, kind.result? with
    | .new .., _ => w
    | _, some result => w.bind via result value
    | _, none => w
  { w with func := frame.callerFunc, invocation := frame.callerInvocation }

/-! ## Running -/

/-- What comes after an operation: the walk goes on at a place, is complete, or ends in tasks. -/
inductive Next where
  | run (walk : Walk) (block : BlockId) (index : Nat)
  | done (walk : Walk)
  | tasks (next : List Task)

/-- Returns to the caller, or completes the walk if there is none. -/
def unwind (t : Terrain) (w : Walk) (via : Option OpId) (value : Option OperandId) : Next :=
  match w.frames with
  | [] => .done w
  | frame :: rest =>
    .run (leaveCall t w frame rest via value) frame.resumeBlock frame.resumeIndex

/-- What comes after the operation at the end of a block. -/
def terminate (t : Terrain) (w : Walk) (block : BlockId) (op : OpId) : Next :=
  match (t.arena.op op).kind with
  | .jump target => .tasks [.enter w target (some block)]
  | .jumpIf cond ifTarget elseTarget => .tasks (forkIf t w block cond ifTarget elseTarget)
  | .switch subject cases targets otherwise =>
    .tasks (forkSwitch t w block subject cases targets otherwise)
  | .returns value => unwind t w (some op) value
  | _ => .done w

/-- Runs an operation that ends no block. A call that is entered puts the entry of its function on
the walk, with a task that takes it off. -/
def runOp (e : Explorer) (t : Terrain) (w : Walk) (block : BlockId) (index : Nat) (op : OpId) :
    Next × List Task × Explorer :=
  match (t.arena.op op).kind with
  | .param .. => (.run w block (index + 1), [], e)
  | .functionCall .. | .methodCall .. | .staticCall .. | .new .. =>
    let w := w.pushOp op (t.arena.op op).kind.result?
    match e.callee? t w op with
    | (none, e) => (.run w block (index + 1), [], e)
    | (some func, e) =>
      let (w, e) := e.enterCall t w op func block (index + 1)
      let entry := (t.arena.func func).entry
      let (e, task) := e.visit ⟨w.invocation, entry⟩
      (.run w entry 0, [task], e)
  | kind => (.run (w.pushOp op kind.result?) block (index + 1), [], e)

/-- What a run does next: one operation, or what comes at the end of a block or of the walk. -/
def runStep (t : Terrain) (e : Explorer) (after : List Task) :
    Next → (Explorer × List Task × Next) ⊕ (Explorer × List Task)
  | .done w => .inr (e.commit t w, after)
  | .tasks next => .inr (e, next ++ after)
  | .run w block index =>
    match (t.arena.block block).ops[index]? with
    | none => .inl (e, after, unwind t w none none)
    | some op =>
      if (t.arena.op op).kind.isTerminator then .inl (e, after, terminate t w block op)
      else
        let (next, leave, e) := e.runOp t w block index op
        .inl (e, leave ++ after, next)

/-- Runs operations from a place until the walk forks, jumps or is complete. The tasks after it are
given and come last. -/
def run (e : Explorer) (t : Terrain) (after : List Task) (next : Next) : Explorer × List Task :=
  loop (fun (e, after, next) => runStep t e after next) (e, after, next)

/-! ## Tasks -/

/-- Enters a block. -/
def enter (e : Explorer) (t : Terrain) (w : Walk) (block : BlockId) (source : Option BlockId) :
    Explorer × List Task :=
  if (t.arena.block block).dead then (e, [])
  else
    let w := commitPhis t.arena w block source
    let place : Place := ⟨w.invocation, block⟩
    if place ∈ e.places then e.reenter t w block
    else
      let (e, task) := e.visit place
      e.run t [task] (.run w block 0)

/-- Does a task, and names the tasks to be done next. -/
def expand (e : Explorer) (t : Terrain) : Task → Explorer × List Task
  | .leave place => ({ e with places := e.places.erase place }, [])
  | .retract => ({ e with feasibility := e.feasibility.retract }, [])
  | .branch w assumption choice target source =>
    let (feasible, feasibility) := e.feasibility.assume assumption
    let e := { e with feasibility }
    if feasible then (e, [.enter (w.choose choice) target (some source), .retract])
    else ({ e with feasibility := feasibility.retract }, [])
  | .enter w block source => e.enter t w block source

/-- Does the first task of a stack; what follows from it comes before the other tasks. -/
def drainStep (t : Terrain) (e : Explorer) : List Task → (Explorer × List Task) ⊕ Explorer
  | [] => .inr e
  | task :: rest =>
    if e.remaining t = 0 then .inr e.truncate
    else
      let (e, next) := e.expand t task
      .inl (e, next ++ rest)

/-- Does tasks from a stack until there is none left, each with all that follows from it before the
next one. Nothing is done once the budget has run out. -/
def drain (t : Terrain) (e : Explorer) (tasks : List Task) : Explorer :=
  loop (fun (e, tasks) => drainStep t e tasks) (e, tasks)

/-- Takes all assumptions back and empties the walk. -/
def reset (e : Explorer) : Explorer :=
  { e with
    feasibility := e.feasibility.depth.repeat Feasibility.retract e.feasibility
    places := [] }

/-- All walks from the entry of a function, after those found before. -/
def exploreFunc (e : Explorer) (t : Terrain) (func : FuncId) : Explorer :=
  let walk : Walk := { func, invocation := e.invocations }
  let e := { e with invocations := e.invocations + 1 }
  (drain t e [.enter walk (t.arena.func func).entry none]).reset

/-- All walks from the entries of functions, until the budget runs out. -/
def exploreFuncs (e : Explorer) (t : Terrain) : List FuncId → Explorer
  | [] => e
  | func :: rest =>
    let e := e.exploreFunc t func
    if e.remaining t = 0 then e else e.exploreFuncs t rest

end Explorer

end QueryTaint
