import QueryTaint.Proofs.Walk.Scope

/-!
# The stack of tasks

Exploring with a stack of tasks finds the walks of the recursive exploration, in its order. Each
case of the recursion is one lemma about what a task or a run leads to, and the recursion's own
induction puts them together.
-/

namespace QueryTaint

namespace Explorer

variable {t : Terrain} {e e₁ : Explorer} {ws : List Walk} {s : Scope}

/-! ## The cases of the recursion -/

/-- Entering a block finds the walks of the recursion. -/
def Enters (t : Terrain) (s : Scope) (w : Walk) (block : BlockId) (source : Option BlockId) :
    Prop :=
  ∀ (e : Explorer) (v : Walk), v.anonymous = w → e.Tracks v.openInvocations s →
    Leads t e (e, [.enter v block source]) [] (t.walksInto s w block source)

/-- Running a block from a place in it finds the walks of the recursion. -/
def Runs (t : Terrain) (s : Scope) (w : Walk) (block : BlockId) (index : Nat) : Prop :=
  ∀ (e : Explorer) (v : Walk) (after : List Task), v.anonymous = w →
    e.Tracks v.openInvocations s →
    Leads t e (e.run t after (.run v block index)) after (t.walksFrom s w block index)

/-- Returning from a function finds the walks of the recursion. -/
def Returns (t : Terrain) (s : Scope) (w : Walk) (via : Option OpId) (value : Option OperandId) :
    Prop :=
  ∀ (e : Explorer) (v : Walk) (after : List Task), v.anonymous = w →
    e.Tracks v.openInvocations s →
    Leads t e (e.run t after (unwind t v via value)) after (t.walksBack s w via value)

variable {w : Walk} {block : BlockId} {source : Option BlockId}

theorem enters_dead (hdead : (t.arena.block block).dead = true) : Enters t s w block source := by
  intro e v _ _
  refine .of_expand ?_
  rw [expand, enter, if_pos hdead, Terrain.walksInto, if_pos hdead]
  exact .nil t e

theorem enters_fresh (hlive : ¬(t.arena.block block).dead = true) (hseen : block ∉ s.seen)
    (ih : Runs t { s with seen := block :: s.seen } (commitPhis t.arena w block source) block 0) :
    Enters t s w block source := by
  intro e v hv htracks
  subst hv
  have hopen := openInvocations_commitPhis t.arena v block source
  have hplace : ¬(⟨(commitPhis t.arena v block source).invocation, block⟩ : Place) ∈ e.places := by
    rw [← hopen] at htracks
    rwa [htracks.mem_places]
  refine .of_expand ?_
  rw [expand, enter, if_neg hlive, if_neg hplace, Terrain.walksInto, if_neg hlive, dif_neg hseen]
  refine .leave (ih _ _ _ (anonymous_commitPhis ..) ?_)
  rw [← hopen] at htracks
  exact htracks.visit block

theorem enters_again (hlive : ¬(t.arena.block block).dead = true) (hseen : block ∈ s.seen)
    (ih : ∀ (target : BlockId) (choice : Option Choice), target ∉ s.seen →
      Enters t s ((commitPhis t.arena w block source).chooseAny choice) target (some block)) :
    Enters t s w block source := by
  intro e v hv htracks
  subst hv
  rw [← openInvocations_commitPhis t.arena v block source] at htracks
  have hplace : (⟨(commitPhis t.arena v block source).invocation, block⟩ : Place) ∈ e.places :=
    (htracks.mem_places block).2 hseen
  have hpasses : Passes t e [] (e.reenter t (commitPhis t.arena v block source) block).1 :=
    .recount t e rfl
  -- the ways out that lead to a block on the walk, or to a dead one, are left out by both
  have hways : (fun way : BlockId × Option Choice =>
        way.1 ∉ s.seen && !(t.arena.block way.1).dead) = fun way =>
      !e.places.contains ⟨(commitPhis t.arena v block source).invocation, way.1⟩ &&
        !(t.arena.block way.1).dead := by
    funext way
    rw [List.contains_eq_mem, ← decide_not, decide_eq_decide.2 (htracks.mem_places way.1).not]
  refine .of_expand (.of_passes hpasses ?_)
  rw [expand, enter, if_neg hlive, if_pos hplace,
    t.walksInto_of_seen (Bool.eq_false_iff.2 hlive) hseen, hways]
  refine Leads.map ?_ (hpasses.tracks htracks)
  intro (target, choice) hmem e' htracks'
  have htarget : target ∉ s.seen := by
    rw [← hways, List.mem_filter, Bool.and_eq_true] at hmem
    exact of_decide_eq_true hmem.2.1
  refine ih target choice htarget e' _ ?_ ?_
  · cases choice with
    | some choice => exact congrArg (Walk.choose · choice) (anonymous_commitPhis ..)
    | none => exact anonymous_commitPhis ..
  · cases choice <;> exact htracks'

/-! ### Running -/

variable {index : Nat} {op : OpId} {after : List Task}

theorem run_none (h : (t.arena.block block).ops[index]? = none) (v : Walk) :
    e.run t after (.run v block index) = e.run t after (unwind t v none none) :=
  loop_of_inl (by simp only [runStep, h])

theorem run_terminate (h : (t.arena.block block).ops[index]? = some op)
    (hterm : (t.arena.op op).kind.isTerminator = true) (v : Walk) :
    e.run t after (.run v block index) = e.run t after (terminate t v block op) :=
  loop_of_inl (by simp only [runStep, h, if_pos hterm])

theorem run_op (h : (t.arena.block block).ops[index]? = some op)
    (hterm : ¬(t.arena.op op).kind.isTerminator = true) (v : Walk) :
    e.run t after (.run v block index) =
      (e.runOp t v block index op).2.2.run t ((e.runOp t v block index op).2.1 ++ after)
        (e.runOp t v block index op).1 :=
  loop_of_inl (by simp only [runStep, h, if_neg hterm])

theorem run_done (v : Walk) : e.run t after (.done v) = (e.commit t v, after) := loop_of_inr rfl

theorem run_tasks (tasks : List Task) : e.run t after (.tasks tasks) = (e, tasks ++ after) :=
  loop_of_inr rfl

theorem leads_done (t : Terrain) (e : Explorer) (after : List Task) (v : Walk) :
    Leads t e (e.run t after (.done v)) after [v.anonymous] := by
  rw [run_done]
  exact ⟨e.commit t v, .commit t e v, fun _ => .rfl⟩

theorem runs_end (h : (t.arena.block block).ops[index]? = none) (ih : Returns t s w none none) :
    Runs t s w block index := by
  intro e v after hv htracks
  rw [run_none h, Terrain.walksFrom_end h]
  exact ih e v after hv htracks

theorem runs_jump {target : BlockId} (h : (t.arena.block block).ops[index]? = some op)
    (hkind : (t.arena.op op).kind = .jump target) (ih : Enters t s w target (some block)) :
    Runs t s w block index := by
  intro e v after hv htracks
  rw [run_terminate h (by rw [hkind]; rfl), Terrain.walksFrom_of_op h, terminate, hkind]
  dsimp only
  rw [run_tasks]
  exact (ih e v hv htracks).append_after after

/-- An arm of a fork is taken under its assumption, or not at all. -/
theorem leads_branch {arm : Arm} {v : Walk}
    (ih : Enters t { s with assumed := s.assumed ++ [arm.assumption] }
      (v.anonymous.choose arm.choice) arm.target (some block))
    (htracks : e.Tracks v.openInvocations s) :
    Leads t e (e, [.branch v arm.assumption arm.choice arm.target block]) []
      (if feasible s.assumed arm.assumption then
        t.walksInto { s with assumed := s.assumed ++ [arm.assumption] }
          (v.anonymous.choose arm.choice) arm.target (some block)
      else []) := by
  refine .of_expand ?_
  have hfeasible : (e.feasibility.assume arm.assumption).1 = feasible s.assumed arm.assumption := by
    rw [Feasibility.assume_eq_feasible, htracks.assumed]
  rw [expand, ← hfeasible]
  dsimp only
  split
  · exact .retract (ih _ (v.choose arm.choice) rfl (htracks.assume arm.assumption))
  · exact ⟨_, Passes.retract (.refl t _), fun _ => .rfl⟩

theorem runs_fork (h : (t.arena.block block).ops[index]? = some op)
    (hkind : (∃ cond ifTarget elseTarget,
        (t.arena.op op).kind = .jumpIf cond ifTarget elseTarget) ∨
      ∃ subject cases targets otherwise,
        (t.arena.op op).kind = .switch subject cases targets otherwise)
    (ih : ∀ arm : Arm, Enters t { s with assumed := s.assumed ++ [arm.assumption] }
      (w.choose arm.choice) arm.target (some block)) :
    Runs t s w block index := by
  intro e v after hv htracks
  subst hv
  have hterm : (t.arena.op op).kind.isTerminator = true := by
    obtain ⟨_, _, _, hk⟩ | ⟨_, _, _, _, hk⟩ := hkind <;> rw [hk] <;> rfl
  have htasks : terminate t v block op = .tasks ((t.arms v (t.arena.op op).kind).map fun arm =>
      .branch v arm.assumption arm.choice arm.target block) := by
    obtain ⟨cond, ifTarget, elseTarget, hk⟩ | ⟨subject, cases, targets, otherwise, hk⟩ := hkind
    · rw [terminate, hk]
      rfl
    · rw [terminate, hk, ← forkSwitch_eq_arms]
  have hwalks : t.walksFrom s v.anonymous block index =
      (t.arms v (t.arena.op op).kind).flatMap fun arm =>
        if feasible s.assumed arm.assumption then
          t.walksInto { s with assumed := s.assumed ++ [arm.assumption] }
            (v.anonymous.choose arm.choice) arm.target (some block)
        else [] := by
    rw [Terrain.walksFrom_of_op h, arms_anonymous]
    obtain ⟨_, _, _, hk⟩ | ⟨_, _, _, _, hk⟩ := hkind <;> rw [hk]
  rw [run_terminate h hterm, htasks, run_tasks, hwalks]
  exact .append_after (.map (fun arm _ e htracks => leads_branch (ih arm) htracks) htracks) after

theorem runs_return {value : Option OperandId} (h : (t.arena.block block).ops[index]? = some op)
    (hkind : (t.arena.op op).kind = .returns value) (ih : Returns t s w (some op) value) :
    Runs t s w block index := by
  intro e v after hv htracks
  rw [run_terminate h (by rw [hkind]; rfl), Terrain.walksFrom_of_op h, terminate, hkind]
  exact ih e v after hv htracks

theorem runs_exit (h : (t.arena.block block).ops[index]? = some op)
    (hkind : (∃ value, (t.arena.op op).kind = .exit value) ∨
      ∃ value, (t.arena.op op).kind = .throws value) : Runs t s w block index := by
  intro e v after hv htracks
  subst hv
  rw [Terrain.walksFrom_of_op h]
  obtain ⟨_, hk⟩ | ⟨_, hk⟩ := hkind <;>
    rw [run_terminate h (by rw [hk]; rfl), terminate, hk] <;>
    exact leads_done t e after v

theorem runs_param {name : OperandId} {default : Option OperandId} {defaultBlock : Option BlockId}
    {byRef variadic : Bool} {type : DeclaredType} {func : FuncId} {result : OperandId}
    (h : (t.arena.block block).ops[index]? = some op)
    (hkind : (t.arena.op op).kind =
      .param name default defaultBlock byRef variadic type func result)
    (ih : Runs t s w block (index + 1)) : Runs t s w block index := by
  intro e v after hv htracks
  rw [run_op h (by rw [hkind]; exact Bool.false_ne_true), Terrain.walksFrom_of_op h, runOp, hkind]
  exact ih e v after hv htracks

/-! ### Calls -/

theorem callee?_of_followed {v : Walk} {func : FuncId} (h : t.followed? v op = some func) :
    e.callee? t v op = (some func, e) := by
  unfold Terrain.followed? at h
  split at h
  case isFalse => cases h
  obtain ⟨script, hscript, h⟩ := Option.bind_eq_some_iff.1 h
  obtain ⟨f, hresolve, h⟩ := Option.bind_eq_some_iff.1 h
  split at h
  · cases h
  · rename_i hnot
    cases h
    rw [callee?, hscript]
    dsimp only
    rw [hresolve]
    exact if_neg hnot

/-- A call that is not followed is at most counted. -/
theorem callee?_of_not_followed {v : Walk} (hcalls : (t.arena.op op).kind.callsFunction = true)
    (h : t.followed? v op = none) : ∃ e₁, Passes t e [] e₁ ∧ e.callee? t v op = (none, e₁) := by
  have hskip : Passes t e []
      { e with stats := { e.stats with skipped := e.stats.skipped + 1 } } := .recount t e rfl
  rw [Terrain.followed?, if_pos hcalls] at h
  unfold callee?
  cases hscript : t.resolver.scriptOf? v.func with
  | none => exact ⟨e, .refl t e, rfl⟩
  | some script =>
    cases hresolve : t.resolver.resolve? script v.func op v.overrides with
    | none =>
      refine ⟨_, hskip, ?_⟩
      dsimp only
      rw [hresolve]
    | some func =>
      simp only [hscript, hresolve, Option.bind_eq_bind, Option.bind_some] at h
      split at h
      · rename_i hactive
        refine ⟨_, hskip, ?_⟩
        dsimp only
        rw [hresolve]
        exact if_pos hactive
      · cases h

/-- An operation that neither ends a block nor declares a parameter. -/
def IsPlain (kind : OpKind) : Prop :=
  kind.isTerminator = false ∧ ∀ name default defaultBlock byRef variadic type func result,
    kind ≠ .param name default defaultBlock byRef variadic type func result

theorem walksFrom_of_isPlain (h : (t.arena.block block).ops[index]? = some op)
    (hplain : IsPlain (t.arena.op op).kind) :
    t.walksFrom s w block index =
      match t.followed? (w.pushOp op (t.arena.op op).kind.result?) op with
      | some func =>
        t.walksFrom ⟨[(t.arena.func func).entry], s.seen :: s.callers, s.assumed⟩
          (t.called (w.pushOp op (t.arena.op op).kind.result?) op func block (index + 1))
          (t.arena.func func).entry 0
      | none => t.walksFrom s (w.pushOp op (t.arena.op op).kind.result?) block (index + 1) := by
  rw [Terrain.walksFrom_of_op h]
  obtain ⟨hterm, hparam⟩ := hplain
  cases hkind : (t.arena.op op).kind
  case jump | jumpIf | switch | returns | exit | throws => rw [hkind] at hterm; cases hterm
  case param => exact (hparam _ _ _ _ _ _ _ _ hkind).elim
  all_goals rfl

theorem runOp_of_followed {v : Walk} {func : FuncId}
    (hfunc : t.followed? (v.pushOp op (t.arena.op op).kind.result?) op = some func) :
    e.runOp t v block index op =
      let u := v.pushOp op (t.arena.op op).kind.result?
      let v' := (e.enterCall t u op func block (index + 1)).1
      let e₁ := (e.enterCall t u op func block (index + 1)).2
      let place : Place := ⟨e.invocations, (t.arena.func func).entry⟩
      (.run v' (t.arena.func func).entry 0, [.leave place], (e₁.visit place).1) := by
  have hcalls : (t.arena.op op).kind.callsFunction = true := by
    unfold Terrain.followed? at hfunc
    split at hfunc
    · assumption
    · cases hfunc
  have hcallee := callee?_of_followed (e := e) hfunc
  unfold runOp
  cases hkind : (t.arena.op op).kind
  case functionCall | methodCall | staticCall | new =>
    rw [hkind] at hcallee
    dsimp only
    rw [hcallee]
    rfl
  all_goals rw [hkind] at hcalls; cases hcalls

theorem runOp_of_not_followed (e : Explorer) (block : BlockId) (index : Nat) {v : Walk}
    (hplain : IsPlain (t.arena.op op).kind)
    (hfunc : t.followed? (v.pushOp op (t.arena.op op).kind.result?) op = none) :
    ∃ e₁, Passes t e [] e₁ ∧ e.runOp t v block index op =
      (.run (v.pushOp op (t.arena.op op).kind.result?) block (index + 1), [], e₁) := by
  by_cases hcalls : (t.arena.op op).kind.callsFunction = true
  · obtain ⟨e₁, hpasses, hcallee⟩ := callee?_of_not_followed (e := e) hcalls hfunc
    refine ⟨e₁, hpasses, ?_⟩
    unfold runOp
    cases hkind : (t.arena.op op).kind
    case functionCall | methodCall | staticCall | new =>
      rw [hkind] at hcallee
      dsimp only
      rw [hcallee]
    all_goals rw [hkind] at hcalls; cases hcalls
  · refine ⟨e, .refl t e, ?_⟩
    obtain ⟨-, hparam⟩ := hplain
    unfold runOp
    cases hkind : (t.arena.op op).kind
    case functionCall | methodCall | staticCall | new =>
      rw [hkind] at hcalls
      exact absurd rfl hcalls
    case param => exact (hparam _ _ _ _ _ _ _ _ hkind).elim
    all_goals rfl

theorem runs_plain (h : (t.arena.block block).ops[index]? = some op)
    (hplain : IsPlain (t.arena.op op).kind)
    (hfunc : t.followed? (w.pushOp op (t.arena.op op).kind.result?) op = none)
    (ih : Runs t s (w.pushOp op (t.arena.op op).kind.result?) block (index + 1)) :
    Runs t s w block index := by
  intro e v after hv htracks
  subst hv
  have hfunc' : t.followed? (v.pushOp op (t.arena.op op).kind.result?) op = none := by
    rw [← followed?_anonymous]
    exact hfunc
  obtain ⟨e₁, hpasses, hrun⟩ := runOp_of_not_followed e block index hplain hfunc'
  rw [run_op h (Bool.eq_false_iff.1 hplain.1), hrun, walksFrom_of_isPlain h hplain, hfunc]
  refine .of_passes hpasses (ih e₁ _ after rfl ?_)
  exact hpasses.tracks htracks

/-- A call that is followed runs in line, and its entry is on the walk until the walk is done. -/
theorem runs_call {func : FuncId} (h : (t.arena.block block).ops[index]? = some op)
    (hplain : IsPlain (t.arena.op op).kind)
    (hfunc : t.followed? (w.pushOp op (t.arena.op op).kind.result?) op = some func)
    (ih : Runs t ⟨[(t.arena.func func).entry], s.seen :: s.callers, s.assumed⟩
      (t.called (w.pushOp op (t.arena.op op).kind.result?) op func block (index + 1))
      (t.arena.func func).entry 0) : Runs t s w block index := by
  intro e v after hv htracks
  subst hv
  have hfunc' : t.followed? (v.pushOp op (t.arena.op op).kind.result?) op = some func := by
    rw [← followed?_anonymous]
    exact hfunc
  rw [run_op h (Bool.eq_false_iff.1 hplain.1), runOp_of_followed hfunc',
    walksFrom_of_isPlain h hplain, hfunc]
  generalize hcall : v.pushOp op (t.arena.op op).kind.result? = u
  have hpasses : Passes t e [] (e.enterCall t u op func block (index + 1)).2 := by
    refine ⟨rfl, rfl, rfl, Nat.le_succ _, ?_, rfl⟩
    rw [List.take_nil, List.append_nil]
    rfl
  refine .of_passes hpasses (.leave (ih _ _ _ ?_ ?_))
  · rw [anonymous_enterCall, ← hcall]
    rfl
  · rw [openInvocations_enterCall, ← hcall]
    exact htracks.call t _ op func block (index + 1) _

theorem returns_back {via : Option OpId} {value : Option OperandId} {frame : Frame}
    {rest : List Frame} {seen : List BlockId} {callers : List (List BlockId)}
    (hw : w.frames = frame :: rest) (hs : s.callers = seen :: callers)
    (ih : Runs t { s with seen, callers } (leaveCall t w frame rest via value)
      frame.resumeBlock frame.resumeIndex) : Returns t s w via value := by
  intro e v after hv htracks
  subst hv
  obtain ⟨frame', rest', hframes, rfl, rfl⟩ := List.map_eq_cons_iff.1 hw
  rw [unwind, hframes, Terrain.walksBack_of_call hw hs]
  refine ih e _ after (anonymous_leaveCall ..) ?_
  rw [openInvocations_leaveCall]
  rw [Walk.openInvocations, hframes] at htracks
  exact htracks.back hs

theorem returns_done {via : Option OpId} {value : Option OperandId}
    (h : ∀ frame rest seen callers,
      w.frames = frame :: rest → s.callers = seen :: callers → False) :
    Returns t s w via value := by
  intro e v after hv htracks
  subst hv
  -- the walk has a frame for every caller that the scope knows
  have hlength : v.frames.length = s.callers.length := by
    have hmarked := htracks.marked.length_eq
    simpa [Walk.openInvocations] using hmarked
  have hframes : v.frames = [] := by
    cases hv : v.frames with
    | nil => rfl
    | cons frame rest =>
      obtain ⟨seen, callers, hs⟩ : ∃ seen callers, s.callers = seen :: callers := by
        rw [hv] at hlength
        exact List.exists_cons_of_length_eq_add_one hlength.symm
      exact (h _ _ _ _ (congrArg (List.map Frame.anonymous) hv) hs).elim
  rw [unwind, hframes, Terrain.walksBack_of_no_call via value (congrArg (List.map _) hframes)]
  exact leads_done t e after v

/-! ## The exploration -/

theorem isPlain_of_not {kind : OpKind} (hjump : ∀ target, kind = .jump target → False)
    (hif : ∀ cond ifTarget elseTarget, kind = .jumpIf cond ifTarget elseTarget → False)
    (hswitch : ∀ subject cases targets otherwise,
      kind = .switch subject cases targets otherwise → False)
    (hreturn : ∀ value, kind = .returns value → False)
    (hexit : ∀ value, kind = .exit value → False)
    (hthrow : ∀ value, kind = .throws value → False)
    (hparam : ∀ name default defaultBlock byRef variadic type func result,
      kind = .param name default defaultBlock byRef variadic type func result → False) :
    IsPlain kind := by
  refine ⟨?_, hparam⟩
  cases kind
  case jump => exact (hjump _ rfl).elim
  case jumpIf => exact (hif _ _ _ rfl).elim
  case switch => exact (hswitch _ _ _ _ rfl).elim
  case returns => exact (hreturn _ rfl).elim
  case exit => exact (hexit _ rfl).elim
  case throws => exact (hthrow _ rfl).elim
  all_goals rfl

/-- Entering a block finds the walks of the recursion, by induction along the recursion. -/
theorem enters (t : Terrain) (s : Scope) (w : Walk) (block : BlockId) (source : Option BlockId) :
    Enters t s w block source := by
  refine (Terrain.walksInto.mutual_induct t (Enters t) (Runs t) (Returns t)
    ?_ ?_ ?_ ?_ ?_ ?_ ?_ ?_ ?_ ?_ ?_ ?_ ?_ ?_ ?_).1 s w block source
  · intro s w block source hdead
    exact enters_dead hdead
  · intro s w block source hlive _ hseen ih
    exact enters_again hlive hseen ih
  · intro s w block source hlive _ hseen ih
    exact enters_fresh hlive hseen ih
  · intro s w block index h ih
    exact runs_end h ih
  · intro s w block index op h _ target hkind ih
    exact runs_jump h hkind ih
  · intro s w block index op h _ cond ifTarget elseTarget hkind ih
    exact runs_fork h (.inl ⟨_, _, _, hkind⟩) ih
  · intro s w block index op h _ subject cases targets otherwise hkind ih
    exact runs_fork h (.inr ⟨_, _, _, _, hkind⟩) ih
  · intro s w block index op h _ value hkind ih
    exact runs_return h hkind ih
  · intro s w block index op h _ value hkind
    exact runs_exit h (.inl ⟨_, hkind⟩)
  · intro s w block index op h _ value hkind
    exact runs_exit h (.inr ⟨_, hkind⟩)
  · intro s w block index op h _ _ _ _ _ _ _ _ _ hkind ih
    exact runs_param h hkind ih
  · intro s w block index op h _ _ func hfunc _ hjump hif hswitch hreturn hexit hthrow hparam ih
    exact runs_call h (isPlain_of_not hjump hif hswitch hreturn hexit hthrow hparam) hfunc ih
  · intro s w block index op h _ _ hfunc hjump hif hswitch hreturn hexit hthrow hparam ih
    exact runs_plain h (isPlain_of_not hjump hif hswitch hreturn hexit hthrow hparam) hfunc ih
  · intro s w via value frame rest seen callers hw hs ih
    exact returns_back hw hs ih
  · intro s w via value h
    exact returns_done h

/-- Nothing is on the walk and nothing is assumed. -/
structure AtRest (e : Explorer) : Prop where
  places : e.places = []
  assertions : e.feasibility.solver.assertions = #[]
  depth : e.feasibility.depth = 0

theorem AtRest.reset (h : e.AtRest) : e.reset.AtRest := by
  refine ⟨rfl, ?_, ?_⟩ <;> rw [Explorer.reset, h.depth]
  · exact h.assertions
  · exact h.depth

theorem AtRest.tracks (h : e.AtRest) (func : FuncId) :
    Tracks { e with invocations := e.invocations + 1 }
      ({ func, invocation := e.invocations } : Walk).openInvocations {} := by
  refine ⟨by rw [h.assertions], .cons (fun b => ?_) .nil, ?_, ?_, ?_⟩
  · rw [h.places]
    exact iff_of_false List.not_mem_nil List.not_mem_nil
  · exact List.nodup_cons.2 ⟨List.not_mem_nil, List.nodup_nil⟩
  · intro i hi
    rw [List.mem_singleton.1 hi]
    exact Nat.lt_succ_self _
  · rw [h.places]
    exact fun p hp => absurd hp List.not_mem_nil

theorem Passes.atRest (h : Passes t e ws e₁) (hrest : e.AtRest) : e₁.AtRest :=
  ⟨h.places.trans hrest.places, by rw [h.solver, hrest.assertions], h.depth.trans hrest.depth⟩

/-- Exploring from a function comes down to finding its walks. -/
theorem exploreFunc_ends (h : e.AtRest) (t : Terrain) (func : FuncId) :
    ∃ e₁, Passes t e (t.walks func) e₁ ∧ Ends t (e.exploreFunc t func) e₁.reset := by
  have hnumber : Passes t e [] { e with invocations := e.invocations + 1 } :=
    ⟨rfl, rfl, rfl, Nat.le_succ _, by rw [List.take_nil, List.append_nil], rfl⟩
  obtain ⟨e₁, hpasses, hends⟩ := enters t {} { func, invocation := 0 } (t.arena.func func).entry
    none _ _ rfl (h.tracks func)
  obtain ⟨hfound, hwalks, hsame⟩ : Ends t _ e₁ := by
    have hnil := hends []
    rwa [List.append_nil, List.append_nil, drain_nil] at hnil
  exact ⟨e₁, hnumber.trans hpasses, hfound, hwalks, fun hne => congrArg reset (hsame hne)⟩

/-- From an explorer at rest, the walks of functions are found after those found before. -/
theorem found_exploreFuncs_of_atRest (t : Terrain) (funcs : List FuncId) (h : e.AtRest) :
    (e.exploreFuncs t funcs).found.toList.map Walk.anonymous =
      e.found.toList.map Walk.anonymous ++ (funcs.flatMap t.walks).take (e.remaining t) := by
  induction funcs generalizing e with
  | nil => rw [exploreFuncs, List.flatMap_nil, List.take_nil, List.append_nil]
  | cons func funcs ih =>
    obtain ⟨e₁, hpasses, hends⟩ := exploreFunc_ends h t func
    have hremaining : (e.exploreFunc t func).remaining t = e.remaining t - (t.walks func).length :=
      hends.remaining_eq.trans hpasses.remaining
    have hfound : (e.exploreFunc t func).found.toList.map Walk.anonymous =
        e.found.toList.map Walk.anonymous ++ (t.walks func).take (e.remaining t) := by
      rw [hends.1]
      exact hpasses.found
    rw [exploreFuncs, List.flatMap_cons, List.take_append, ← hremaining]
    split
    · rename_i hzero
      rw [hzero, List.take_zero, List.append_nil]
      exact hfound
    · rename_i hne
      have hrest : (e.exploreFunc t func).AtRest := by
        rw [hends.2.2 (hends.remaining_eq ▸ hne)]
        exact (hpasses.atRest h).reset
      rw [ih hrest, hfound, List.append_assoc]

/-- Exploring with a stack of tasks, from functions in turn, finds the walks of the recursive
exploration, in its order and as many as the budget allows: all of them if it allows that many. -/
theorem found_exploreFuncs (t : Terrain) (funcs : List FuncId) :
    (({} : Explorer).exploreFuncs t funcs).found.toList.map Walk.anonymous =
      (funcs.flatMap t.walks).take t.limits.maxWalks :=
  found_exploreFuncs_of_atRest t funcs ⟨rfl, rfl, rfl⟩

/-! ### A loop -/

/-- A function that writes a variable before a loop and in it, and reads it after the loop. -/
def loopArena : Arena where
  operands := #[{ kind := .string "a" }, { kind := .temporary none }, { kind := .temporary none },
    { kind := .string "b" }, { kind := .temporary none }, { kind := .temporary none },
    { kind := .temporary none }, { kind := .symbolic "$_GET" }]
  ops := #[{ kind := .assign ⟨1⟩ ⟨0⟩ ⟨2⟩, span := .none }, { kind := .jump ⟨1⟩, span := .none },
    { kind := .phi [⟨1⟩, ⟨4⟩] ⟨6⟩, span := .none }, { kind := .jumpIf ⟨7⟩ ⟨2⟩ ⟨3⟩, span := .none },
    { kind := .assign ⟨4⟩ ⟨3⟩ ⟨5⟩, span := .none }, { kind := .jump ⟨1⟩, span := .none },
    { kind := .echo ⟨6⟩, span := .none }]
  blocks := #[{ func := some ⟨0⟩, ops := [⟨0⟩, ⟨1⟩] },
    { func := some ⟨0⟩, ops := [⟨3⟩], phis := [⟨2⟩], preds := [⟨0⟩, ⟨2⟩] },
    { func := some ⟨0⟩, ops := [⟨4⟩, ⟨5⟩], preds := [⟨1⟩] },
    { func := some ⟨0⟩, ops := [⟨6⟩], preds := [⟨1⟩] }]
  funcs := #[{ name := "f", entry := ⟨0⟩, blocks := [⟨0⟩, ⟨1⟩, ⟨2⟩, ⟨3⟩] }]

/-- Where the function is explored. -/
def loopTerrain (limits : Limits) : Terrain :=
  ⟨{ (default : Resolver) with arena := loopArena }, ⟨0⟩, limits⟩

/-- The loop runs once, and is left when its head is met again; or it is left at once. The φ at its
head takes the value that was written on the way there. -/
example : ((loopTerrain ⟨5, 2⟩).walks ⟨0⟩).map (·.events.toList) =
    [[.op ⟨0⟩, .bind none ⟨6⟩ (some ⟨1⟩), .op ⟨4⟩, .bind none ⟨6⟩ (some ⟨4⟩), .op ⟨6⟩],
      [.op ⟨0⟩, .bind none ⟨6⟩ (some ⟨1⟩), .op ⟨6⟩]] := by cbv

end Explorer

end QueryTaint
