import Mathlib.Data.List.Forall2
import QueryTaint.Proofs.Walk.Recursive

/-!
# What an explorer knows

An explorer has one list of places for the whole walk, callees that have returned included, one
solver, and a number for every invocation. `Explorer.Tracks` says that its places, restricted to the
invocations that are open, and its assertions are the scope of the recursive exploration, and how
this goes on when a block or a call is entered, a call returns, or an assumption is made.

Invocations are numbered in the order of exploring, so a number says nothing about the walk: walks
are compared without (`Walk.anonymous`).
-/

namespace QueryTaint

/-- A frame without the numbers of its invocations. -/
def Frame.anonymous (f : Frame) : Frame := { f with invocation := 0, callerInvocation := 0 }

namespace Walk

/-- A walk without the numbers of its invocations. -/
def anonymous (w : Walk) : Walk :=
  { w with invocation := 0, frames := w.frames.map Frame.anonymous }

/-- The running invocation and those that wait for a call to return, the innermost first. -/
def openInvocations (w : Walk) : List Nat := w.invocation :: w.frames.map (·.callerInvocation)

theorem isActive_anonymous (w : Walk) (func : FuncId) :
    w.anonymous.isActive func = w.isActive func := by
  unfold isActive anonymous
  rw [List.any_map]
  rfl

theorem depth_anonymous (w : Walk) : w.anonymous.depth = w.depth := List.length_map _

end Walk

namespace Feasibility

variable {ν : Type}

theorem solver_assume [Numeral ν] (f : Feasibility ν) (term : Term ν) :
    (f.assume term).2.solver = f.solver.push.assert term := by
  unfold assume
  dsimp only
  repeat' split
  all_goals rfl

theorem depth_assume [Numeral ν] (f : Feasibility ν) (term : Term ν) :
    (f.assume term).2.depth = f.depth + 1 := by
  unfold assume
  dsimp only
  repeat' split
  all_goals rfl

theorem depth_retract (f : Feasibility ν) : f.retract.depth = f.depth - 1 := by
  unfold retract
  split
  · omega
  · rfl

/-- Taking an assumption back gives the solver that it was made with. -/
theorem solver_retract {f g : Feasibility ν} {term : Term ν}
    (h : g.solver = f.solver.push.assert term) (hd : g.depth = f.depth + 1) :
    g.retract.solver = f.solver := by
  have hne : g.depth ≠ 0 := by omega
  have htake : (f.solver.assertions.push term).take f.solver.assertions.size =
      f.solver.assertions := by simp
  rw [retract, if_neg hne, h]
  exact congrArg (Solver.mk · f.solver.frames) htake

/-- An assumption is accepted exactly if it is feasible after the live ones. -/
theorem assume_eq_feasible (f : Feasibility Float) (term : Term Float) :
    (f.assume term).1 = feasible f.solver.assertions.toList term := by
  have hcheck : (f.solver.push.assert term).check =
      decideAll (f.solver.assertions.toList ++ [term]) :=
    congrArg decideAll Array.toList_push
  unfold assume feasible
  rw [← hcheck]
  dsimp only
  cases term.asBool? with
  | some b => cases b <;> rfl
  | none => cases (f.solver.push.assert term).check <;> rfl

end Feasibility

namespace Explorer

/-! ## Walks without numbers -/

theorem anonymous_commitPhis (a : Arena) (w : Walk) (block : BlockId) (source : Option BlockId) :
    (commitPhis a w block source).anonymous = commitPhis a w.anonymous block source := by
  unfold commitPhis
  generalize (a.block block).phis = phis
  induction phis generalizing w with
  | nil => rfl
  | cons phi phis ih =>
    refine (ih _).trans (congrArg (List.foldl _ · phis) ?_)
    dsimp only
    cases (a.op phi).kind with
    | phi vars result =>
      dsimp only [Walk.anonymous]
      cases incoming? _ w.known vars <;> rfl
    | _ => rfl

theorem anonymous_bindParams (t : Terrain) (args : List OperandId) (w : Walk) (params : List OpId) :
    (bindParams t args w params).anonymous = bindParams t args w.anonymous params := by
  induction params generalizing args w with
  | nil => rfl
  | cons param params ih =>
    refine (ih _ _).trans (congrArg (bindParams t _ · params) ?_)
    cases (t.arena.op param).kind <;> rfl

theorem anonymous_bindCaptures (t : Terrain) (w : Walk) (callable : Option OpId) :
    (bindCaptures t w callable).anonymous = bindCaptures t w.anonymous callable := by
  unfold bindCaptures
  split
  · rename_i uses _ _
    generalize uses = uses
    induction uses generalizing w with
    | nil => rfl
    | cons bound uses ih =>
      refine (ih _).trans (congrArg (List.foldl _ · uses) ?_)
      dsimp only
      split <;> rfl
  · rfl

theorem anonymous_supplied (t : Terrain) (w : Walk) (call : OpId) (func : FuncId) :
    (t.supplied w call func).anonymous = t.supplied w.anonymous call func := by
  simp only [Terrain.supplied, anonymous_bindCaptures, anonymous_bindParams]

theorem anonymous_leaveCall (t : Terrain) (w : Walk) (frame : Frame) (rest : List Frame)
    (via : Option OpId) (value : Option OperandId) :
    (leaveCall t w frame rest via value).anonymous =
      leaveCall t w.anonymous frame.anonymous (rest.map Frame.anonymous) via value := by
  have hcall : frame.anonymous.call = frame.call := rfl
  unfold leaveCall
  rw [hcall]
  dsimp only
  split <;> rfl

theorem followed?_anonymous (t : Terrain) (w : Walk) (op : OpId) :
    t.followed? w.anonymous op = t.followed? w op := by
  have hfunc : w.anonymous.func = w.func := rfl
  have hoverrides : w.anonymous.overrides = w.overrides := rfl
  simp only [Terrain.followed?, hfunc, hoverrides, w.isActive_anonymous, w.depth_anonymous]

theorem arms_anonymous (t : Terrain) (w : Walk) (kind : OpKind) :
    t.arms w.anonymous kind = t.arms w kind := by
  cases kind <;> rfl

theorem openInvocations_commitPhis (a : Arena) (w : Walk) (block : BlockId)
    (source : Option BlockId) :
    (commitPhis a w block source).openInvocations = w.openInvocations :=
  commitPhis_keep (fun _ _ _ _ => rfl) a w block source

theorem openInvocations_leaveCall (t : Terrain) (w : Walk) (frame : Frame) (rest : List Frame)
    (via : Option OpId) (value : Option OperandId) :
    (leaveCall t w frame rest via value).openInvocations =
      frame.callerInvocation :: rest.map (·.callerInvocation) := by
  unfold Walk.openInvocations
  rw [frames_leaveCall]
  unfold leaveCall
  dsimp only

/-- A call that is entered is the call of the recursion with a number for it. -/
theorem enterCall_walk (e : Explorer) (t : Terrain) (w : Walk) (call : OpId) (func : FuncId)
    (block : BlockId) (index : Nat) :
    (e.enterCall t w call func block index).1 =
      { t.supplied w call func with
        frames := ⟨func, e.invocations, call, block, index, w.invocation, w.func⟩ :: w.frames
        func
        invocation := e.invocations } := by
  have hframes := t.frames_supplied w call func
  have hfunc := t.func_supplied w call func
  have hinvocation : (t.supplied w call func).invocation = w.invocation :=
    Terrain.supplied_keep (fun _ _ _ _ => rfl) t w call func
  rw [← hframes, ← hfunc, ← hinvocation]
  rfl

theorem anonymous_enterCall (e : Explorer) (t : Terrain) (w : Walk) (call : OpId) (func : FuncId)
    (block : BlockId) (index : Nat) :
    (e.enterCall t w call func block index).1.anonymous =
      t.called w.anonymous call func block index := by
  have hsupplied := anonymous_supplied t w call func
  rw [enterCall_walk]
  unfold Terrain.called
  rw [← hsupplied]
  simp only [Walk.anonymous, List.map_cons, Frame.anonymous, Terrain.frames_supplied,
    Terrain.func_supplied]

theorem openInvocations_enterCall (e : Explorer) (t : Terrain) (w : Walk) (call : OpId)
    (func : FuncId) (block : BlockId) (index : Nat) :
    (e.enterCall t w call func block index).1.openInvocations =
      e.invocations :: w.openInvocations := by
  rw [enterCall_walk]
  rfl

/-! ## Forks as arms -/

theorem forkSwitch_eq_arms (t : Terrain) (w : Walk) (block : BlockId) (subject : OperandId)
    (cases : List OperandId) (targets : List BlockId) (otherwise : BlockId) :
    forkSwitch t w block subject cases targets otherwise =
      (t.arms w (.switch subject cases targets otherwise)).map fun arm =>
        .branch w arm.assumption arm.choice arm.target block := by
  unfold forkSwitch Terrain.arms
  dsimp only
  rw [List.map_append, List.map_map, List.map_singleton, List.map_map]
  congr 1
  generalize (⟨t.arena, w.overrides⟩ : Moment) = m
  induction cases generalizing targets with
  | nil => rfl
  | cons case cases ih =>
    cases targets with
    | nil => rfl
    | cons target targets => exact congrArg (List.cons _) (ih targets)

/-! ## Scopes -/

/-- Which blocks of an invocation are among places. -/
def Marks (places : List Place) (i : Nat) (seen : List BlockId) : Prop :=
  ∀ b, (⟨i, b⟩ : Place) ∈ places ↔ b ∈ seen

/-- A place of another invocation marks nothing. -/
theorem marks_cons_of_notMem {places : List Place} {place : Place} {ids : List Nat}
    {seens : List (List BlockId)} (h : List.Forall₂ (Marks places) ids seens)
    (hplace : place.invocation ∉ ids) : List.Forall₂ (Marks (place :: places)) ids seens := by
  induction h with
  | nil => exact .nil
  | cons hmarks _ ih =>
    rw [List.mem_cons, not_or] at hplace
    refine .cons (fun b => ?_) (ih hplace.2)
    rw [List.mem_cons, hmarks b]
    exact or_iff_right fun he => hplace.1 (congrArg Place.invocation he).symm

/-- An explorer knows about the open invocations what a scope says: which blocks of them are on the
walk, and what is assumed. Numbers that are given out later are new. -/
structure Tracks (e : Explorer) (ids : List Nat) (s : Scope) : Prop where
  assumed : e.feasibility.solver.assertions.toList = s.assumed
  marked : List.Forall₂ (Marks e.places) ids (s.seen :: s.callers)
  nodup : ids.Nodup
  opened : ∀ i ∈ ids, i < e.invocations
  placed : ∀ p ∈ e.places, p.invocation < e.invocations

namespace Tracks

variable {e : Explorer} {i : Nat} {ids : List Nat} {s : Scope}

theorem mem_places (h : e.Tracks (i :: ids) s) (b : BlockId) :
    (⟨i, b⟩ : Place) ∈ e.places ↔ b ∈ s.seen :=
  (List.forall₂_cons.1 h.marked).1 b

/-- A block of the running invocation is put on the walk. -/
theorem visit (h : e.Tracks (i :: ids) s) (block : BlockId) :
    (e.visit ⟨i, block⟩).1.Tracks (i :: ids) { s with seen := block :: s.seen } := by
  obtain ⟨hseen, hcallers⟩ := List.forall₂_cons.1 h.marked
  have hi : i ∉ ids := (List.nodup_cons.1 h.nodup).1
  refine ⟨h.assumed, List.forall₂_cons.2 ⟨fun b => ?_, marks_cons_of_notMem hcallers hi⟩,
    h.nodup, h.opened, ?_⟩
  · rw [Explorer.visit, List.mem_cons, List.mem_cons, hseen b, Place.mk.injEq, eq_self, true_and]
  · intro p hp
    rcases List.mem_cons.1 hp with rfl | hp
    · exact h.opened i List.mem_cons_self
    · exact h.placed p hp

/-- A call is entered: its invocation has no place on the walk yet but the entry. -/
theorem call (h : e.Tracks ids s) (t : Terrain) (w : Walk) (op : OpId) (func : FuncId)
    (block : BlockId) (index : Nat) (entry : BlockId) :
    ((e.enterCall t w op func block index).2.visit ⟨e.invocations, entry⟩).1.Tracks
      (e.invocations :: ids) ⟨[entry], s.seen :: s.callers, s.assumed⟩ := by
  have hnew : e.invocations ∉ ids := fun hmem => Nat.lt_irrefl _ (h.opened _ hmem)
  have hcallee : Marks (⟨e.invocations, entry⟩ :: e.places) e.invocations [entry] := by
    intro b
    have hplace : (⟨e.invocations, b⟩ : Place) ∉ e.places :=
      fun hmem => Nat.lt_irrefl _ (h.placed _ hmem)
    rw [List.mem_cons, or_iff_left hplace, List.mem_singleton, Place.mk.injEq, eq_self, true_and]
  refine ⟨h.assumed, .cons hcallee (marks_cons_of_notMem h.marked hnew),
    List.nodup_cons.2 ⟨hnew, h.nodup⟩, ?_, ?_⟩
  · intro i hi
    rcases List.mem_cons.1 hi with rfl | hi
    · exact Nat.lt_succ_self _
    · exact Nat.lt_succ_of_lt (h.opened i hi)
  · intro p hp
    rcases List.mem_cons.1 hp with rfl | hp
    · exact Nat.lt_succ_self _
    · exact Nat.lt_succ_of_lt (h.placed p hp)

/-- A call returns. Its places stay, but its number is not among the open ones any more. -/
theorem back (h : e.Tracks (i :: ids) s) {seen : List BlockId} {callers : List (List BlockId)}
    (hs : s.callers = seen :: callers) : e.Tracks ids { s with seen, callers } := by
  refine ⟨h.assumed, ?_, (List.nodup_cons.1 h.nodup).2,
    fun j hj => h.opened j (List.mem_cons_of_mem _ hj), h.placed⟩
  rw [← hs]
  exact (List.forall₂_cons.1 h.marked).2

/-- An assumption is made. -/
theorem assume (h : e.Tracks ids s) (term : Term Float) :
    Tracks { e with feasibility := (e.feasibility.assume term).2 } ids
      { s with assumed := s.assumed ++ [term] } := by
  refine ⟨?_, h.marked, h.nodup, h.opened, h.placed⟩
  rw [Feasibility.solver_assume, ← h.assumed]
  exact Array.toList_push

end Tracks

end Explorer

/-!
## Doing tasks

What the tasks on a stack come down to. `Passes` says what an explorer is like after walks were
found: it has more walks, as many as the budget allows, and otherwise what it had before. `Leads`
says that doing some tasks finds walks so and then goes on with the tasks after them; tasks that
take places and assumptions off again are dealt with here (`Leads.leave`, `Leads.retract`).

When the budget runs out, the tasks that are left are not done, and the explorer keeps places and
assumptions that nobody takes off. `Ends` compares final states up to that.
-/

namespace Explorer

/-! ### Walks that are found -/

/-- After walks were found, as many as the budget allows, the places and the assumptions are what
they were. -/
structure Passes (t : Terrain) (e : Explorer) (ws : List Walk) (e' : Explorer) : Prop where
  places : e'.places = e.places
  solver : e'.feasibility.solver = e.feasibility.solver
  depth : e'.feasibility.depth = e.feasibility.depth
  invocations : e.invocations ≤ e'.invocations
  found : e'.found.toList.map Walk.anonymous =
    e.found.toList.map Walk.anonymous ++ ws.take (e.remaining t)
  remaining : e'.remaining t = e.remaining t - ws.length

variable {t : Terrain} {e e₁ e₂ : Explorer} {ws ws₁ ws₂ : List Walk} {ids : List Nat} {s : Scope}

namespace Passes

theorem refl (t : Terrain) (e : Explorer) : Passes t e [] e :=
  ⟨rfl, rfl, rfl, Nat.le_refl _, by rw [List.take_nil, List.append_nil], rfl⟩

/-- What is counted, other than walks, does not matter. -/
theorem recount (t : Terrain) (e : Explorer) {stats : ExploreStats}
    (h : stats.walks = e.stats.walks) : Passes t e [] { e with stats } :=
  ⟨rfl, rfl, rfl, Nat.le_refl _, by rw [List.take_nil, List.append_nil],
    congrArg (t.limits.maxWalks - ·) h⟩

theorem trans (h₁ : Passes t e ws₁ e₁) (h₂ : Passes t e₁ ws₂ e₂) :
    Passes t e (ws₁ ++ ws₂) e₂ := by
  refine ⟨h₂.places.trans h₁.places, h₂.solver.trans h₁.solver, h₂.depth.trans h₁.depth,
    Nat.le_trans h₁.invocations h₂.invocations, ?_, ?_⟩
  · rw [h₂.found, h₁.found, h₁.remaining, List.take_append, List.append_assoc]
  · rw [h₂.remaining, h₁.remaining, List.length_append, Nat.sub_sub]

/-- Once the budget has run out, no more is found. -/
theorem exhausted (h : e.remaining t = 0) (ws : List Walk) : Passes t e ws e :=
  ⟨rfl, rfl, rfl, Nat.le_refl _, by rw [h, List.take_zero, List.append_nil],
    by rw [h, Nat.zero_sub]⟩

theorem tracks (h : Passes t e ws e₁) (htracks : e.Tracks ids s) : e₁.Tracks ids s := by
  refine ⟨by rw [h.solver, htracks.assumed], by rw [h.places]; exact htracks.marked,
    htracks.nodup, fun i hi => Nat.lt_of_lt_of_le (htracks.opened i hi) h.invocations, ?_⟩
  rw [h.places]
  exact fun p hp => Nat.lt_of_lt_of_le (htracks.placed p hp) h.invocations

/-- A walk is completed. -/
theorem commit (t : Terrain) (e : Explorer) (w : Walk) :
    Passes t e [w.anonymous] (e.commit t w) := by
  unfold Explorer.commit
  split
  · rename_i h
    exact ⟨rfl, rfl, rfl, Nat.le_refl _, by rw [h]; simp [truncate], by rw [h]; exact h⟩
  · rename_i h
    refine ⟨rfl, rfl, rfl, Nat.le_refl _, ?_, ?_⟩
    · have htake : [w.anonymous].take (e.remaining t) = [w.anonymous] :=
        List.take_of_length_le (Nat.pos_of_ne_zero h)
      rw [htake, Array.toList_push, List.map_append, List.map_singleton]
    · exact Nat.sub_add_eq ..

/-- A place that was put on the walk is taken off it. -/
theorem leave {place : Place} (h : Passes t (e.visit place).1 ws e₁) :
    Passes t e ws { e₁ with places := e₁.places.erase place } := by
  refine ⟨?_, h.solver, h.depth, h.invocations, h.found, h.remaining⟩
  rw [h.places]
  exact List.erase_cons_head ..

/-- An assumption that was made is taken back. -/
theorem retract {term : Term Float}
    (h : Passes t { e with feasibility := (e.feasibility.assume term).2 } ws e₁) :
    Passes t e ws { e₁ with feasibility := e₁.feasibility.retract } := by
  have hdepth : e₁.feasibility.depth = e.feasibility.depth + 1 :=
    h.depth.trans (Feasibility.depth_assume ..)
  refine ⟨h.places, ?_, ?_, h.invocations, h.found, h.remaining⟩
  · exact Feasibility.solver_retract (h.solver.trans (Feasibility.solver_assume ..)) hdepth
  · rw [Feasibility.depth_retract, hdepth, Nat.add_sub_cancel]

end Passes

/-! ### Draining -/

/-- Two states in which exploring may end: the same walks were found, and the states differ only if
the budget has run out. -/
def Ends (t : Terrain) (x y : Explorer) : Prop :=
  x.found = y.found ∧ x.stats.walks = y.stats.walks ∧ (y.remaining t ≠ 0 → x = y)

namespace Ends

variable {x y z : Explorer}

theorem rfl {x : Explorer} : Ends t x x := ⟨Eq.refl _, Eq.refl _, fun _ => Eq.refl _⟩

theorem remaining_eq (h : Ends t x y) : x.remaining t = y.remaining t :=
  congrArg (t.limits.maxWalks - ·) h.2.1

theorem symm (h : Ends t x y) : Ends t y x :=
  ⟨h.1.symm, h.2.1.symm, fun hne => (h.2.2 (h.remaining_eq ▸ hne)).symm⟩

theorem trans (h : Ends t x y) (h' : Ends t y z) : Ends t x z :=
  ⟨h.1.trans h'.1, h.2.1.trans h'.2.1, fun hne =>
    (h.2.2 (h'.remaining_eq.symm ▸ hne)).trans (h'.2.2 hne)⟩

end Ends

theorem drain_nil (t : Terrain) (e : Explorer) : drain t e [] = e := loop_of_inr rfl

theorem drain_cons (h : e.remaining t ≠ 0) (task : Task) (rest : List Task) :
    drain t e (task :: rest) = drain t (e.expand t task).1 ((e.expand t task).2 ++ rest) :=
  loop_of_inl (if_neg h)

theorem drain_of_exhausted (h : e.remaining t = 0) (task : Task) (rest : List Task) :
    drain t e (task :: rest) = e.truncate := loop_of_inr (if_pos h)

theorem ends_drain_of_exhausted (h : e.remaining t = 0) (tasks : List Task) :
    Ends t (drain t e tasks) e := by
  cases tasks with
  | nil =>
    rw [drain_nil]
    exact .rfl
  | cons task rest =>
    rw [drain_of_exhausted h]
    exact ⟨rfl, rfl, fun hne => absurd h hne⟩

/-- A task that only takes something back is done, or it does not matter any more. -/
theorem ends_drain_undo {task : Task} (e e₁ : Explorer) (h : e.expand t task = (e₁, []))
    (hfound : e.found = e₁.found) (hwalks : e.stats.walks = e₁.stats.walks)
    (rest : List Task) : Ends t (drain t e (task :: rest)) (drain t e₁ rest) := by
  have hremaining : e.remaining t = e₁.remaining t := congrArg (t.limits.maxWalks - ·) hwalks
  by_cases hzero : e.remaining t = 0
  · have hzero₁ : e₁.remaining t = 0 := hremaining.symm.trans hzero
    have hends : Ends t e e₁ := ⟨hfound, hwalks, fun hne => absurd hzero₁ hne⟩
    exact (ends_drain_of_exhausted hzero _).trans
      (hends.trans (ends_drain_of_exhausted hzero₁ rest).symm)
  · rw [drain_cons hzero, h, List.nil_append]
    exact .rfl

/-- From a state and tasks, walks are found, and then the tasks after them are done. -/
def Leads (t : Terrain) (e : Explorer) (state : Explorer × List Task) (after : List Task)
    (ws : List Walk) : Prop :=
  ∃ e', Passes t e ws e' ∧
    ∀ rest, Ends t (drain t state.1 (state.2 ++ rest)) (drain t e' (after ++ rest))

namespace Leads

variable {state : Explorer × List Task} {tasks after : List Task}

theorem nil (t : Terrain) (e : Explorer) : Leads t e (e, []) [] [] :=
  ⟨e, .refl t e, fun _ => .rfl⟩

theorem of_passes (hpasses : Passes t e [] e₁) (h : Leads t e₁ state after ws) :
    Leads t e state after ws := by
  obtain ⟨e', hpasses', hdrain⟩ := h
  exact ⟨e', hpasses.trans hpasses', hdrain⟩

/-- The tasks that are named by a task are done in its place. -/
theorem of_expand {task : Task} (h : Leads t e (e.expand t task) [] ws) :
    Leads t e (e, [task]) [] ws := by
  by_cases hzero : e.remaining t = 0
  · refine ⟨e, .exhausted hzero ws, fun rest => ?_⟩
    exact (ends_drain_of_exhausted hzero _).trans (ends_drain_of_exhausted hzero _).symm
  · obtain ⟨e', hpasses, hdrain⟩ := h
    refine ⟨e', hpasses, fun rest => ?_⟩
    rw [List.singleton_append, drain_cons hzero]
    exact hdrain rest

/-- Tasks that are done one after the other in one scope find their walks one after the other. -/
theorem map {α : Type} {task : α → Task} {walks : α → List Walk} {l : List α}
    (h : ∀ a ∈ l, ∀ e : Explorer, e.Tracks ids s → Leads t e (e, [task a]) [] (walks a))
    (htracks : e.Tracks ids s) : Leads t e (e, l.map task) [] (l.flatMap walks) := by
  induction l generalizing e with
  | nil => exact .nil t e
  | cons a l ih =>
    obtain ⟨e₁, hpasses₁, hdrain₁⟩ := h a List.mem_cons_self e htracks
    obtain ⟨e₂, hpasses₂, hdrain₂⟩ := ih (fun b hb => h b (List.mem_cons_of_mem _ hb))
      (hpasses₁.tracks htracks)
    refine ⟨e₂, hpasses₁.trans hpasses₂, fun rest => ?_⟩
    exact (hdrain₁ (l.map task ++ rest)).trans (hdrain₂ rest)

theorem append_after (h : Leads t e (e₁, tasks) [] ws) (after : List Task) :
    Leads t e (e₁, tasks ++ after) after ws := by
  obtain ⟨e', hpasses, hdrain⟩ := h
  refine ⟨e', hpasses, fun rest => ?_⟩
  rw [List.append_assoc]
  exact hdrain (after ++ rest)

/-- A place is on the walk until the task that takes it off. -/
theorem leave {place : Place} (h : Leads t (e.visit place).1 state (.leave place :: after) ws) :
    Leads t e state after ws := by
  obtain ⟨e', hpasses, hdrain⟩ := h
  refine ⟨_, hpasses.leave, fun rest => (hdrain rest).trans ?_⟩
  exact ends_drain_undo e' { e' with places := e'.places.erase place } rfl rfl rfl (after ++ rest)

/-- An assumption is live until the task that takes it back. -/
theorem retract {task : Task} {term : Term Float}
    (h : Leads t { e with feasibility := (e.feasibility.assume term).2 }
      ({ e with feasibility := (e.feasibility.assume term).2 }, [task]) [] ws) :
    Leads t e ({ e with feasibility := (e.feasibility.assume term).2 }, [task, .retract]) [] ws := by
  obtain ⟨e', hpasses, hdrain⟩ := h
  refine ⟨_, hpasses.retract, fun rest => (hdrain (.retract :: rest)).trans ?_⟩
  exact ends_drain_undo e' { e' with feasibility := e'.feasibility.retract } rfl rfl rfl rest

end Leads

end Explorer

end QueryTaint
