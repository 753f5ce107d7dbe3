import QueryTaint.Proofs.Relabel.Explore
import QueryTaint.Proofs.Relabel.Weave
import QueryTaint.Proofs.Walk.Budget

/-!
# Exploring with new numbers

Exploring a function of a terrain and exploring its twin in a terrain among further scripts go through
the same states (`Explorer.Instant.step_twin`, `Explorer.Instant.run_twin`), so the walks that are found
are twins, whatever was explored before (`Explorer.exploreFunc_twin`).
-/

namespace QueryTaint

namespace Explorer

variable {g : Graft} {n : g.toRelabel.Naming} {ι σ : Nat → Nat} {t t' : Terrain}
  {o o' e e' : Explorer}

/-! ## Instants -/

/-- The same task, whatever was observed. -/
abbrev Logged.Twin (n : g.toRelabel.Naming) (σ : Nat → Nat) (p p' : Logged) : Prop :=
  Task.Twin n σ p.task p'.task

/-- The same walk is running, and its run has left the same tasks. -/
structure Running.Twin (n : g.toRelabel.Naming) (σ : Nat → Nat) (r r' : Running) : Prop where
  next : r.next.Twin n σ r'.next
  after : List.Forall₂ (Logged.Twin n σ) r.after r'.after

theorem forall₂_logged {next next' : List Task} (h : List.Forall₂ (Task.Twin n σ) next next')
    {log log' : Task → Logged} (hlog : ∀ task, (log task).task = task)
    (hlog' : ∀ task, (log' task).task = task) :
    List.Forall₂ (Logged.Twin n σ) (next.map log) (next'.map log') := by
  rw [List.forall₂_map_left_iff, List.forall₂_map_right_iff]
  refine h.imp fun task task' htask => ?_
  rw [Logged.Twin, hlog, hlog']
  exact htask

/-- Nothing is on the walk, and nothing was ever assumed or all of it was taken back. -/
structure Idle (e : Explorer) : Prop where
  solver : e.feasibility.solver = {}
  depth : e.feasibility.depth = 0
  places : e.places = []

namespace Idle

theorem reset_eq (h : e.Idle) : e.reset = e := by
  obtain ⟨⟨solver, depth, stats⟩, places, invocations, found, counts⟩ := e
  obtain ⟨rfl, rfl, rfl⟩ := h
  rfl

theorem atRest (h : e.Idle) : e.AtRest := ⟨h.places, by rw [h.solver], h.depth⟩

/-- Exploring a function leaves nothing behind, unless the budget runs out. -/
theorem exploreFunc (h : e.Idle) (func : FuncId)
    (hlt : (e.exploreFunc t func).stats.walks < t.limits.maxWalks) :
    (e.exploreFunc t func).Idle := by
  obtain ⟨e₁, hpasses, hends⟩ := exploreFunc_ends h.atRest t func
  have hne : e₁.reset.remaining t ≠ 0 := by
    rw [← hends.remaining_eq]
    exact Nat.sub_ne_zero_of_lt hlt
  rw [hends.2.2 hne]
  have hdepth : e₁.feasibility.depth = 0 := hpasses.depth.trans h.depth
  refine ⟨?_, ?_, rfl⟩ <;> rw [Explorer.reset, hdepth]
  · exact hpasses.solver.trans h.solver
  · exact hdepth

end Idle

theorem remaining_ne_zero (hlt : e.stats.walks < t.limits.maxWalks) : e.remaining t ≠ 0 :=
  Nat.sub_ne_zero_of_lt hlt

namespace Instant

variable {m m' : Instant} {limit : Nat}

/-- Two explorations of one function are in the same state, up to what there was before. -/
structure Twin (n : g.toRelabel.Naming) (σ : Nat → Nat) (o o' : Explorer) (m m' : Instant) :
    Prop where
  explorer : Explorer.Twin n σ o o' m.explorer m'.explorer
  running : Option.Rel (Running.Twin n σ) m.running m'.running
  tasks : List.Forall₂ (Logged.Twin n σ) m.tasks m'.tasks
  queue : m.queue = []
  queue' : m'.queue = []

theorem start_twin (n : g.toRelabel.Naming) (ht : t.Twin g ι t') {func : FuncId}
    (hfunc : .func func ∈ t.arena.entries) (ho : o.Idle) (ho' : o'.Idle)
    (hσ : σ o.invocations = o'.invocations) :
    Twin n σ o o' (start o t [func]) (start o' t' [g.func func]) := by
  have hentry : (t'.arena.func (g.func func)).entry = g.block (t.arena.func func).entry :=
    congrArg Func.entry (func_twin ht hfunc)
  refine ⟨⟨⟨?_, ?_, ?_⟩, ?_, ⟨1, rfl, rfl⟩, [], [], ?_, ?_, .nil⟩, .none, .cons ?_ .nil, rfl, rfl⟩
  · simp [start, ho.solver, ho'.solver]
  · simp [start, ho.solver, ho'.solver]
  · simp [start, ho.depth, ho'.depth]
  · simp [start, ho.places, ho'.places]
  · simp [start]
  · simp [start]
  · show Task.Twin n σ (.enter _ _ none) (.enter _ (t'.arena.func (g.func func)).entry none)
    rw [hentry]
    exact .enter (.start rfl hσ.symm) (t.arena.func func).entry none

/-- A running walk goes on in the same way. -/
theorem advance_twin (ht : t.Twin g ι t') (haligned : Aligned σ o o' limit)
    (h : Twin n σ o o' m m') {r r' : Running} (hr : r.Twin n σ r')
    (hne : m.explorer.remaining t ≠ 0) (hne' : m'.explorer.remaining t' ≠ 0)
    (hlimit : (m.advance t r).explorer.invocations ≤ limit) :
    Twin n σ o o' (m.advance t r) (m'.advance t' r') := by
  obtain ⟨next, trace, after⟩ := r
  obtain ⟨next', trace', after'⟩ := r'
  obtain ⟨hnext, hafter⟩ := hr
  cases hnext with
  | done hw =>
    exact ⟨h.explorer.commit hw hne hne', .none, List.rel_append hafter h.tasks, h.queue, h.queue'⟩
  | tasks hnext =>
    refine ⟨h.explorer, .none, ?_, h.queue, h.queue'⟩
    refine List.rel_append (forall₂_logged hnext ?_ ?_) (List.rel_append hafter h.tasks)
    · exact fun _ => rfl
    · exact fun _ => rfl
  | run hw block index =>
    have hresult := nextAt_twin ht haligned h.explorer hw block index hlimit
    refine ⟨hresult.explorer, .some ⟨hresult.next, ?_⟩, h.tasks, h.queue, h.queue'⟩
    refine List.rel_append (forall₂_logged hresult.tasks ?_ ?_) hafter
    · exact fun _ => rfl
    · exact fun _ => rfl

/-- A task is done in the same way. -/
theorem perform_twin (ht : t.Twin g ι t') (hσ : σ.Injective) (h : Twin n σ o o' m m')
    (hrunning : m.running = none) (hrunning' : m'.running = none) {p p' : Logged}
    {rest rest' : List Logged} (hp : p.Twin n σ p')
    (hrest : List.Forall₂ (Logged.Twin n σ) rest rest') :
    Twin n σ o o' (m.perform t p rest) (m'.perform t' p' rest') := by
  have hopened := opened?_twin ht hσ h.explorer hp
  unfold perform
  cases hown : m.explorer.opened? t p.task with
  | none =>
    rw [hown] at hopened
    rw [eq_none_of_rel hopened]
    obtain ⟨hafter, hnext⟩ := expand_twin ht hσ h.explorer hp hown
    refine ⟨hafter, ?_, ?_, h.queue, h.queue'⟩
    · rw [hrunning, hrunning']
      exact .none
    · exact List.rel_append (forall₂_logged hnext (task_follower p) (task_follower p')) hrest
  | some opened =>
    rw [hown] at hopened
    obtain ⟨w, block⟩ := opened
    obtain ⟨⟨w', block'⟩, hboth, hw, rfl⟩ := exists_of_rel_some hopened
    have hplace : (⟨w'.invocation, g.block block⟩ : Place) =
        Place.relabel g.toRelabel σ ⟨w.invocation, block⟩ := by
      rw [Place.relabel, hw.invocation]
    rw [hboth]
    dsimp only
    rw [hplace]
    refine ⟨h.explorer.visit _, .some ⟨.run hw block 0, .cons ?_ .nil⟩, hrest, h.queue, h.queue'⟩
    exact .leave _

/-- Twins stay twins from step to step, as long as no budget has run out. -/
theorem step_twin (ht : t.Twin g ι t') (hσ : σ.Injective) (haligned : Aligned σ o o' limit)
    (h : Twin n σ o o' m m') (hne : m.explorer.remaining t ≠ 0)
    (hne' : m'.explorer.remaining t' ≠ 0) (hlimit : (m.step t).explorer.invocations ≤ limit) :
    Twin n σ o o' (m.step t) (m'.step t') := by
  have hrunning := h.running
  cases hown : m.running with
  | some r =>
    rw [hown] at hrunning
    obtain ⟨r', hboth, hr⟩ := exists_of_rel_some hrunning
    rw [step_of_running hown] at hlimit ⊢
    rw [step_of_running hboth]
    exact advance_twin ht haligned h hr hne hne' hlimit
  | none =>
    rw [hown] at hrunning
    have hboth := eq_none_of_rel hrunning
    have htasks := h.tasks
    cases hstack : m.tasks with
    | nil =>
      rw [hstack] at htasks
      have hstack' : m'.tasks = [] := List.forall₂_nil_left_iff.1 htasks
      rw [step_of_idle hown hstack, step_of_idle hboth hstack', if_neg hne, if_neg hne', h.queue,
        h.queue']
      exact ⟨h.explorer.reset, .none, .nil, rfl, rfl⟩
    | cons p rest =>
      rw [hstack] at htasks
      obtain ⟨p', rest', hp, hrest, hstack'⟩ := List.forall₂_cons_left_iff.1 htasks
      rw [step_of_task hown hstack hne, step_of_task hboth hstack' hne']
      exact perform_twin ht hσ h hown hboth hp hrest

/-! ### Runs -/

theorem walks_step_le (t : Terrain) (m : Instant) :
    (m.step t).explorer.stats.walks ≤ m.explorer.stats.walks + 1 := by
  cases counts_step t m <;> omega

theorem walks_run_le (t : Terrain) (m : Instant) (k : Nat) :
    (m.run t k).explorer.stats.walks ≤ m.explorer.stats.walks + k := by
  induction k generalizing m with
  | zero => exact Nat.le_refl _
  | succ k ih =>
    have hstep := walks_step_le t m
    have hrun := ih (m.step t)
    rw [run_succ]
    omega

theorem invocations_le_advance (t : Terrain) (m : Instant) (r : Running) :
    m.explorer.invocations ≤ (m.advance t r).explorer.invocations := by
  unfold advance
  cases r.next with
  | done w => exact (Passes.commit t m.explorer w).invocations
  | tasks next => exact Nat.le_refl _
  | run w block index =>
    have hresult := comesAfter t m.explorer w block index
    dsimp only
    generalize m.explorer.nextAt t w block index = result at hresult ⊢
    cases hresult with
    | call hop hu hfunc hcall hplace =>
      have hnumber := (explorer_enterCall hcall).2
      exact Nat.le_trans (Nat.le_succ _) (Nat.le_of_eq hnumber.symm)
    | _ => exact Nat.le_refl _

theorem invocations_le_step (t : Terrain) (m : Instant) :
    m.explorer.invocations ≤ (m.step t).explorer.invocations := by
  cases hr : m.running with
  | some r =>
    rw [step_of_running hr]
    exact invocations_le_advance t m r
  | none =>
    cases htasks : m.tasks with
    | nil =>
      rw [step_of_idle hr htasks]
      split
      · exact Nat.le_refl _
      · cases m.queue with
        | nil => exact Nat.le_refl _
        | cons func queue => exact Nat.le_succ _
    | cons p rest =>
      by_cases hzero : m.explorer.remaining t = 0
      · rw [step_of_spent hr htasks hzero]
        exact Nat.le_refl _
      · rw [step_of_task hr htasks hzero, perform]
        cases hopened : m.explorer.opened? t p.task with
        | some opened => exact Nat.le_refl _
        | none => exact Nat.le_of_eq (expand_keeps hopened).1.symm

theorem invocations_le_run (t : Terrain) (m : Instant) (k : Nat) :
    m.explorer.invocations ≤ (m.run t k).explorer.invocations := by
  induction k generalizing m with
  | zero => exact Nat.le_refl _
  | succ k ih => exact Nat.le_trans (invocations_le_step t m) (ih (m.step t))

/-- Twins stay twins for as many steps as no budget can run out in. -/
theorem run_twin (ht : t.Twin g ι t') (hσ : σ.Injective) (haligned : Aligned σ o o' limit) (k : Nat)
    (h : Twin n σ o o' m m') (hwalks : m.explorer.stats.walks + k < t.limits.maxWalks)
    (hwalks' : m'.explorer.stats.walks + k < t'.limits.maxWalks)
    (hlimit : (m.run t k).explorer.invocations ≤ limit) :
    Twin n σ o o' (m.run t k) (m'.run t' k) := by
  induction k generalizing m m' with
  | zero => exact h
  | succ k ih =>
    have hstep := walks_step_le t m
    have hstep' := walks_step_le t' m'
    have hnext : (m.step t).explorer.invocations ≤ limit :=
      Nat.le_trans (invocations_le_run t (m.step t) k) hlimit
    have htwin := step_twin ht hσ haligned h (remaining_ne_zero (by omega))
      (remaining_ne_zero (by omega)) hnext
    exact ih htwin (by omega) (by omega) hlimit

/-- Exploring a function gives what is there when nothing is left to be done. -/
theorem exploreFunc_eq (h : e.Idle) {func : FuncId} {k : Nat}
    (hrunning : ((start e t [func]).run t k).running = none)
    (htasks : ((start e t [func]).run t k).tasks = [])
    (hqueue : ((start e t [func]).run t k).queue = []) :
    e.exploreFunc t func = ((start e t [func]).run t k).explorer.reset := by
  have hfinish := finish_run t (start e t [func]) k
  rw [finish_idle hrunning htasks, hqueue, finish_start t h.reset_eq, exploreFuncs, exploreFuncs,
    exploreFuncs, ite_self, ite_self] at hfinish
  exact hfinish.symm

theorem Halts.exploreFunc_eq {func : FuncId} {k : Nat} (h : e.Idle)
    (hhalts : Halts t k (start e t [func])) :
    e.exploreFunc t func = ((start e t [func]).run t k).explorer.reset :=
  Instant.exploreFunc_eq h hhalts.running hhalts.tasks hhalts.queue

theorem walks_exploreFunc_le (h : e.Idle) {func : FuncId} {k : Nat}
    (hhalts : Halts t k (start e t [func])) :
    (e.exploreFunc t func).stats.walks ≤ e.stats.walks + k := by
  rw [hhalts.exploreFunc_eq h]
  exact walks_run_le t (start e t [func]) k

end Instant

/-- The walks from a function among further scripts are those that it has without them, with new
numbers. The budgets must allow for as many walks as there are steps. -/
theorem exploreFunc_twin (n : g.toRelabel.Naming) (ht : t.Twin g ι t') (hσ : σ.Injective)
    {func : FuncId} (hfunc : .func func ∈ t.arena.entries) (ho : o.Idle) (ho' : o'.Idle) {k : Nat}
    (hhalts : Instant.Halts t k (Instant.start o t [func]))
    (haligned : Aligned σ o o' (o.exploreFunc t func).invocations)
    (hwalks : o.stats.walks + k < t.limits.maxWalks)
    (hwalks' : o'.stats.walks + k < t'.limits.maxWalks) :
    Twin n σ o o' (o.exploreFunc t func) (o'.exploreFunc t' (g.func func)) ∧
      (o'.exploreFunc t' (g.func func)).stats.walks ≤ o'.stats.walks + k := by
  have hown := hhalts.exploreFunc_eq ho
  have hinvocations : (o.exploreFunc t func).invocations =
      ((Instant.start o t [func]).run t k).explorer.invocations := by rw [hown]; rfl
  have hfirst : σ o.invocations = o'.invocations := by
    refine haligned 0 ?_
    rw [hinvocations]
    exact Instant.invocations_le_run t (Instant.start o t [func]) k
  have htwin := Instant.run_twin ht hσ haligned k
    (Instant.start_twin n ht hfunc ho ho' hfirst) hwalks hwalks' (Nat.le_of_eq hinvocations.symm)
  -- nothing is left to be done on the other side either
  have hrunning := htwin.running
  have htasks := htwin.tasks
  rw [hhalts.running] at hrunning
  rw [hhalts.tasks] at htasks
  have hboth := Instant.exploreFunc_eq ho' (eq_none_of_rel hrunning)
    (List.forall₂_nil_left_iff.1 htasks) htwin.queue'
  rw [hown, hboth]
  exact ⟨htwin.explorer.reset, Instant.walks_run_le t' (Instant.start o' t' [g.func func]) k⟩

end Explorer

/-!
## Exploring in turns

Functions of two terrains are explored one after the other in a third one that holds both, in any
order. Each of the two finds the same walks alone (`Explorer.exploreFuncs_turns`). The invocations of
the two are laid out in the order of the functions, as entries of arenas are.
-/

namespace Explorer

/-- The exploration of one side takes its turn. -/
def exploreTurn (t : Bool → Terrain) (s : Bool → Explorer) (item : Bool × FuncId) : Bool → Explorer :=
  Function.update s item.1 ((s item.1).exploreFunc (t item.1) item.2)

/-- The layout of invocations. -/
def invocationTurns (t : Bool → Terrain) :
    List (Bool × FuncId) → (Bool → Explorer) → List (Bool × Nat)
  | [], _ => []
  | item :: rest, s =>
    (item.1, ((s item.1).exploreFunc (t item.1) item.2).invocations - (s item.1).invocations) ::
      invocationTurns t rest (exploreTurn t s item)

/-- The numbers of further invocations are those that the layout gives. -/
def LaidOut (σ : Bool → Nat → Nat) (t : Bool → Terrain) (items : List (Bool × FuncId))
    (s : Bool → Explorer) (e' : Explorer) : Prop :=
  ∀ side k, σ side ((s side).invocations + k) =
    e'.invocations + place (invocationTurns t items s) side k

section Turns

variable {σ : Bool → Nat → Nat} {t : Bool → Terrain} {t' : Terrain} {s : Bool → Explorer}
  {e' : Explorer} {item : Bool × FuncId} {rest : List (Bool × FuncId)}

theorem exploreTurn_self : exploreTurn t s item item.1 = (s item.1).exploreFunc (t item.1) item.2 :=
  Function.update_self ..

theorem exploreTurn_of_ne {side : Bool} (h : side ≠ item.1) : exploreTurn t s item side = s side :=
  Function.update_of_ne h ..

theorem LaidOut.aligned (h : LaidOut σ t (item :: rest) s e') :
    Aligned (σ item.1) (s item.1) e' ((s item.1).exploreFunc (t item.1) item.2).invocations := by
  intro j hj
  rw [h item.1 j, invocationTurns, place_now _ _ _ (by omega)]

theorem LaidOut.turn (h : LaidOut σ t (item :: rest) s e') {j : Nat}
    (hown : ((s item.1).exploreFunc (t item.1) item.2).invocations = (s item.1).invocations + j)
    {e₁' : Explorer} (hboth : e₁'.invocations = e'.invocations + j) :
    LaidOut σ t rest (exploreTurn t s item) e₁' := by
  have hsize : ((s item.1).exploreFunc (t item.1) item.2).invocations - (s item.1).invocations = j := by
    omega
  intro side k
  by_cases hside : side = item.1
  · subst hside
    rw [exploreTurn_self, hown, Nat.add_assoc, h, invocationTurns, hsize, place_later, hboth]
    omega
  · rw [exploreTurn_of_ne hside, h, invocationTurns, hsize, place_other _ _ _ _ (Ne.symm hside), hboth]
    omega

theorem exploreFuncs_cons {t : Terrain} {e : Explorer} {func : FuncId} {rest : List FuncId}
    (hlt : (e.exploreFunc t func).stats.walks < t.limits.maxWalks) :
    e.exploreFuncs t (func :: rest) = (e.exploreFunc t func).exploreFuncs t rest := by
  rw [exploreFuncs]
  exact if_neg (remaining_ne_zero hlt)

/-- There is a number of steps that is enough for each of some functions. -/
theorem exists_halts (t : Bool → Terrain) (items : List (Bool × FuncId)) :
    ∃ steps, ∀ limits : Bool → Limits, ∀ item ∈ items, ∀ e : Explorer, e.Idle →
      let u : Terrain := { t item.1 with limits := limits item.1 }
      Instant.Halts u steps (Instant.start e u [item.2]) := by
  induction items with
  | nil => exact ⟨0, fun _ _ h => absurd h List.not_mem_nil⟩
  | cons item rest ih =>
    obtain ⟨steps, hsteps⟩ := ih
    obtain ⟨more, hmore⟩ := Instant.halts_start (t item.1).resolver (t item.1).null [item.2]
    refine ⟨max more steps, fun limits i hi e he => ?_⟩
    rcases List.mem_cons.1 hi with rfl | hi
    · exact (hmore (limits i.1) e [] he.reset_eq).mono (Nat.le_max_left ..)
    · exact (hsteps limits i hi e he).mono (Nat.le_max_right ..)

end Turns

variable {g : Bool → Graft} {ι σ : Bool → Nat → Nat} {t : Bool → Terrain} {t' : Terrain}

/-- Functions of two sides that are explored in turns have the walks that they have alone, with new
numbers. The budgets must allow for as many walks as there are steps. -/
theorem exploreFuncs_turns (n : ∀ side, (g side).toRelabel.Naming)
    (ht : ∀ side, (t side).Twin (g side) (ι side) t') (hσ : ∀ side, (σ side).Injective) {steps : Nat}
    {items : List (Bool × FuncId)}
    (hhalts : ∀ item ∈ items, ∀ e : Explorer, e.Idle →
      Instant.Halts (t item.1) steps (Instant.start e (t item.1) [item.2]))
    (hfuncs : ∀ item ∈ items, .func item.2 ∈ (t item.1).arena.entries) {s : Bool → Explorer}
    {e' : Explorer} (hs : ∀ side, (s side).Idle) (he' : e'.Idle)
    (hwalks : ∀ side, (s side).stats.walks + items.length * steps < (t side).limits.maxWalks)
    (hwalks' : e'.stats.walks + items.length * steps < t'.limits.maxWalks)
    (hlaid : LaidOut σ t items s e') :
    ∃ found found',
      (∀ side, ((s side).exploreFuncs (t side) (ofSide items side)).found.toList =
        (s side).found.toList ++ ofSide found side) ∧
      (e'.exploreFuncs t' (items.map fun item => (g item.1).func item.2)).found.toList =
        e'.found.toList ++ found' ∧
      List.Forall₂ (fun w w' => w.2.Twin (g w.1).toRelabel (σ w.1) w') found found' := by
  induction items generalizing s e' with
  | nil =>
    refine ⟨[], [], fun side => ?_, ?_, .nil⟩
    · rw [show ofSide ([] : List (Bool × FuncId)) side = [] from rfl, exploreFuncs]
      exact (List.append_nil _).symm
    · rw [List.map_nil, exploreFuncs, List.append_nil]
  | cons item rest ih =>
    obtain ⟨side, func⟩ := item
    simp only [List.length_cons, Nat.succ_mul] at hwalks hwalks'
    have hmem : (side, func) ∈ (side, func) :: rest := List.mem_cons_self
    have hown := hwalks side
    have hfunc : .func func ∈ (t side).arena.entries := hfuncs _ hmem
    have hhalt : Instant.Halts (t side) steps (Instant.start (s side) (t side) [func]) :=
      hhalts _ hmem (s side) (hs side)
    have haligned : Aligned (σ side) (s side) e' ((s side).exploreFunc (t side) func).invocations :=
      hlaid.aligned
    obtain ⟨htwin, hle'⟩ := exploreFunc_twin (n side) (ht side) (hσ side) hfunc (hs side) he'
      hhalt haligned (by omega) (by omega)
    have hle := Instant.walks_exploreFunc_le (hs side) hhalt
    have hbudget : ((s side).exploreFunc (t side) func).stats.walks + rest.length * steps <
        (t side).limits.maxWalks := by omega
    have hidle : ((s side).exploreFunc (t side) func).Idle := (hs side).exploreFunc func (by omega)
    have hidle' : (e'.exploreFunc t' ((g side).func func)).Idle := he'.exploreFunc _ (by omega)
    obtain ⟨new, new', hnew, hnew', htwins⟩ := htwin.found
    obtain ⟨j, hj, hj'⟩ := htwin.invocations
    have hstart (u : Bool) : (exploreTurn t s (side, func) u).Idle ∧
        (exploreTurn t s (side, func) u).stats.walks + rest.length * steps < (t u).limits.maxWalks := by
      by_cases hu : u = side
      · subst hu
        rw [exploreTurn_self]
        exact ⟨hidle, hbudget⟩
      · rw [exploreTurn_of_ne hu]
        have hother := hwalks u
        exact ⟨hs u, by omega⟩
    obtain ⟨found, found', hfound, hfound', hall⟩ := ih
      (fun item hitem => hhalts item (List.mem_cons_of_mem _ hitem))
      (fun item hitem => hfuncs item (List.mem_cons_of_mem _ hitem)) (fun u => (hstart u).1) hidle'
      (fun u => (hstart u).2) (by omega) (hlaid.turn hj hj')
    refine ⟨new.map (side, ·) ++ found, new' ++ found', fun u => ?_, ?_, ?_⟩
    · rw [ofSide_append, ofSide_map, ofSide_cons]
      have hrest := hfound u
      by_cases hu : side = u
      · subst hu
        rw [exploreTurn_self] at hrest
        rw [if_pos rfl, if_pos rfl, exploreFuncs_cons (by omega), hrest, hnew, List.append_assoc]
      · rw [exploreTurn_of_ne (Ne.symm hu)] at hrest
        rw [if_neg hu, if_neg hu, hrest, List.nil_append]
    · rw [List.map_cons, exploreFuncs_cons (by dsimp only; omega), hfound', hnew', List.append_assoc]
    · refine List.rel_append ?_ hall
      rw [List.forall₂_map_left_iff]
      exact htwins

end Explorer

end QueryTaint
