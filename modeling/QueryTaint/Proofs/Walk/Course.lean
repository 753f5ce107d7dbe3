import QueryTaint.Proofs.Walk.Trace

/-!
# The shape of walks

At every instant of exploring, every walk there is, be it running, in a task that is pending, or
complete, has the shape that calls and loops give it (`Walk.Shape`), and when a call returns, the
walk goes on with the operation directly after it.

That no operation is run twice is due to the places on the walk: a block is run only if it is not
among them, and a place is taken off after all tasks whose walks have been there. So the stack of
tasks is read from the top with the places that are left by then (`Laid`), and the traces of tasks
stay within them.
-/

namespace QueryTaint

/-- All operations that were run lie in places. -/
def Trace.Within (r : Trace) (places : List Place) : Prop :=
  ∀ x ∈ r.turns, (⟨x.invocation, x.block⟩ : Place) ∈ places

/-- The places that are on the walk after a task. -/
def Task.leaves (places : List Place) : Task → List Place
  | .leave place => places.erase place
  | _ => places

/-- The shape of a walk with what was observed of it. -/
structure Walk.Shape (t : Terrain) (w : Walk) (r : Trace) : Prop where
  /-- There are at most as many open calls as the limits allow. -/
  depth : w.frames.length ≤ t.limits.maxDepth
  /-- No function has two open calls, and none was called by itself. -/
  funcs : (w.frames.map (·.func)).Nodup ∧ ∀ f ∈ w.frames, f.func ≠ f.callerFunc
  /-- Open invocations, the one in which the walk began included, have different numbers. -/
  invocations : (w.frames.map (·.invocation)).Nodup ∧ w.openInvocations.Nodup
  /-- No operation was run twice in one invocation. -/
  once : r.turns.Nodup
  /-- The caller goes on with the operation after the call, which it ran. -/
  resumes : ∀ f ∈ w.frames, ∃ i, f.resumeIndex = i + 1 ∧
    (t.arena.block f.resumeBlock).ops[i]? = some f.call ∧
    (⟨f.callerInvocation, f.resumeBlock, i⟩ : Turn) ∈ r.turns
  /-- Every event has an owner: the invocation in which the walk began, or one that was called. -/
  owners : r.owners.length = w.events.size ∧
    ∀ i ∈ r.owners, i = w.root ∨ ∃ s ∈ r.stays, s.callee = i
  /-- Open calls are stays that have not ended, and no others. -/
  open_iff : (∀ f ∈ w.frames, ∃ start,
      (⟨f.call, f.callerInvocation, f.invocation, start, none⟩ : Stay) ∈ r.stays) ∧
    ∀ s ∈ r.stays, s.stop = none ↔ s.callee ∈ w.openInvocations
  /-- The events of a callee lie between the call and the return, and none of its caller do. -/
  stays : ∀ s ∈ r.stays, s.Fits w.events r.owners

theorem Trace.Tells.shape {r : Trace} {t : Terrain} {bound : Nat} {w : Walk}
    (h : r.Tells t bound w) : w.Shape t r where
  depth := h.nests.length_le
  funcs := by
    refine ⟨h.nests.nodup_func, fun f hf => ?_⟩
    obtain ⟨below, hfits⟩ := h.nests.fits hf
    exact hfits.other
  invocations :=
    ⟨h.nests.nodup_invocation.sublist h.nests.isPrefix_invocations.sublist, h.nests.nodup_invocation⟩
  once := h.nodup
  resumes f hf := by
    obtain ⟨below, hfits⟩ := h.nests.fits hf
    obtain ⟨i, hi, hop⟩ := hfits.resumes
    obtain ⟨⟨j, hj, hturn⟩, -⟩ := h.waiting f hf
    obtain rfl : i = j := by omega
    exact ⟨i, hi, hop, hturn⟩
  owners := ⟨h.size, h.credited⟩
  open_iff := ⟨h.recorded, h.openStays⟩
  stays := h.fits

namespace Explorer

variable {t : Terrain} {bound : Nat} {places : List Place}

/-- A task goes on with a walk that its trace tells and that has been in places on the walk. -/
def Logged.Fits (t : Terrain) (bound : Nat) (places : List Place) (p : Logged) : Prop :=
  ∀ w, p.task.walk? = some w → p.trace.Tells t bound w ∧ p.trace.Within places

/-- Tasks on a stack fit the places that are on the walk when they are done. -/
def Laid (t : Terrain) (bound : Nat) : List Place → List Logged → Prop
  | _, [] => True
  | places, p :: rest => p.Fits t bound places ∧ Laid t bound (p.task.leaves places) rest

/-- What comes next for a running walk fits the places on the walk. A walk goes on in a block that
is among them, after the operations of that block that it has run. -/
def Running.Fits (t : Terrain) (bound : Nat) (places : List Place) (r : Running) : Prop :=
  match r.next with
  | .run w block index =>
    r.trace.Tells t bound w ∧ r.trace.Within places ∧ (⟨w.invocation, block⟩ : Place) ∈ places ∧
      r.trace.Before w block index
  | .done w => r.trace.Tells t bound w
  | .tasks next =>
    ∀ task ∈ next, task.leaves places = places ∧ Logged.Fits t bound places ⟨task, r.trace⟩

/-- The walks that go on with what comes next. -/
def Next.walks : Next → List Walk
  | .run w _ _ | .done w => [w]
  | .tasks next => next.filterMap Task.walk?

namespace Laid

variable {p : Logged} {tasks rest : List Logged}

theorem mono (h : Laid t bound places tasks) {bound' : Nat} (hle : bound ≤ bound') :
    Laid t bound' places tasks := by
  induction tasks generalizing places with
  | nil => trivial
  | cons p rest ih =>
    exact ⟨fun w hw => ⟨(h.1 w hw).1.mono hle, (h.1 w hw).2⟩, ih h.2⟩

theorem tells (h : Laid t bound places tasks) (hp : p ∈ tasks) {w : Walk}
    (hw : p.task.walk? = some w) : p.trace.Tells t bound w := by
  induction tasks generalizing places with
  | nil => cases hp
  | cons q rest ih =>
    rcases List.mem_cons.1 hp with rfl | hp
    · exact (h.1 w hw).1
    · exact ih h.2 hp

/-- Tasks that take no place off are put on top. -/
theorem append (hrest : Laid t bound places rest)
    (h : ∀ p ∈ tasks, p.task.leaves places = places ∧ p.Fits t bound places) :
    Laid t bound places (tasks ++ rest) := by
  induction tasks with
  | nil => exact hrest
  | cons p tasks ih =>
    obtain ⟨hleaves, hfits⟩ := h p List.mem_cons_self
    refine ⟨hfits, ?_⟩
    rw [hleaves]
    exact ih fun q hq => h q (List.mem_cons_of_mem _ hq)

/-- A place is put on the walk together with the task that takes it off. -/
theorem leave (h : Laid t bound places rest) (place : Place) (trace : Trace) :
    Laid t bound (place :: places) (⟨.leave place, trace⟩ :: rest) := by
  refine ⟨fun w hw => (by cases hw), ?_⟩
  have herase : Task.leaves (place :: places) (.leave place) = places := List.erase_cons_head ..
  rwa [herase]

end Laid

namespace Instant

/-- The tasks to be done: those that the running walk has left, and then those on the stack. -/
def pending (m : Instant) : List Logged :=
  match m.running with
  | some r => r.after ++ m.tasks
  | none => m.tasks

/-- All walks at an instant, as observed: the running one, those of pending tasks, and those that
are complete. -/
def held (m : Instant) : List (Walk × Trace) :=
  (match m.running with
    | some r => r.next.walks.map (·, r.trace)
    | none => []) ++
  m.pending.filterMap (fun p => p.task.walk?.map (·, p.trace)) ++ m.completed

/-- Traces tell the walks, and the stack fits the places on the walk. -/
structure Traced (t : Terrain) (m : Instant) : Prop where
  running : ∀ r, m.running = some r → r.Fits t m.explorer.invocations m.explorer.places
  laid : Laid t m.explorer.invocations m.explorer.places m.pending
  completed : ∀ x ∈ m.completed, x.2.Tells t m.explorer.invocations x.1
  found : m.completed.map Prod.fst = m.explorer.found.toList

variable {m : Instant}

theorem Traced.start {e : Explorer} (t : Terrain) (funcs : List FuncId)
    {completed : List (Walk × Trace)} (h : ∀ x ∈ completed, x.2.Tells t e.invocations x.1)
    (hfound : completed.map Prod.fst = e.found.toList) : (start e t funcs completed).Traced t := by
  cases funcs with
  | nil => exact ⟨fun r hr => (by cases hr), trivial, h, hfound⟩
  | cons func queue =>
    refine ⟨fun r hr => (by cases hr), ⟨fun w hw => ?_, trivial⟩, ?_, hfound⟩
    · obtain rfl := Option.some.inj hw
      exact ⟨.start t func e.invocations, fun x hx => (by cases hx)⟩
    · exact fun x hx => (h x hx).mono (Nat.le_succ _)

/-! ## Running -/

theorem turns_goOn (r : Trace) (w v : Walk) : (r.goOn w v).turns = r.turns := by
  unfold Trace.goOn
  dsimp only
  split <;> rfl

theorem observe_eq_goOn {r : Trace} {w v : Walk} (h : v.frames.length ≤ w.frames.length) :
    r.observe w v = r.goOn w v := by
  unfold Trace.observe
  split
  · rename_i f below hframes
    rw [hframes, List.length_cons] at h
    exact if_neg (by omega)
  · rfl

theorem observe_eq_credit {r : Trace} {w v : Walk} (h : v.frames = w.frames) :
    r.observe w v = r.credit w.invocation v.events.size := by
  rw [observe_eq_goOn (Nat.le_of_eq (congrArg List.length h))]
  unfold Trace.goOn
  dsimp only
  rw [h, if_neg (Nat.lt_irrefl _)]

/-- A walk that goes on in its block, with further events, fits the places as before. -/
theorem fits_onward {r : Trace} {w v : Walk} {block : BlockId} {index : Nat}
    (h : r.Tells t bound w) (hwithin : r.Within places)
    (hplace : (⟨w.invocation, block⟩ : Place) ∈ places) (hbefore : r.Before w block index)
    (hfunc : v.func = w.func) (hinvocation : v.invocation = w.invocation)
    (hframes : v.frames = w.frames) (hextends : v.Extends w) (after : List Logged) :
    Running.Fits t bound places ⟨.run v block index, r.observe w v, after⟩ := by
  unfold Running.Fits
  dsimp only
  rw [observe_eq_credit hframes]
  refine ⟨h.extend hfunc hinvocation hframes hextends, hwithin, ?_, ?_⟩
  · rwa [hinvocation]
  · unfold Trace.Before
    rw [hinvocation]
    exact hbefore

/-- Returning goes on in the caller, in a block that is on the walk. -/
theorem fits_back {r : Trace} {w : Walk} (h : r.Tells t bound w) (hwithin : r.Within places)
    (via : Option OpId) (value : Option OperandId) (after : List Logged) :
    Running.Fits t bound places
      ⟨unwind t w via value, (unwind t w via value).observed w r, after⟩ := by
  unfold unwind
  cases hframes : w.frames with
  | nil => exact h
  | cons frame rest =>
    obtain ⟨⟨i, hi, hturn⟩, hlast⟩ := h.waiting frame (by rw [hframes]; exact List.mem_cons_self)
    have hlength : (leaveCall t w frame rest via value).frames.length ≤ w.frames.length := by
      rw [frames_leaveCall, hframes]
      exact Nat.le_succ _
    unfold Running.Fits Next.observed
    dsimp only
    rw [observe_eq_goOn hlength]
    refine ⟨h.back hframes via value rfl, ?_, ?_, ?_⟩
    · unfold Trace.Within
      rwa [turns_goOn]
    · rw [invocation_leaveCall]
      exact hwithin _ hturn
    · unfold Trace.Before
      rw [turns_goOn, invocation_leaveCall]
      exact hlast

/-- The first operation of a callee is in a place of its own, where nothing was run. -/
theorem fits_call {e e₁ : Explorer} {r : Trace} {w v : Walk} {block : BlockId} {index : Nat}
    {op : OpId} {func : FuncId} {place : Place} (h : r.Tells t e.invocations w)
    (hwithin : r.Within e.places) (hop : (t.arena.block block).ops[index]? = some op)
    (hturn : (⟨w.invocation, block, index⟩ : Turn) ∈ r.turns)
    (hbefore : r.Before w block (index + 1))
    (hfunc : t.followed? (w.pushOp op (t.arena.op op).kind.result?) op = some func)
    (hcall : e.enterCall t (w.pushOp op (t.arena.op op).kind.result?) op func block (index + 1) =
      (v, e₁)) (hplace : place.invocation = e.invocations) (after : List Logged) :
    Running.Fits t (e.invocations + 1) (place :: e.places)
      ⟨.run v place.block 0, r.observe w v, after⟩ := by
  have hv : v = (e.enterCall t (w.pushOp op (t.arena.op op).kind.result?) op func block
      (index + 1)).1 := (congrArg Prod.fst hcall).symm
  have hinvocation : v.invocation = e.invocations := by
    rw [hv, enterCall_walk]
  have hframes : v.frames =
      ⟨func, e.invocations, op, block, index + 1, w.invocation, w.func⟩ :: w.frames := by
    rw [hv, enterCall_walk]
    rfl
  have hsize : (w.pushOp op (t.arena.op op).kind.result?).events.size = w.events.size + 1 :=
    Array.size_push ..
  -- the call itself is an event of the caller
  have hcalled := h.extend (v := w.pushOp op (t.arena.op op).kind.result?) rfl rfl rfl
    (.pushOp w op _)
  have hevent : (w.pushOp op (t.arena.op op).kind.result?).events[w.events.size]? =
      some (.op op) := Array.getElem?_push_size
  have howner : (r.credit w.invocation (w.events.size + 1)).owners[w.events.size]? =
      some w.invocation := by
    rw [Trace.owners_credit, h.size, ← h.size, List.getElem?_append_right (Nat.le_refl _)]
    simp
  rw [hsize] at hcalled
  have hentered := hcalled.enter hop hfunc hturn hbefore hsize hevent howner hv
  rw [hsize] at hentered
  have hobserve : r.observe w v =
      { (r.credit w.invocation (w.events.size + 1)).credit v.invocation v.events.size with
        stays := ⟨op, w.invocation, v.invocation, w.events.size + 1, none⟩ ::
          (r.credit w.invocation (w.events.size + 1)).stays } := by
    unfold Trace.observe
    rw [hframes]
    exact if_pos rfl
  unfold Running.Fits
  dsimp only
  rw [hobserve]
  refine ⟨hentered, fun x hx => List.mem_cons_of_mem _ (hwithin x hx), ?_, ?_⟩
  · rw [hinvocation, ← hplace]
    exact List.mem_cons_self
  · intro x hx heq
    have hlt := h.turned x hx
    rw [heq, hinvocation] at hlt
    exact absurd hlt (Nat.lt_irrefl _)

/-- What comes after a place fits the places on the walk. -/
theorem fits_comesAfter {e : Explorer} {r : Trace} {w : Walk} {block : BlockId} {index : Nat}
    {result : Next × List Task × Explorer} (h : r.Tells t e.invocations w)
    (hwithin : r.Within e.places) (hplace : (⟨w.invocation, block⟩ : Place) ∈ e.places)
    (hbefore : r.Before w block index) (hresult : ComesAfter t e w block index result)
    (after : List Logged) :
    Running.Fits t result.2.2.invocations result.2.2.places
      ⟨result.1, result.1.observed w (r.turn t w block index), after⟩ := by
  have hturned := h.turn hbefore
  have hwithin' : (r.turn t w block index).Within e.places := by
    intro x hx
    rcases Trace.Tells.turns_turn hx with hx | rfl
    · exact hwithin x hx
    · exact hplace
  have hbefore' : (r.turn t w block index).Before w block (index + 1) :=
    Trace.Tells.before_turn hbefore
  cases hresult with
  | back via value => exact fits_back hturned hwithin' via value after
  | complete => exact hturned
  | out hop hnext =>
    intro task htask
    cases hnext task htask with
    | enter target =>
      refine ⟨rfl, fun v hv => ?_⟩
      obtain rfl := Option.some.inj hv
      exact ⟨hturned, hwithin'⟩
    | branch term choice target =>
      refine ⟨rfl, fun v hv => ?_⟩
      obtain rfl := Option.some.inj hv
      exact ⟨hturned, hwithin'⟩
  | skip hop => exact fits_onward hturned hwithin' hplace hbefore' rfl rfl rfl (.refl w) after
  | @pass op hop skipped =>
    exact fits_onward (v := w.pushOp op (t.arena.op op).kind.result?) hturned hwithin' hplace
      hbefore' rfl rfl rfl (.pushOp w ..) after
  | call hop hu hfunc hcall hplace =>
    subst hu
    obtain ⟨hplaces, hinvocations⟩ := explorer_enterCall hcall
    have hfits := fits_call hturned hwithin' hop (Trace.Tells.mem_turns_turn hop) hbefore' hfunc
      hcall (congrArg Place.invocation hplace) after
    rw [← hinvocations, ← hplaces] at hfits
    exact hfits

theorem Traced.advance (h : m.Traced t) {r : Running} (hr : m.running = some r) :
    (m.advance t r).Traced t := by
  have hfits := h.running r hr
  have hlaid : Laid t m.explorer.invocations m.explorer.places (r.after ++ m.tasks) := by
    have hlaid := h.laid
    unfold pending at hlaid
    rwa [hr] at hlaid
  unfold Instant.advance
  unfold Running.Fits at hfits
  cases hnext : r.next with
  | done w =>
    rw [hnext] at hfits
    unfold commit
    dsimp only
    split
    · exact ⟨fun r hr => (by cases hr), hlaid, h.completed, h.found⟩
    · refine ⟨fun r hr => (by cases hr), hlaid, fun x hx => ?_, ?_⟩
      · rcases List.mem_append.1 hx with hx | hx
        · exact h.completed x hx
        · rw [List.mem_singleton.1 hx]
          exact hfits
      · rw [List.map_append, h.found, Array.toList_push]
        rfl
  | tasks next =>
    rw [hnext] at hfits
    refine ⟨fun r hr => (by cases hr), hlaid.append fun p hp => ?_, h.completed, h.found⟩
    obtain ⟨task, htask, rfl⟩ := List.mem_map.1 hp
    exact hfits task htask
  | run w block index =>
    rw [hnext] at hfits
    obtain ⟨htells, hwithin, hplace, hbefore⟩ := hfits
    have hresult := comesAfter t m.explorer w block index
    dsimp only
    generalize m.explorer.nextAt t w block index = result at hresult ⊢
    have hnextFits := fun after =>
      fits_comesAfter htells hwithin hplace hbefore hresult after
    refine ⟨fun r hr => ?_, ?_, fun x hx => ?_, ?_⟩
    · obtain rfl := Option.some.inj hr
      exact hnextFits _
    · cases hresult with
      | @call op func u v e₁ place hop hu hfunc hcall hplace =>
        obtain ⟨hplaces, hinvocations⟩ := explorer_enterCall hcall
        have hle : m.explorer.invocations ≤ m.explorer.invocations + 1 := Nat.le_succ _
        have hleave := (hlaid.mono hle).leave place (r.trace.turn t w block index)
        rw [← hinvocations, ← hplaces] at hleave
        exact hleave
      | _ => exact hlaid
    · refine (h.completed x hx).mono ?_
      cases hresult with
      | call hop hu hfunc hcall hplace =>
        exact Nat.le_trans (Nat.le_succ _) (Nat.le_of_eq (explorer_enterCall hcall).2.symm)
      | _ => exact Nat.le_refl _
    · refine h.found.trans ?_
      cases hresult with
      | call hop hu hfunc hcall hplace => exact congrArg (·.2.found.toList) hcall
      | _ => rfl

/-! ## Tasks -/

/-- A task that follows another one with its walk, or with values that flowed into φs, fits. -/
theorem fits_follower {p : Logged} {w v : Walk} {task : Task} (h : p.Fits t bound places)
    (hw : p.task.walk? = some w) (hv : task.walk? = some v) (hfunc : v.func = w.func)
    (hinvocation : v.invocation = w.invocation) (hframes : v.frames = w.frames)
    (hextends : v.Extends w) : (p.follower task).Fits t bound places := by
  intro u hu
  rw [task_follower, hv] at hu
  obtain rfl := Option.some.inj hu
  obtain ⟨htells, hwithin⟩ := h w hw
  unfold Logged.follower
  rw [hv]
  dsimp only
  rw [hinvocation]
  exact ⟨htells.extend hfunc hinvocation hframes hextends, hwithin⟩

/-- Doing a task that puts no block on the walk leaves a stack that fits. -/
theorem laid_expand {e : Explorer} {p : Logged} {rest : List Logged}
    (hfits : p.Fits t e.invocations e.places)
    (hrest : Laid t e.invocations (p.task.leaves e.places) rest)
    (hopened : e.opened? t p.task = none) :
    Laid t (e.expand t p.task).1.invocations (e.expand t p.task).1.places
      ((e.expand t p.task).2.map p.follower ++ rest) := by
  cases htask : p.task with
  | leave place | retract =>
    rw [htask] at hrest
    exact hrest
  | branch w term choice target source =>
    rw [htask] at hrest
    have henter : (p.follower (.enter (w.choose choice) target (some source))).Fits t e.invocations
        e.places :=
      fits_follower (w := w) hfits (by rw [htask]; rfl) rfl rfl rfl rfl (.refl w)
    unfold Explorer.expand
    dsimp only
    split
    · refine Laid.append (show Laid t e.invocations e.places _ from hrest) fun q hq => ?_
      rcases List.mem_pair.1 hq with rfl | rfl
      · exact ⟨by rw [task_follower]; rfl, henter⟩
      · refine ⟨by rw [task_follower]; rfl, fun v hv => ?_⟩
        rw [task_follower] at hv
        cases hv
    · exact hrest
  | enter w block source =>
    rw [htask] at hrest hopened
    have hextends := extends_commitPhis t w block source
    have hframes := frames_commitPhis t.arena w block source
    have hfunc : (commitPhis t.arena w block source).func = w.func :=
      commitPhis_keep (fun _ _ _ _ => rfl) ..
    have hinvocation : (commitPhis t.arena w block source).invocation = w.invocation :=
      commitPhis_keep (fun _ _ _ _ => rfl) ..
    unfold Explorer.expand Explorer.enter
    dsimp only
    dsimp only [opened?] at hopened
    generalize hv : commitPhis t.arena w block source = v at *
    by_cases hdead : (t.arena.block block).dead = true
    · rw [if_pos hdead]
      exact hrest
    by_cases hseen : (⟨v.invocation, block⟩ : Place) ∈ e.places
    · rw [if_neg hdead, if_pos hseen]
      refine Laid.append (show Laid t e.invocations e.places _ from hrest) fun q hq => ?_
      obtain ⟨task, hmem, rfl⟩ := List.mem_map.1 hq
      obtain ⟨target, choice, rfl, -⟩ := mem_reenter hmem
      refine ⟨by rw [task_follower]; rfl, ?_⟩
      refine fits_follower (w := w) hfits (by rw [htask]; rfl) rfl ?_ ?_ ?_ ?_
      · cases choice <;> exact hfunc
      · cases choice <;> exact hinvocation
      · rw [Walk.frames_chooseAny, hframes]
      · cases choice <;> exact hextends
    · rw [if_neg (by simp [hdead, hseen])] at hopened
      cases hopened

theorem Traced.perform (h : m.Traced t) {p : Logged} {rest : List Logged} (hr : m.running = none)
    (htasks : m.tasks = p :: rest) : (m.perform t p rest).Traced t := by
  obtain ⟨hfits, hrest⟩ : p.Fits t m.explorer.invocations m.explorer.places ∧
      Laid t m.explorer.invocations (p.task.leaves m.explorer.places) rest := by
    have hlaid := h.laid
    unfold pending at hlaid
    rwa [hr, htasks] at hlaid
  unfold Instant.perform
  cases hopened : m.explorer.opened? t p.task with
  | none =>
    obtain ⟨hinvocations, hfound, -⟩ := expand_keeps hopened
    refine ⟨fun r hr' => ?_, ?_, fun x hx => ?_, ?_⟩
    · rw [show _ = none from hr] at hr'
      cases hr'
    · have hlaid := laid_expand hfits hrest hopened
      unfold pending
      rwa [hr]
    · dsimp only
      rw [hinvocations]
      exact h.completed x hx
    · dsimp only
      rw [hfound]
      exact h.found
  | some opened =>
    obtain ⟨v, block⟩ := opened
    obtain ⟨w, source, htask, rfl, -, hfresh⟩ := opened?_eq_some hopened
    obtain ⟨htells, hwithin⟩ := hfits w (by rw [htask]; rfl)
    have hfunc : (commitPhis t.arena w block source).func = w.func :=
      commitPhis_keep (fun _ _ _ _ => rfl) ..
    have hinvocation : (commitPhis t.arena w block source).invocation = w.invocation :=
      commitPhis_keep (fun _ _ _ _ => rfl) ..
    rw [htask] at hrest
    refine ⟨fun r hr' => ?_, ?_, h.completed, h.found⟩
    · obtain rfl := Option.some.inj hr'
      unfold Running.Fits
      dsimp only
      rw [hinvocation] at hfresh ⊢
      refine ⟨?_, fun x hx => List.mem_cons_of_mem _ (hwithin x hx), List.mem_cons_self, ?_⟩
      · exact htells.extend hfunc hinvocation (frames_commitPhis ..) (extends_commitPhis ..)
      · intro x hx heq hblock
        refine absurd (hwithin x hx) ?_
        rwa [heq, hinvocation, hblock]
    · exact Laid.leave hrest ⟨_, block⟩ p.trace

theorem Traced.step (h : m.Traced t) : (m.step t).Traced t := by
  cases hr : m.running with
  | some r =>
    rw [step_of_running hr]
    exact h.advance hr
  | none =>
    cases htasks : m.tasks with
    | nil =>
      rw [step_of_idle hr htasks]
      split
      · exact ⟨fun r hr => (by cases hr), trivial, h.completed, h.found⟩
      · exact .start t m.queue h.completed h.found
    | cons p rest =>
      by_cases hzero : m.explorer.remaining t = 0
      · rw [step_of_spent hr htasks hzero]
        exact ⟨fun r hr => (by cases hr), trivial, h.completed, h.found⟩
      · rw [step_of_task hr htasks hzero]
        exact h.perform hr htasks

theorem Traced.run (h : m.Traced t) (n : Nat) : (m.run t n).Traced t := by
  induction n generalizing m with
  | zero => exact h
  | succ n ih => exact ih h.step

/-- Every walk at an instant has a shape. -/
theorem Traced.shape (h : m.Traced t) : ∀ x ∈ m.held, x.1.Shape t x.2 := by
  intro x hx
  unfold held at hx
  rw [List.mem_append, List.mem_append] at hx
  rcases hx with (hx | hx) | hx
  · cases hr : m.running with
    | none =>
      rw [hr] at hx
      cases hx
    | some r =>
      have hfits := h.running r hr
      rw [hr] at hx
      obtain ⟨w, hw, rfl⟩ := List.mem_map.1 hx
      unfold Running.Fits at hfits
      cases hnext : r.next with
      | run v block index =>
        rw [hnext] at hfits hw
        rw [List.mem_singleton.1 hw]
        exact hfits.1.shape
      | done v =>
        rw [hnext] at hfits hw
        rw [List.mem_singleton.1 hw]
        exact hfits.shape
      | tasks next =>
        rw [hnext] at hfits hw
        obtain ⟨task, htask, hwalk⟩ := List.mem_filterMap.1 hw
        exact ((hfits task htask).2 w hwalk).1.shape
  · obtain ⟨p, hp, hwalk⟩ := List.mem_filterMap.1 hx
    obtain ⟨w, hw, rfl⟩ := Option.map_eq_some_iff.1 hwalk
    exact (h.laid.tells hp hw).shape
  · exact (h.completed x hx).shape

/-- A walk goes on directly after a call that has returned, in the invocation that called. -/
def Resumes (t : Terrain) (f : Frame) (w v : Walk) (r : Trace) (block : BlockId) (index : Nat) :
    Prop :=
  w.frames = f :: v.frames ∧ v.func = f.callerFunc ∧ v.invocation = f.callerInvocation ∧
    ∃ i, index = i + 1 ∧ (t.arena.block block).ops[i]? = some f.call ∧
      (⟨v.invocation, block, i⟩ : Turn) ∈ r.turns

/-- A step that takes a frame off goes on after the call of the frame. -/
theorem Traced.resumes (h : m.Traced t) {r r' : Running} {w v : Walk} {block block' : BlockId}
    {index index' : Nat} (hr : m.running = some r) (hnext : r.next = .run w block index)
    (hr' : (m.step t).running = some r') (hnext' : r'.next = .run v block' index')
    (hlt : v.frames.length < w.frames.length) : ∃ f, Resumes t f w v r'.trace block' index' := by
  have hfits := h.running r hr
  unfold Running.Fits at hfits
  rw [hnext] at hfits
  have hresult := comesAfter t m.explorer w block index
  rw [step_of_running hr, Instant.advance, hnext] at hr'
  dsimp only at hr'
  generalize m.explorer.nextAt t w block index = result at hresult hr'
  obtain rfl := Option.some.inj hr'
  dsimp only at hnext' ⊢
  cases hresult with
  | back via value =>
    dsimp only at hnext' ⊢
    unfold unwind at hnext' ⊢
    cases hframes : w.frames with
    | nil =>
      rw [hframes] at hnext'
      cases hnext'
    | cons f rest =>
      rw [hframes] at hnext'
      cases hnext'
      obtain ⟨i, hi, hop, hturn⟩ :=
        hfits.1.shape.resumes f (by rw [hframes]; exact List.mem_cons_self)
      refine ⟨f, by rw [frames_leaveCall, hframes], func_leaveCall .., invocation_leaveCall ..,
        i, hi, hop, ?_⟩
      have hlength := Nat.le_of_lt hlt
      rw [invocation_leaveCall]
      unfold Next.observed
      dsimp only
      rw [observe_eq_goOn hlength, turns_goOn]
      exact Trace.Tells.subset_turns_turn hturn block index
  | complete | out => cases hnext'
  | skip hop =>
    cases hnext'
    exact absurd hlt (Nat.lt_irrefl _)
  | pass hop skipped =>
    cases hnext'
    exact absurd hlt (Nat.lt_irrefl _)
  | call hop hu hfunc hcall hplace =>
    cases hnext'
    have hframes : v.frames.length = w.frames.length + 1 := by
      rw [show v = _ from (congrArg Prod.fst hcall).symm, enterCall_walk, hu]
      rfl
    omega

end Instant

/-- The shape of every walk. Under any limits and at every instant of exploring, all walks there
are, the complete ones included, have the shape that calls and loops give them: calls are not too
deep and not recursive, no operation is run twice in an invocation, and the events of a callee lie
between its call and its return. When a call returns, the walk goes on directly after it. -/
theorem shape_of_walks (t : Terrain) (funcs : List FuncId) (n : Nat) :
    let m := (Instant.start {} t funcs).run t n
    (∀ x ∈ m.held, x.1.Shape t x.2) ∧
      (∀ r r' w v block block' index index', m.running = some r → r.next = .run w block index →
        (m.step t).running = some r' → r'.next = .run v block' index' →
        v.frames.length < w.frames.length →
        ∃ f, Instant.Resumes t f w v r'.trace block' index') ∧
      m.completed.map Prod.fst = m.explorer.found.toList ∧
      m.finish t = ({} : Explorer).exploreFuncs t funcs := by
  have hstart : (Instant.start {} t funcs).Traced t :=
    .start t funcs (fun x hx => (by cases hx)) rfl
  have htraced := hstart.run n
  refine ⟨htraced.shape, ?_, htraced.found, ?_⟩
  · intro r r' w v block block' index index' hr hnext hr' hnext' hlt
    exact htraced.resumes hr hnext hr' hnext' hlt
  · rw [Instant.finish_run]
    exact Instant.finish_start t rfl funcs []

end Explorer

end QueryTaint
