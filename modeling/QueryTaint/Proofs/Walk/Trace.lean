import QueryTaint.Proofs.Walk.Instant
import QueryTaint.Proofs.Walk.Nesting

/-!
# What a trace tells

`Trace.Tells` relates a walk to what was observed of it: which operations it has run, whose its
events are, and between which events its calls were open. Each way in which a walk goes on keeps it:
running an operation, letting values flow, entering a call, and returning from one.

The events of a callee and of those it called in turn lie between the event of the call and the
return, and nobody else's do (`Stay.Fits`). This comes down to numbers: an invocation that is open
has a higher number than those it was called from, and one that has returned is never credited
again.
-/

namespace QueryTaint

/-- The events of a stay: from its first one up to the return, if it has returned. -/
def Stay.Spans (s : Stay) (k : Nat) : Prop := s.start ≤ k ∧ ∀ stop ∈ s.stop, k < stop

/-- How a stay lies among the events of a walk and their owners. -/
structure Stay.Fits (events : Array Event) (owners : List Nat) (s : Stay) : Prop where
  later : s.caller < s.callee
  /-- The event before the stay is the call, and it is the caller's. -/
  called : ∃ k, s.start = k + 1 ∧ events[k]? = some (.op s.call) ∧ owners[k]? = some s.caller
  stopped : ∀ stop ∈ s.stop, stop ≤ owners.length
  /-- Every event of the callee is in the stay. -/
  own : ∀ k, owners[k]? = some s.callee → s.Spans k
  /-- An event in the stay is the callee's or belongs to an invocation that began later. -/
  inside : ∀ k i, s.Spans k → owners[k]? = some i → s.callee ≤ i

namespace Walk

/-- The invocation in which a walk began. -/
def root (w : Walk) : Nat := w.openInvocations.getLastD 0

/-- A walk has all events of another one, and then others. -/
def Extends (v w : Walk) : Prop := w.events.toList <+: v.events.toList

namespace Extends

variable {u v w : Walk}

theorem refl (w : Walk) : w.Extends w := List.prefix_rfl

theorem bind (h : v.Extends w) (via : Option OpId) (target : OperandId)
    (source : Option OperandId) : (v.bind via target source).Extends w := by
  refine List.IsPrefix.trans h ?_
  rw [Walk.bind, Array.toList_push]
  exact List.prefix_append ..

theorem pushOp (w : Walk) (op : OpId) (result : Option OperandId) :
    (w.pushOp op result).Extends w := by
  unfold Extends Walk.pushOp
  rw [Array.toList_push]
  exact List.prefix_append ..

theorem size_le (h : v.Extends w) : w.events.size ≤ v.events.size := by
  have hle := List.IsPrefix.length_le h
  rwa [Array.length_toList, Array.length_toList] at hle

theorem getElem? (h : v.Extends w) {k : Nat} {event : Event} (hk : w.events[k]? = some event) :
    v.events[k]? = some event := by
  obtain ⟨extra, hextra⟩ := h
  rw [← Array.getElem?_toList] at hk ⊢
  have hlt := (List.getElem?_eq_some_iff.1 hk).1
  rw [← hextra, List.getElem?_append_left hlt]
  exact hk

end Extends

end Walk

namespace Explorer

section Closed

variable {P : Walk → Prop} (hbind : ∀ w via target source, P w → P (w.bind via target source))
  {w : Walk}
include hbind

theorem commitPhis_closed (h : P w) (a : Arena) (block : BlockId) (source : Option BlockId) :
    P (commitPhis a w block source) := by
  unfold commitPhis
  generalize (a.block block).phis = phis
  induction phis generalizing w with
  | nil => exact h
  | cons phi phis ih =>
    refine ih ?_
    dsimp only
    split
    · split
      · exact hbind _ _ _ _ h
      · exact h
    · exact h

theorem bindParams_closed (h : P w) (t : Terrain) (args : List OperandId) (params : List OpId) :
    P (bindParams t args w params) := by
  induction params generalizing args w with
  | nil => exact h
  | cons param params ih =>
    refine ih ?_ _
    split
    · exact hbind _ _ _ _ h
    · exact h

theorem bindCaptures_closed (h : P w) (t : Terrain) (callable : Option OpId) :
    P (bindCaptures t w callable) := by
  unfold bindCaptures
  split
  · rename_i uses _ _
    generalize uses = uses
    induction uses generalizing w with
    | nil => exact h
    | cons bound uses ih =>
      refine ih ?_
      dsimp only
      split
      · exact hbind _ _ _ _ h
      · exact h
  · exact h

end Closed

variable {t : Terrain} {w : Walk}

theorem extends_commitPhis (t : Terrain) (w : Walk) (block : BlockId) (source : Option BlockId) :
    (commitPhis t.arena w block source).Extends w := by
  have hbind (v : Walk) (via : Option OpId) (target : OperandId) (source : Option OperandId)
      (h : v.Extends w) : (v.bind via target source).Extends w := h.bind via target source
  exact commitPhis_closed hbind (.refl w) ..

theorem extends_enterCall (e : Explorer) (t : Terrain) (w : Walk) (op : OpId) (func : FuncId)
    (block : BlockId) (index : Nat) : (e.enterCall t w op func block index).1.Extends w := by
  have hbind (v : Walk) (via : Option OpId) (target : OperandId) (source : Option OperandId)
      (h : v.Extends w) : (v.bind via target source).Extends w := h.bind via target source
  have hsupplied : (t.supplied w op func).Extends w :=
    bindCaptures_closed hbind (bindParams_closed hbind (.refl w) t _ _) t _
  rw [enterCall_walk]
  exact hsupplied

theorem extends_leaveCall (t : Terrain) (w : Walk) (frame : Frame) (rest : List Frame)
    (via : Option OpId) (value : Option OperandId) :
    (leaveCall t w frame rest via value).Extends w := by
  have hframes : ({ w with frames := rest, returned := value } : Walk).Extends w := .refl w
  unfold leaveCall
  dsimp only
  split
  · exact hframes
  · exact hframes.bind ..
  · exact hframes

end Explorer

namespace Trace

/-- A trace tells a walk: it has the operations that were run and the owners of the events, and the
calls lie where they were open. Numbers from a given one on were not given out yet. -/
structure Tells (r : Trace) (t : Terrain) (bound : Nat) (w : Walk) : Prop where
  nests : w.Nests t
  opened : w.invocation < bound
  /-- No operation was run twice in an invocation. -/
  nodup : r.turns.Nodup
  turned : ∀ x ∈ r.turns, x.invocation < bound
  /-- The operation of an open call was run last in its block. -/
  waiting : ∀ f ∈ w.frames, (∃ i, f.resumeIndex = i + 1 ∧
      (⟨f.callerInvocation, f.resumeBlock, i⟩ : Turn) ∈ r.turns) ∧
    ∀ x ∈ r.turns, x.invocation = f.callerInvocation → x.block = f.resumeBlock →
      x.index < f.resumeIndex
  size : r.owners.length = w.events.size
  owned : ∀ i ∈ r.owners, i < bound
  /-- Events belong to the invocation in which the walk began or to one that was called. -/
  credited : ∀ i ∈ r.owners, i = w.root ∨ ∃ s ∈ r.stays, s.callee = i
  recorded : ∀ f ∈ w.frames, ∃ start,
    (⟨f.call, f.callerInvocation, f.invocation, start, none⟩ : Stay) ∈ r.stays
  fits : ∀ s ∈ r.stays, s.Fits w.events r.owners
  numbered : ∀ s ∈ r.stays, s.callee < bound
  /-- A call has not returned exactly if its invocation is open. -/
  openStays : ∀ s ∈ r.stays, s.stop = none ↔ s.callee ∈ w.openInvocations

/-- All operations that were run in a block of the running invocation come before an index. -/
def Before (r : Trace) (w : Walk) (block : BlockId) (index : Nat) : Prop :=
  ∀ x ∈ r.turns, x.invocation = w.invocation → x.block = block → x.index < index

variable {r : Trace} {t : Terrain} {bound : Nat} {v w : Walk}

/-! ## Owners -/

theorem owners_credit (r : Trace) (owner size : Nat) :
    (r.credit owner size).owners = r.owners ++ List.replicate (size - r.owners.length) owner := rfl

theorem length_owners_credit {owner size : Nat} (h : r.owners.length ≤ size) :
    (r.credit owner size).owners.length = size := by
  rw [owners_credit, List.length_append, List.length_replicate]
  omega

/-- An event has its owner already, or it comes after those that have one. -/
theorem getElem?_owners_credit {owner size k i : Nat}
    (h : (r.credit owner size).owners[k]? = some i) :
    r.owners[k]? = some i ∨ r.owners.length ≤ k ∧ i = owner := by
  rw [owners_credit, List.getElem?_append] at h
  split at h
  · exact .inl h
  · rename_i hge
    obtain ⟨hlt, rfl⟩ := List.getElem?_eq_some_iff.1 h
    exact .inr ⟨by omega, List.getElem_replicate ..⟩

theorem getElem?_owners_of_credit {owner size k i : Nat} (h : r.owners[k]? = some i) :
    (r.credit owner size).owners[k]? = some i := by
  rw [owners_credit, List.getElem?_append_left (List.getElem?_eq_some_iff.1 h).1]
  exact h

theorem mem_owners_credit {owner size i : Nat} (h : i ∈ (r.credit owner size).owners) :
    i ∈ r.owners ∨ i = owner := by
  rw [owners_credit, List.mem_append, List.mem_replicate] at h
  exact h.imp_right And.right

end Trace

/-- Further events belong to the innermost invocation: one that is not below any open stay and not
that of a closed one. -/
theorem Stay.Fits.credit {s : Stay} {r : Trace} {events events' : Array Event}
    {owner size : Nat} (h : s.Fits events r.owners)
    (hevents : ∀ (k : Nat) event, events[k]? = some event → events'[k]? = some event)
    (hopen : s.stop = none → s.callee ≤ owner) (hclosed : s.callee = owner → s.stop = none) :
    s.Fits events' (r.credit owner size).owners := by
  obtain ⟨k₀, hstart, hcall, hcaller⟩ := h.called
  have hlength : k₀ < r.owners.length := (List.getElem?_eq_some_iff.1 hcaller).1
  refine ⟨h.later, ⟨k₀, hstart, hevents _ _ hcall, Trace.getElem?_owners_of_credit hcaller⟩, ?_, ?_, ?_⟩
  · intro stop hstop
    have hle := h.stopped stop hstop
    rw [Trace.owners_credit, List.length_append]
    omega
  · intro k hk
    rcases Trace.getElem?_owners_credit hk with hk | ⟨hge, howner⟩
    · exact h.own k hk
    · refine ⟨by omega, fun stop hstop => ?_⟩
      rw [hclosed howner] at hstop
      cases hstop
  · intro k i hspans hk
    rcases Trace.getElem?_owners_credit hk with hk | ⟨hge, rfl⟩
    · exact h.inside k i hspans hk
    · cases hstop : s.stop with
      | none => exact hopen hstop
      | some stop =>
        have hlt := hspans.2 stop hstop
        have hle := h.stopped stop hstop
        omega

/-- A stay begins after the last event, which is the call, when an invocation is entered whose number is
higher than those of all owners so far. -/
theorem Stay.Fits.enter {r : Trace} {events : Array Event} {call : OpId} {caller callee k : Nat}
    (size : Nat) (hlater : caller < callee) (howned : ∀ i ∈ r.owners, i < callee)
    (hlast : r.owners.length = k + 1) (hcall : events[k]? = some (.op call))
    (howner : r.owners[k]? = some caller) :
    Stay.Fits events (r.credit callee size).owners
      ⟨call, caller, callee, r.owners.length, none⟩ where
  later := hlater
  called := ⟨k, hlast, hcall, Trace.getElem?_owners_of_credit howner⟩
  stopped := fun stop hstop => by cases hstop
  own j hj := by
    refine ⟨?_, fun stop hstop => by cases hstop⟩
    rcases Trace.getElem?_owners_credit hj with hj | ⟨hge, -⟩
    · exact absurd (howned callee (List.mem_of_getElem? hj)) (Nat.lt_irrefl _)
    · exact hge
  inside j i hspans hj := by
    rcases Trace.getElem?_owners_credit hj with hj | ⟨-, rfl⟩
    · exact absurd hspans.1 (Nat.not_le_of_lt (List.getElem?_eq_some_iff.1 hj).1)
    · exact Nat.le_refl _

/-- A stay that was open ends with the last event. -/
theorem Stay.Fits.close {s : Stay} {events : Array Event} {owners : List Nat}
    (h : s.Fits events owners) (hopen : s.stop = none) :
    Stay.Fits events owners { s with stop := some owners.length } := by
  have hspans {k : Nat} (hk : s.start ≤ k) : s.Spans k := by
    refine ⟨hk, fun stop hstop => ?_⟩
    rw [hopen] at hstop
    cases hstop
  refine ⟨h.later, h.called, fun stop hstop => ?_, fun k hk => ⟨(h.own k hk).1, ?_⟩, ?_⟩
  · cases hstop
    exact Nat.le_refl _
  · intro stop hstop
    cases hstop
    exact (List.getElem?_eq_some_iff.1 hk).1
  · intro k i hk howner
    exact h.inside k i (hspans hk.1) howner

namespace Trace.Tells

variable {r : Trace} {t : Terrain} {bound : Nat} {v w : Walk}

theorem start (t : Terrain) (func : FuncId) (bound : Nat) :
    ({} : Trace).Tells t (bound + 1) { func, invocation := bound } := by
  refine ⟨.of_start t func bound, Nat.lt_succ_self _, List.nodup_nil, ?_, ?_, rfl, ?_, ?_, ?_, ?_, ?_,
    ?_⟩
  all_goals
    intro x hx
    cases hx

theorem mono (h : r.Tells t bound w) {bound' : Nat} (hle : bound ≤ bound') : r.Tells t bound' w where
  nests := h.nests
  opened := Nat.lt_of_lt_of_le h.opened hle
  nodup := h.nodup
  turned x hx := Nat.lt_of_lt_of_le (h.turned x hx) hle
  waiting := h.waiting
  size := h.size
  owned i hi := Nat.lt_of_lt_of_le (h.owned i hi) hle
  credited := h.credited
  recorded := h.recorded
  fits := h.fits
  numbered s hs := Nat.lt_of_lt_of_le (h.numbered s hs) hle
  openStays := h.openStays

/-! ## Running an operation -/

theorem turns_turn {x : Turn} {block : BlockId} {index : Nat}
    (hx : x ∈ (r.turn t w block index).turns) :
    x ∈ r.turns ∨ x = ⟨w.invocation, block, index⟩ := by
  unfold Trace.turn at hx
  split at hx
  · exact (List.mem_cons.1 hx).symm
  · exact .inl hx

theorem mem_turns_turn {block : BlockId} {index : Nat} {op : OpId}
    (h : (t.arena.block block).ops[index]? = some op) :
    (⟨w.invocation, block, index⟩ : Turn) ∈ (r.turn t w block index).turns := by
  unfold Trace.turn
  rw [h]
  exact List.mem_cons_self

theorem subset_turns_turn {x : Turn} (hx : x ∈ r.turns) (block : BlockId) (index : Nat) :
    x ∈ (r.turn t w block index).turns := by
  unfold Trace.turn
  split
  · exact List.mem_cons_of_mem _ hx
  · exact hx

theorem before_turn {block : BlockId} {index : Nat} (h : r.Before w block index) :
    (r.turn t w block index).Before w block (index + 1) := by
  intro x hx hinvocation hblock
  rcases turns_turn hx with hx | rfl
  · have hlt := h x hx hinvocation hblock
    omega
  · exact Nat.lt_succ_self _

/-- An operation is run that comes after all that were run in its block. -/
theorem turn (h : r.Tells t bound w) {block : BlockId} {index : Nat}
    (hbefore : r.Before w block index) : (r.turn t w block index).Tells t bound w := by
  have hnodup : (r.turn t w block index).turns.Nodup := by
    unfold Trace.turn
    split
    · refine List.nodup_cons.2 ⟨fun hmem => ?_, h.nodup⟩
      exact Nat.lt_irrefl _ (hbefore _ hmem rfl rfl)
    · exact h.nodup
  have hturned : ∀ x ∈ (r.turn t w block index).turns, x.invocation < bound := by
    intro x hx
    rcases turns_turn hx with hx | rfl
    · exact h.turned x hx
    · exact h.opened
  have hwaiting : ∀ f ∈ w.frames, (∃ i, f.resumeIndex = i + 1 ∧
      (⟨f.callerInvocation, f.resumeBlock, i⟩ : Turn) ∈ (r.turn t w block index).turns) ∧
      ∀ x ∈ (r.turn t w block index).turns, x.invocation = f.callerInvocation →
        x.block = f.resumeBlock → x.index < f.resumeIndex := by
    intro f hf
    obtain ⟨⟨i, hi, hturn⟩, hlast⟩ := h.waiting f hf
    refine ⟨⟨i, hi, subset_turns_turn hturn block index⟩, fun x hx hinvocation hblock => ?_⟩
    rcases turns_turn hx with hx | rfl
    · exact hlast x hx hinvocation hblock
    · -- the running invocation waits for no call
      have hlt : f.callerInvocation < w.invocation := by
        have hpairs := List.pairwise_cons.1 h.nests.pairwise_invocation
        exact hpairs.1 _ (List.mem_map.2 ⟨f, hf, rfl⟩)
      exact absurd hinvocation (Nat.ne_of_gt hlt)
  have hstays : (r.turn t w block index).stays = r.stays := by unfold Trace.turn; split <;> rfl
  have howners : (r.turn t w block index).owners = r.owners := by unfold Trace.turn; split <;> rfl
  constructor
  case nests => exact h.nests
  case opened => exact h.opened
  case nodup => exact hnodup
  case turned => exact hturned
  case waiting => exact hwaiting
  case size => rw [howners]; exact h.size
  case owned => rw [howners]; exact h.owned
  case credited => rw [howners, hstays]; exact h.credited
  case recorded => rw [hstays]; exact h.recorded
  case fits => rw [howners, hstays]; exact h.fits
  case numbered => rw [hstays]; exact h.numbered
  case openStays => rw [hstays]; exact h.openStays

/-! ## Letting values flow -/

theorem le_invocation (h : w.Nests t) {i : Nat} (hi : i ∈ w.openInvocations) : i ≤ w.invocation := by
  rcases List.mem_cons.1 hi with rfl | hi
  · exact Nat.le_refl _
  · exact Nat.le_of_lt ((List.pairwise_cons.1 h.pairwise_invocation).1 i hi)

/-- The running invocation is the one in which the walk began, or it was called. -/
theorem running (h : r.Tells t bound w) :
    w.invocation = w.root ∨ ∃ s ∈ r.stays, s.callee = w.invocation := by
  have hnests : t.Nests w.func w.invocation w.frames := h.nests
  cases hframes : w.frames with
  | nil =>
    left
    rw [Walk.root, Walk.openInvocations, hframes]
    rfl
  | cons f below =>
    right
    obtain ⟨start, hstay⟩ := h.recorded f (by rw [hframes]; exact List.mem_cons_self)
    rw [hframes] at hnests
    exact ⟨_, hstay, hnests.1.2⟩

/-- A walk goes on in the same invocation, with further events of it. -/
theorem extend (h : r.Tells t bound w) (hfunc : v.func = w.func)
    (hinvocation : v.invocation = w.invocation) (hframes : v.frames = w.frames)
    (hextends : v.Extends w) : (r.credit w.invocation v.events.size).Tells t bound v := by
  have hopen : v.openInvocations = w.openInvocations := by
    rw [Walk.openInvocations, hinvocation, hframes]
    rfl
  have hroot : v.root = w.root := by rw [Walk.root, hopen]; rfl
  have hle : r.owners.length ≤ v.events.size := by
    rw [h.size]
    exact hextends.size_le
  constructor
  case nests =>
    rw [Walk.Nests, hfunc, hinvocation, hframes]
    exact h.nests
  case opened => rw [hinvocation]; exact h.opened
  case nodup => exact h.nodup
  case turned => exact h.turned
  case waiting => rw [hframes]; exact h.waiting
  case size => exact length_owners_credit hle
  case owned =>
    intro i hi
    rcases mem_owners_credit hi with hi | rfl
    · exact h.owned i hi
    · exact h.opened
  case credited =>
    intro i hi
    rw [hroot]
    rcases mem_owners_credit hi with hi | rfl
    · exact h.credited i hi
    · exact h.running
  case recorded => rw [hframes]; exact h.recorded
  case fits =>
    intro s hs
    refine (h.fits s hs).credit (fun k event => hextends.getElem?) (fun hstop => ?_) fun heq => ?_
    · exact le_invocation h.nests ((h.openStays s hs).1 hstop)
    · exact (h.openStays s hs).2 (heq ▸ List.mem_cons_self)
  case numbered => exact h.numbered
  case openStays => rw [hopen]; exact h.openStays

/-! ## Calls -/

/-- A call is entered: its invocation has a number of its own, and further events are its. -/
theorem enter {e : Explorer} (h : r.Tells t e.invocations w) {op : OpId} {func : FuncId}
    {block : BlockId} {index k : Nat} (hop : (t.arena.block block).ops[index]? = some op)
    (hfunc : t.followed? w op = some func)
    (hturn : (⟨w.invocation, block, index⟩ : Turn) ∈ r.turns)
    (hbefore : r.Before w block (index + 1)) (hsize : w.events.size = k + 1)
    (hevent : w.events[k]? = some (.op op)) (howner : r.owners[k]? = some w.invocation)
    (hv : v = (e.enterCall t w op func block (index + 1)).1) :
    ({ r.credit v.invocation v.events.size with
        stays := ⟨op, w.invocation, v.invocation, w.events.size, none⟩ :: r.stays } : Trace).Tells t
      (e.invocations + 1) v := by
  have hextends : v.Extends w := hv ▸ Explorer.extends_enterCall ..
  have hopen : v.openInvocations = e.invocations :: w.openInvocations :=
    hv ▸ Explorer.openInvocations_enterCall ..
  have hinvocation : v.invocation = e.invocations := by rw [hv, Explorer.enterCall_walk]
  have hframes : v.frames =
      ⟨func, e.invocations, op, block, index + 1, w.invocation, w.func⟩ :: w.frames := by
    rw [hv, Explorer.enterCall_walk]
  have hroot : v.root = w.root := by
    rw [Walk.root, hopen, Walk.root, Walk.openInvocations]
    rfl
  have hle : r.owners.length ≤ v.events.size := by
    rw [h.size]
    exact hextends.size_le
  constructor
  case nests => exact hv ▸ Explorer.nests_enterCall h.nests h.opened hop hfunc
  case opened => exact hinvocation ▸ Nat.lt_succ_self _
  case nodup => exact h.nodup
  case turned => exact fun x hx => Nat.lt_succ_of_lt (h.turned x hx)
  case waiting =>
    intro f hf
    rw [hframes] at hf
    rcases List.mem_cons.1 hf with rfl | hf
    · exact ⟨⟨index, rfl, hturn⟩, hbefore⟩
    · exact h.waiting f hf
  case size => exact length_owners_credit hle
  case owned =>
    intro i hi
    rcases mem_owners_credit hi with hi | rfl
    · exact Nat.lt_succ_of_lt (h.owned i hi)
    · exact hinvocation ▸ Nat.lt_succ_self _
  case credited =>
    intro i hi
    rw [hroot]
    rcases mem_owners_credit hi with hi | rfl
    · rcases h.credited i hi with heq | ⟨s, hs, heq⟩
      · exact .inl heq
      · exact .inr ⟨s, List.mem_cons_of_mem _ hs, heq⟩
    · exact .inr ⟨_, List.mem_cons_self, rfl⟩
  case recorded =>
    intro f hf
    rw [hframes] at hf
    rcases List.mem_cons.1 hf with rfl | hf
    · exact ⟨w.events.size, hinvocation ▸ List.mem_cons_self⟩
    · obtain ⟨start, hstart⟩ := h.recorded f hf
      exact ⟨start, List.mem_cons_of_mem _ hstart⟩
  case fits =>
    intro s hs
    rcases List.mem_cons.1 hs with rfl | hs
    · rw [← h.size, hinvocation]
      exact .enter _ h.opened h.owned (h.size.trans hsize) (hextends.getElem? hevent) howner
    · have hlt : s.callee < v.invocation := hinvocation ▸ h.numbered s hs
      exact (h.fits s hs).credit (fun k event => hextends.getElem?) (fun _ => Nat.le_of_lt hlt)
        fun heq => absurd heq (Nat.ne_of_lt hlt)
  case numbered =>
    intro s hs
    rcases List.mem_cons.1 hs with rfl | hs
    · exact hinvocation ▸ Nat.lt_succ_self _
    · exact Nat.lt_succ_of_lt (h.numbered s hs)
  case openStays =>
    intro s hs
    rw [hopen]
    rcases List.mem_cons.1 hs with rfl | hs
    · exact iff_of_true rfl (hinvocation ▸ List.mem_cons_self)
    · have hne : s.callee ≠ e.invocations := Nat.ne_of_lt (h.numbered s hs)
      rw [h.openStays s hs, List.mem_cons, or_iff_right hne]

/-- The stay of the innermost call ends with the last event. -/
theorem close (h : r.Tells t bound w) {frame : Frame} {rest : List Frame}
    (hframes : w.frames = frame :: rest) (hfunc : v.func = frame.callerFunc)
    (hinvocation : v.invocation = frame.callerInvocation) (hrest : v.frames = rest)
    (hevents : v.events = w.events) :
    ({ r with
        stays := r.stays.map fun s =>
          if s.callee = w.invocation then { s with stop := some w.events.size } else s } :
      Trace).Tells t bound v := by
  have hnests : t.Nests w.func w.invocation (frame :: rest) := hframes ▸ h.nests
  have hopen : w.openInvocations = w.invocation :: v.openInvocations := by
    rw [Walk.openInvocations, Walk.openInvocations, hframes, hinvocation, hrest]
    rfl
  have hlater : frame.callerInvocation < w.invocation := hnests.1.2 ▸ hnests.2.1.later
  have hnotMem : w.invocation ∉ v.openInvocations := by
    have hnodup : w.openInvocations.Nodup := h.nests.nodup_invocation
    rw [hopen] at hnodup
    exact (List.nodup_cons.1 hnodup).1
  have hroot : v.root = w.root := by
    rw [Walk.root, Walk.root, hopen, Walk.openInvocations]
    rfl
  have hframe {f : Frame} (hf : f ∈ rest) : f ∈ w.frames := hframes ▸ List.mem_cons_of_mem _ hf
  constructor
  case nests =>
    rw [Walk.Nests, hfunc, hinvocation, hrest]
    exact hnests.2.2
  case opened => rw [hinvocation]; exact Nat.lt_trans hlater h.opened
  case nodup => exact h.nodup
  case turned => exact h.turned
  case waiting => rw [hrest]; exact fun f hf => h.waiting f (hframe hf)
  case size => rw [hevents]; exact h.size
  case owned => exact h.owned
  case credited =>
    intro i hi
    rw [hroot]
    rcases h.credited i hi with heq | ⟨s, hs, heq⟩
    · exact .inl heq
    · refine .inr ⟨_, List.mem_map.2 ⟨s, hs, rfl⟩, ?_⟩
      split <;> exact heq
  case recorded =>
    intro f hf
    rw [hrest] at hf
    obtain ⟨start, hstart⟩ := h.recorded f (hframe hf)
    -- the invocations of the frames below are not the one that returns
    have hne : f.invocation ≠ w.invocation := by
      intro heq
      have hmem : f.invocation ∈ rest.map (·.invocation) := List.mem_map.2 ⟨f, hf, rfl⟩
      have hcaller := hnests.2.2.isPrefix_invocations.subset hmem
      rw [heq, ← hinvocation, ← hrest] at hcaller
      exact hnotMem hcaller
    refine ⟨start, List.mem_map.2 ⟨_, hstart, ?_⟩⟩
    exact if_neg hne
  case fits =>
    intro s' hs'
    obtain ⟨s, hs, rfl⟩ := List.mem_map.1 hs'
    rw [hevents]
    split
    · rename_i heq
      have hstop : s.stop = none := (h.openStays s hs).2 (heq ▸ List.mem_cons_self)
      rw [← h.size]
      exact (h.fits s hs).close hstop
    · exact h.fits s hs
  case numbered =>
    intro s' hs'
    obtain ⟨s, hs, rfl⟩ := List.mem_map.1 hs'
    split <;> exact h.numbered s hs
  case openStays =>
    intro s' hs'
    obtain ⟨s, hs, rfl⟩ := List.mem_map.1 hs'
    split
    · rename_i heq
      refine iff_of_false (fun hnone => by cases hnone) ?_
      dsimp only
      rwa [heq]
    · rename_i hne
      rw [h.openStays s hs, hopen, List.mem_cons, or_iff_right hne]

/-- A call returns: what it returns is its last event, and its invocation is open no more. -/
theorem back (h : r.Tells t bound w) {frame : Frame} {rest : List Frame}
    (hframes : w.frames = frame :: rest) (via : Option OpId) (value : Option OperandId)
    (hv : v = Explorer.leaveCall t w frame rest via value) :
    (r.goOn w v).Tells t bound v := by
  have hrest : v.frames = rest := hv ▸ Explorer.frames_leaveCall ..
  have hlt : v.frames.length < w.frames.length := by
    rw [hrest, hframes]
    exact Nat.lt_succ_self _
  have hextends : v.Extends w := hv ▸ Explorer.extends_leaveCall ..
  have hcredited := h.extend
    (v := { v with func := w.func, invocation := w.invocation, frames := w.frames })
    rfl rfl rfl hextends
  unfold Trace.goOn
  rw [if_pos hlt]
  exact hcredited.close hframes (hv ▸ Explorer.func_leaveCall ..)
    (hv ▸ Explorer.invocation_leaveCall ..) hrest rfl

end Trace.Tells

end QueryTaint
