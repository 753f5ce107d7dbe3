import Mathlib.Data.List.Nodup
import Mathlib.Data.List.Perm.Subperm
import QueryTaint.Proofs.Walk.Scope

/-!
# Calls inside calls

The frames of a walk are a chain: each one holds who was called, from where, and where the caller
goes on, and the caller is the function of the frame below. `Terrain.Nests` says so, together with
what was checked when the call was entered: it was not too deep, its function had no open call and
was not the caller, and its number was new.

It follows that frames are at most as many as the depth allows (`Nests.length_le`), and, whatever
the depth allows, at most as many as there are functions that belong to a script
(`Nests.length_le_owners`).
-/

namespace QueryTaint

/-- What a frame above others was checked for when its call was entered. -/
structure Frame.Fits (t : Terrain) (f : Frame) (below : List Frame) : Prop where
  shallow : below.length < t.limits.maxDepth
  closed : ∀ g ∈ below, g.func ≠ f.func
  other : f.func ≠ f.callerFunc
  later : f.callerInvocation < f.invocation
  owned : (t.resolver.scriptOf? f.callerFunc).isSome = true
  /-- The caller goes on with the operation directly after the call. -/
  resumes : ∃ i, f.resumeIndex = i + 1 ∧ (t.arena.block f.resumeBlock).ops[i]? = some f.call

namespace Terrain

/-- Frames are the open calls that lead to an invocation of a function. -/
def Nests (t : Terrain) : FuncId → Nat → List Frame → Prop
  | _, _, [] => True
  | func, invocation, f :: below =>
    (f.func = func ∧ f.invocation = invocation) ∧ f.Fits t below ∧
      t.Nests f.callerFunc f.callerInvocation below

namespace Nests

variable {t : Terrain} {func : FuncId} {invocation : Nat} {frames : List Frame}

theorem length_le (h : t.Nests func invocation frames) : frames.length ≤ t.limits.maxDepth := by
  cases frames with
  | nil => exact Nat.zero_le _
  | cons f below => exact h.2.1.shallow

theorem nodup_func (h : t.Nests func invocation frames) : (frames.map (·.func)).Nodup := by
  induction frames generalizing func invocation with
  | nil => exact List.nodup_nil
  | cons f below ih =>
    obtain ⟨-, hfits, hbelow⟩ := h
    refine List.nodup_cons.2 ⟨fun hmem => ?_, ih hbelow⟩
    obtain ⟨g, hg, heq⟩ := List.mem_map.1 hmem
    exact hfits.closed g hg heq

theorem fits (h : t.Nests func invocation frames) {f : Frame} (hf : f ∈ frames) :
    ∃ below, f.Fits t below := by
  induction frames generalizing func invocation with
  | nil => cases hf
  | cons g below ih =>
    rcases List.mem_cons.1 hf with rfl | hf
    · exact ⟨below, h.2.1⟩
    · exact ih h.2.2 hf

/-- Every invocation on the chain has a lower number than those it leads to. -/
theorem pairwise_invocation (h : t.Nests func invocation frames) :
    (invocation :: frames.map (·.callerInvocation)).Pairwise (· > ·) := by
  induction frames generalizing func invocation with
  | nil => exact List.pairwise_singleton _ _
  | cons f below ih =>
    obtain ⟨⟨-, rfl⟩, hfits, hbelow⟩ := h
    have hpairs := ih hbelow
    have hlater := hfits.later
    rw [List.map_cons]
    refine List.pairwise_cons.2 ⟨fun i hi => ?_, hpairs⟩
    rcases List.mem_cons.1 hi with rfl | hi
    · exact hlater
    · have hlt := (List.pairwise_cons.1 hpairs).1 i hi
      omega

theorem nodup_invocation (h : t.Nests func invocation frames) :
    (invocation :: frames.map (·.callerInvocation)).Nodup :=
  h.pairwise_invocation.imp fun hlt heq => by omega

/-- The numbers in the frames are those of the invocations that were called. -/
theorem isPrefix_invocations (h : t.Nests func invocation frames) :
    frames.map (·.invocation) <+: invocation :: frames.map (·.callerInvocation) := by
  induction frames generalizing func invocation with
  | nil => exact List.nil_prefix
  | cons f below ih =>
    obtain ⟨⟨-, rfl⟩, -, hbelow⟩ := h
    exact List.cons_prefix_cons.2 ⟨rfl, ih hbelow⟩

/-- All functions that wait for a call belong to a script. -/
theorem owned (h : t.Nests func invocation frames)
    (hfunc : (t.resolver.scriptOf? func).isSome = true) {f : Frame} (hf : f ∈ frames) :
    (t.resolver.scriptOf? f.func).isSome = true := by
  induction frames generalizing func invocation with
  | nil => cases hf
  | cons g below ih =>
    obtain ⟨⟨rfl, -⟩, hfits, hbelow⟩ := h
    rcases List.mem_cons.1 hf with rfl | hf
    · exact hfunc
    · exact ih hbelow hfits.owned hf

/-- A function that belongs to a script has at most as many calls open as there are such
functions. -/
theorem length_le_owners (h : t.Nests func invocation frames)
    (hfunc : (t.resolver.scriptOf? func).isSome = true) :
    frames.length ≤ t.resolver.owners.size := by
  have hindex : (frames.map (·.func.index)).Nodup := by
    have hfuncs := h.nodup_func
    have hinj : Function.Injective FuncId.index := fun a b hab => by
      cases a
      cases b
      exact congrArg FuncId.mk hab
    have hnodup := List.Nodup.map hinj hfuncs
    rwa [List.map_map] at hnodup
  have hsub : frames.map (·.func.index) ⊆ t.resolver.owners.keys := by
    intro i hi
    obtain ⟨f, hf, rfl⟩ := List.mem_map.1 hi
    have hsome := h.owned hfunc hf
    rw [Resolver.scriptOf?, Std.TreeMap.get?_eq_getElem?] at hsome
    exact Std.TreeMap.mem_keys.2 (Std.TreeMap.mem_iff_isSome_getElem?.2 hsome)
  have hle := (List.Nodup.subperm hindex hsub).length_le
  rwa [List.length_map, Std.TreeMap.length_keys] at hle

end Nests

end Terrain

namespace Walk

/-- The frames of a walk are the open calls that lead to its running invocation. -/
def Nests (w : Walk) (t : Terrain) : Prop := t.Nests w.func w.invocation w.frames

theorem Nests.of_start (t : Terrain) (func : FuncId) (invocation : Nat) :
    ({ func, invocation } : Walk).Nests t := trivial

end Walk

namespace Terrain

variable {t : Terrain}

/-- What is checked of a call that is followed. -/
theorem followed?_eq_some {w : Walk} {op : OpId} {func : FuncId}
    (h : t.followed? w op = some func) :
    (t.resolver.scriptOf? w.func).isSome = true ∧ w.isActive func = false ∧
      w.frames.length < t.limits.maxDepth := by
  unfold followed? at h
  split at h
  case isFalse => cases h
  obtain ⟨script, hscript, h⟩ := Option.bind_eq_some_iff.1 h
  obtain ⟨f, -, h⟩ := Option.bind_eq_some_iff.1 h
  split at h
  · cases h
  · rename_i hnot
    cases h
    simp only [Bool.or_eq_true, decide_eq_true_eq, not_or, Nat.not_le] at hnot
    exact ⟨by rw [hscript]; rfl, Bool.eq_false_iff.2 hnot.1, hnot.2⟩

end Terrain

namespace Explorer

variable {t : Terrain} {e : Explorer} {w : Walk}

/-- A call that is followed is nested in the calls that led to it. -/
theorem nests_enterCall (h : w.Nests t) (hopen : w.invocation < e.invocations) {op : OpId}
    {func : FuncId} {block : BlockId} {index : Nat} (hop : (t.arena.block block).ops[index]? = some op)
    (hfunc : t.followed? w op = some func) :
    (e.enterCall t w op func block (index + 1)).1.Nests t := by
  obtain ⟨howned, hactive, hshallow⟩ := Terrain.followed?_eq_some hfunc
  rw [Walk.isActive, Bool.or_eq_false_iff, decide_eq_false_iff_not, List.any_eq_false] at hactive
  rw [enterCall_walk, Walk.Nests]
  refine ⟨⟨rfl, rfl⟩, ⟨hshallow, fun g hg => ?_, Ne.symm hactive.1, hopen, howned,
    ⟨index, rfl, hop⟩⟩, h⟩
  exact fun heq => hactive.2 g hg (decide_eq_true heq)

theorem func_leaveCall (t : Terrain) (w : Walk) (frame : Frame) (rest : List Frame)
    (via : Option OpId) (value : Option OperandId) :
    (leaveCall t w frame rest via value).func = frame.callerFunc := by
  unfold leaveCall
  dsimp only

theorem invocation_leaveCall (t : Terrain) (w : Walk) (frame : Frame) (rest : List Frame)
    (via : Option OpId) (value : Option OperandId) :
    (leaveCall t w frame rest via value).invocation = frame.callerInvocation := by
  unfold leaveCall
  dsimp only

/-- A call that returns leaves the caller nested as it was. -/
theorem nests_leaveCall {frame : Frame} {rest : List Frame} (h : w.Nests t)
    (hframes : w.frames = frame :: rest) (via : Option OpId) (value : Option OperandId) :
    (leaveCall t w frame rest via value).Nests t := by
  rw [Walk.Nests, hframes] at h
  rw [Walk.Nests, func_leaveCall, invocation_leaveCall, frames_leaveCall]
  exact h.2.2

theorem nests_commitPhis (h : w.Nests t) (block : BlockId) (source : Option BlockId) :
    (commitPhis t.arena w block source).Nests t := by
  have hkeep : (commitPhis t.arena w block source).Nests t = w.Nests t :=
    @commitPhis_keep Prop (Walk.Nests · t) (fun _ _ _ _ => rfl) t.arena w block source
  rwa [hkeep]

end Explorer

end QueryTaint
