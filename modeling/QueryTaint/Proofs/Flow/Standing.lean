import Mathlib.Data.List.Perm.Subperm
import QueryTaint.Proofs.Flow.Ground

/-!
# The state of lowering a body

While a body is lowered, some blocks have no end yet: the current block, blocks that are kept to go
on in later, and blocks that wait for a label. `Standing` says what holds of all of them, of labels
and of waiting φ operations, and `Ready` that operations may be put at the end of the current block.

A step may not touch what its surroundings have in reserve (`Reserve`). Since every step is looked
at with an arbitrary reserve, what holds of reserved blocks before a step holds after it.
-/

namespace QueryTaint.Lower

/-- What a step of lowering has to leave alone: blocks where lowering goes on later, blocks that
jumps will lead to, blocks that are known to have a predecessor, blocks all predecessors of which are
known, blocks that are known to be dead or not, and the entries of functions. -/
structure Reserve where
  opens : List BlockId := []
  targets : BlockId → Prop := fun _ => False
  fed : BlockId → Prop := fun _ => False
  watched : BlockId → Option (List BlockId) := fun _ => none
  deaths : BlockId → Option Bool := fun _ => none
  entries : FuncId → Option BlockId := fun _ => none

namespace Site

variable (S : Site)

/-- A block of the body that has no end yet and is a predecessor of none. -/
structure Open (a : Arena) (block : BlockId) : Prop where
  holds : S.Holds a block
  goes : ∀ op ∈ (a.block block).ops, op.index < a.ops.size ∧ (a.op op).kind.isTerminator = false
  leaf : ∀ other, S.Owns other → block ∉ (a.block other).preds

/-- A block of the body that may get predecessors. -/
structure Landing (a : Arena) (block : BlockId) : Prop where
  holds : S.Holds a block
  live : (a.block block).dead = false
  bare : (a.block block).phis = []

/-- A φ operation of the body that waits for its operands. -/
structure Waits (a : Arena) (p : PendingPhi) : Prop where
  holds : S.Holds a p.block
  new : S.before.ops.size ≤ p.phi.index
  lt : p.phi.index < a.ops.size
  loose : (a.op p.phi).block = none
  empty : ∃ result, (a.op p.phi).kind = .phi [] result

end Site

/-- What holds while a body is lowered, whatever the current block is. -/
structure Standing (S : Site) (R : Reserve) (b : Builder) : Prop where
  ground : Ground S b.arena
  building : b.scope.complete = false
  opens : ∀ block ∈ R.opens ++ b.scope.gotos.map (·.2), S.Open b.arena block
  distinct : (R.opens ++ b.scope.gotos.map (·.2)).Nodup
  targets : ∀ block, R.targets block → S.Landing b.arena block
  fed : ∀ block, R.fed block → (b.arena.block block).preds ≠ []
  watched : ∀ block preds, R.watched block = some preds →
    block.index < b.arena.blocks.size ∧ (b.arena.block block).preds = preds
  deaths : ∀ block dead, R.deaths block = some dead →
    block.index < b.arena.blocks.size ∧ (b.arena.block block).dead = dead
  entries : ∀ f block, R.entries f = some block →
    f.index < b.arena.funcs.size ∧ (b.arena.func f).entry = block
  labels : ∀ name block, b.scope.labels.get? name = some block →
    S.Landing b.arena block ∧ (b.arena.block block).preds ≠ [] ∧ R.watched block = none
  pending : ∀ p ∈ b.scope.pending, S.Waits b.arena p
  distinctPhis : (b.scope.pending.toList.map (·.phi)).Nodup

/-- Operations may be put at the end of the current block, which is not in reserve. -/
structure Ready (S : Site) (R : Reserve) (b : Builder) : Prop where
  standing : Standing S R b
  here : S.Open b.arena b.block
  free : b.block ∉ R.opens ++ b.scope.gotos.map (·.2)

/-- A step that leaves control flow and what is waiting alone. -/
structure Idle (b b' : Builder) : Prop where
  arena : Calm b.arena b'.arena
  block : b'.block = b.block
  complete : b'.scope.complete = b.scope.complete
  gotos : b'.scope.gotos = b.scope.gotos
  labels : b'.scope.labels = b.scope.labels
  pending : b'.scope.pending = b.scope.pending

variable {S : Site} {R : Reserve} {a a' : Arena} {b b' : Builder}

theorem Idle.refl (b : Builder) : Idle b b := ⟨.refl _, rfl, rfl, rfl, rfl, rfl⟩

theorem Idle.trans {b'' : Builder} (h : Idle b b') (h' : Idle b' b'') : Idle b b'' :=
  ⟨h.arena.trans h'.arena, h'.block.trans h.block, h'.complete.trans h.complete,
    h'.gotos.trans h.gotos, h'.labels.trans h.labels, h'.pending.trans h.pending⟩

theorem Idle.of_arena {a' : Arena} (h : Calm b.arena a') : Idle b { b with arena := a' } :=
  ⟨h, rfl, rfl, rfl, rfl, rfl⟩

/-! ## What a calm change keeps -/

theorem Site.Open.calm {block : BlockId} (h : S.Open a block) (hc : Calm a a') :
    S.Open a' block where
  holds := h.holds.mono hc.blocks.size
  goes op hop := by
    rw [hc.blocks.ops] at hop
    obtain ⟨hlt, hterm⟩ := h.goes op hop
    rw [hc.op op hlt]
    exact ⟨Nat.lt_of_lt_of_le hlt hc.ops, hterm⟩
  leaf other hother := by
    rw [hc.blocks.preds]
    exact h.leaf other hother

theorem Site.Landing.calm {block : BlockId} (h : S.Landing a block) (hc : Calm a a') :
    S.Landing a' block where
  holds := h.holds.mono hc.blocks.size
  live := (hc.blocks.dead block h.holds.2).trans h.live
  bare := (hc.blocks.phis block).trans h.bare

theorem Site.Waits.calm {p : PendingPhi} (h : S.Waits a p) (hc : Calm a a') : S.Waits a' p where
  holds := h.holds.mono hc.blocks.size
  new := h.new
  lt := Nat.lt_of_lt_of_le h.lt hc.ops
  loose := by rw [hc.op _ h.lt]; exact h.loose
  empty := by rw [hc.op _ h.lt]; exact h.empty

theorem Standing.idle (h : Standing S R b) (hi : Idle b b') : Standing S R b' where
  ground := h.ground.calm hi.arena
  building := hi.complete.trans h.building
  opens := by
    rw [hi.gotos]
    exact fun block hblock => (h.opens block hblock).calm hi.arena
  distinct := by
    rw [hi.gotos]
    exact h.distinct
  targets block hblock := (h.targets block hblock).calm hi.arena
  fed block hblock := by
    rw [hi.arena.blocks.preds]
    exact h.fed block hblock
  watched block preds hblock := by
    rw [hi.arena.blocks.preds]
    exact ⟨Nat.lt_of_lt_of_le (h.watched block preds hblock).1 hi.arena.blocks.size,
      (h.watched block preds hblock).2⟩
  deaths block dead hblock := by
    obtain ⟨hlt, hdead⟩ := h.deaths block dead hblock
    exact ⟨Nat.lt_of_lt_of_le hlt hi.arena.blocks.size, (hi.arena.blocks.dead block hlt).trans hdead⟩
  entries f block hf := by
    obtain ⟨hlt, hentry⟩ := h.entries f block hf
    exact ⟨Nat.lt_of_lt_of_le hlt hi.arena.funcs, (hi.arena.entry f hlt).trans hentry⟩
  labels := by
    rw [hi.labels]
    intro name block hname
    obtain ⟨hland, hpreds, hwatched⟩ := h.labels name block hname
    rw [hi.arena.blocks.preds]
    exact ⟨hland.calm hi.arena, hpreds, hwatched⟩
  pending := by
    rw [hi.pending]
    exact fun p hp => (h.pending p hp).calm hi.arena
  distinctPhis := by
    rw [hi.pending]
    exact h.distinctPhis

theorem Ready.idle (h : Ready S R b) (hi : Idle b b') : Ready S R b' where
  standing := h.standing.idle hi
  here := by
    rw [hi.block]
    exact h.here.calm hi.arena
  free := by
    rw [hi.block, hi.gotos]
    exact h.free

/-! ## Placing operations -/

theorem op_append_of_ne {block : BlockId} {op o : OpId} (hne : o ≠ op) :
    (a.append block op).op o = a.op o := by
  rw [Arena.append, Arena.op_modifyOp, if_neg fun hc => hne hc.1.symm, Arena.op_modifyBlock]

theorem blocks_size_append (a : Arena) (block : BlockId) (op : OpId) :
    (a.append block op).blocks.size = a.blocks.size :=
  Arena.size_blocks_modifyBlock ..

theorem ops_size_append (a : Arena) (block : BlockId) (op : OpId) :
    (a.append block op).ops.size = a.ops.size :=
  Arena.size_ops_modifyOp ..

theorem Site.Open.append {block other : BlockId} {op : OpId} (h : S.Open a block)
    (hother : S.Holds a other) (hlt : op.index < a.ops.size)
    (hgoes : other = block → (a.op op).kind.isTerminator = false) :
    S.Open (a.append other op) block where
  holds := h.holds.mono (Nat.le_of_eq (blocks_size_append ..).symm)
  goes o ho := by
    rw [ops_append hother.2] at ho
    rw [ops_size_append, kind_append]
    split at ho
    · rename_i heq
      rcases List.mem_append.1 ho with ho | ho
      · exact h.goes o ho
      · rw [List.mem_singleton.1 ho]
        exact ⟨hlt, hgoes heq.symm⟩
    · exact h.goes o ho
  leaf Y hY := by
    rw [preds_append]
    exact h.leaf Y hY

theorem Site.Landing.append {block other : BlockId} {op : OpId} (h : S.Landing a block) :
    S.Landing (a.append other op) block where
  holds := h.holds.mono (Nat.le_of_eq (blocks_size_append ..).symm)
  live := (Arena.block_append_keep Block.dead (fun _ _ => rfl) other op block).trans h.live
  bare := (Arena.block_append_keep Block.phis (fun _ _ => rfl) other op block).trans h.bare

/-- A new operation is put at the end of a block of the body. One that ends the block is not put
into a block that is in reserve. -/
theorem Standing.append (h : Standing S R b) {block : BlockId} {op : OpId}
    (hblock : S.Holds b.arena block) (hlt : op.index < b.arena.ops.size)
    (hnew : S.before.ops.size ≤ op.index) (hpending : ∀ p ∈ b.scope.pending, p.phi ≠ op)
    (hends : (b.arena.op op).kind.isTerminator = true →
      block ∉ R.opens ++ b.scope.gotos.map (·.2))
    (hshaped : S.strict → (b.arena.append block op).Shaped) :
    Standing S R { b with arena := b.arena.append block op } where
  ground := ⟨h.ground.toFooting.append hblock hnew, hshaped⟩
  building := h.building
  opens other hother := by
    refine (h.opens other hother).append hblock hlt fun heq => ?_
    subst heq
    exact Bool.eq_false_iff.2 fun hterm => hends hterm hother
  distinct := h.distinct
  targets other hother := (h.targets other hother).append
  fed other hother := by
    rw [preds_append]
    exact h.fed other hother
  watched other preds hother := by
    rw [preds_append, blocks_size_append]
    exact h.watched other preds hother
  deaths other dead hother := by
    rw [dead_append, blocks_size_append]
    exact h.deaths other dead hother
  entries := h.entries
  labels name other hname := by
    rw [preds_append]
    obtain ⟨hland, hpreds, hwatched⟩ := h.labels name other hname
    exact ⟨hland.append, hpreds, hwatched⟩
  pending p hp := by
    have hw := h.pending p hp
    refine ⟨hw.holds.mono (Nat.le_of_eq (blocks_size_append ..).symm), hw.new, ?_, ?_, ?_⟩
    · rw [ops_size_append]
      exact hw.lt
    · rw [op_append_of_ne (hpending p hp)]
      exact hw.loose
    · rw [op_append_of_ne (hpending p hp)]
      exact hw.empty
  distinctPhis := h.distinctPhis

/-! ## Recording predecessors -/

/-- The predecessors that are known after one more is recorded. -/
def Reserve.linked (R : Reserve) (source target : BlockId) : Reserve :=
  { R with watched := fun block =>
      if block = target then (R.watched block).map (addNew · source) else R.watched block }

theorem Reserve.linked_of_unwatched {source target : BlockId} (h : R.watched target = none) :
    R.linked source target = R := by
  have hwatched : (R.linked source target).watched = R.watched := by
    funext block
    simp only [linked]
    split
    · rename_i heq
      rw [heq, h]
      rfl
    · rfl
  rw [show R.linked source target = { R with watched := (R.linked source target).watched } from rfl,
    hwatched]

theorem addNew_ne_nil {α : Type} [DecidableEq α] (l : List α) (x : α) : addNew l x ≠ [] := by
  unfold addNew
  split
  · rename_i hmem
    rintro rfl
    cases hmem
  · exact List.append_ne_nil_of_right_ne_nil _ (List.cons_ne_nil x [])

theorem preds_link_ne_nil {source target block : BlockId} (ht : target.index < a.blocks.size)
    (h : (a.block block).preds ≠ []) : ((a.link source target).block block).preds ≠ [] := by
  rw [Arena.preds_link ht]
  split
  · exact addNew_ne_nil _ _
  · exact h

theorem blocks_size_link (a : Arena) (source target : BlockId) :
    (a.link source target).blocks.size = a.blocks.size :=
  Arena.size_blocks_modifyBlock ..

theorem Site.Landing.link {source target block : BlockId} (h : S.Landing a block) :
    S.Landing (a.link source target) block where
  holds := h.holds.mono (Nat.le_of_eq (blocks_size_link ..).symm)
  live := (Arena.block_link_keep Block.dead (fun _ _ => rfl) source target block).trans h.live
  bare := (Arena.block_link_keep Block.phis (fun _ _ => rfl) source target block).trans h.bare

theorem Site.Open.link {source target block : BlockId} (h : S.Open a block)
    (ht : target.index < a.blocks.size) (hne : block ≠ source) :
    S.Open (a.link source target) block where
  holds := h.holds.mono (Nat.le_of_eq (blocks_size_link ..).symm)
  goes op hop := by
    rw [Arena.block_link_keep Block.ops fun _ _ => rfl] at hop
    exact h.goes op hop
  leaf other hother := by
    rw [Arena.preds_link ht]
    split
    · rw [mem_addNew, not_or]
      exact ⟨h.leaf other hother, hne⟩
    · exact h.leaf other hother

/-- A block that is not in reserve becomes a predecessor of one that jumps may lead to. -/
theorem Standing.link (h : Standing S R b) {source target : BlockId}
    (hs : S.Holds b.arena source) (hfree : source ∉ R.opens ++ b.scope.gotos.map (·.2))
    (hgoes : ∀ op ∈ (b.arena.block source).ops, (b.arena.op op).kind.isTerminator = false)
    (ht : S.Landing b.arena target)
    (hfirst : (b.arena.block target).preds = [] →
      target ≠ source ∧ ∀ block, S.Owns block → target ∉ (b.arena.block block).preds) :
    Standing S (R.linked source target) { b with arena := b.arena.link source target } where
  ground := h.ground.link hs ht.holds ht.bare hfirst hgoes
  building := h.building
  opens block hblock := by
    refine (h.opens block hblock).link ht.holds.2 fun heq => ?_
    exact hfree (heq ▸ hblock)
  distinct := h.distinct
  targets block hblock := (h.targets block hblock).link
  fed block hblock := preds_link_ne_nil ht.holds.2 (h.fed block hblock)
  watched block preds hblock := by
    rw [Arena.preds_link ht.holds.2, blocks_size_link]
    simp only [Reserve.linked] at hblock
    split at hblock
    · rename_i heq
      obtain ⟨old, hold, rfl⟩ := Option.map_eq_some_iff.1 hblock
      obtain ⟨hlt, hpreds⟩ := h.watched block old hold
      rw [if_pos heq, hpreds]
      exact ⟨hlt, rfl⟩
    · rename_i hne
      rw [if_neg hne]
      exact h.watched block preds hblock
  deaths block dead hblock := by
    rw [Arena.block_link_keep Block.dead fun _ _ => rfl, blocks_size_link]
    exact h.deaths block dead hblock
  entries := h.entries
  labels name block hname := by
    obtain ⟨hland, hpreds, hwatched⟩ := h.labels name block hname
    refine ⟨hland.link, preds_link_ne_nil ht.holds.2 hpreds, ?_⟩
    simp only [Reserve.linked, hwatched, Option.map_none, ite_self]
  pending p hp := by
    have hw := h.pending p hp
    exact ⟨hw.holds.mono (Nat.le_of_eq (blocks_size_link ..).symm), hw.new, hw.lt, hw.loose,
      hw.empty⟩
  distinctPhis := h.distinctPhis

/-! ## What is in reserve -/

namespace Reserve

/-- A block is kept to go on in it later. -/
def keep (R : Reserve) (block : BlockId) : Reserve := { R with opens := block :: R.opens }

/-- Jumps will lead to a block. -/
def aim (R : Reserve) (block : BlockId) : Reserve :=
  { R with targets := fun other => other = block ∨ R.targets other }

/-- A block is known to have a predecessor. -/
def feed (R : Reserve) (block : BlockId) : Reserve :=
  { R with fed := fun other => other = block ∨ R.fed other }

/-- All predecessors of a block are known. -/
def watch (R : Reserve) (block : BlockId) (preds : List BlockId) : Reserve :=
  { R with watched := fun other => if other = block then some preds else R.watched other }

/-- It is known whether a block is dead. -/
def know (R : Reserve) (block : BlockId) (dead : Bool) : Reserve :=
  { R with deaths := fun other => if other = block then some dead else R.deaths other }

/-- The entry of a function is known. -/
def enter (R : Reserve) (func : FuncId) (block : BlockId) : Reserve :=
  { R with entries := fun f => if f = func then some block else R.entries f }

/-- Less is in reserve. -/
structure Within (R R' : Reserve) : Prop where
  opens : R.opens.Subperm R'.opens
  targets : ∀ block, R.targets block → R'.targets block
  fed : ∀ block, R.fed block → R'.fed block
  watched : ∀ block preds, R.watched block = some preds → R'.watched block = some preds
  deaths : ∀ block dead, R.deaths block = some dead → R'.deaths block = some dead
  entries : ∀ f block, R.entries f = some block → R'.entries f = some block

theorem Within.refl (R : Reserve) : R.Within R :=
  ⟨List.Subperm.refl _, fun _ => id, fun _ => id, fun _ _ => id, fun _ _ => id, fun _ _ => id⟩

theorem Within.trans {R R' R'' : Reserve} (h : R.Within R') (h' : R'.Within R'') : R.Within R'' :=
  ⟨h.opens.trans h'.opens, fun X hX => h'.targets X (h.targets X hX),
    fun X hX => h'.fed X (h.fed X hX), fun X ps hX => h'.watched X ps (h.watched X ps hX),
    fun X d hX => h'.deaths X d (h.deaths X d hX), fun f X hX => h'.entries f X (h.entries f X hX)⟩

theorem within_keep (R : Reserve) (block : BlockId) : R.Within (R.keep block) :=
  { Within.refl R with opens := (List.sublist_cons_self ..).subperm }

theorem within_aim (R : Reserve) (block : BlockId) : R.Within (R.aim block) :=
  { Within.refl R with targets := fun _ => .inr }

theorem within_feed (R : Reserve) (block : BlockId) : R.Within (R.feed block) :=
  { Within.refl R with fed := fun _ => .inr }

theorem within_watch {block : BlockId} (h : R.watched block = none) (preds : List BlockId) :
    R.Within (R.watch block preds) :=
  { Within.refl R with
    watched := fun other ps hother => by
      have hne : other ≠ block := by
        rintro rfl
        rw [h] at hother
        cases hother
      simp only [watch, if_neg hne]
      exact hother }

theorem within_enter {func : FuncId} (h : R.entries func = none) (block : BlockId) :
    R.Within (R.enter func block) :=
  { Within.refl R with
    entries := fun f X hf => by
      have hne : f ≠ func := by
        rintro rfl
        rw [h] at hf
        cases hf
      simp only [enter, if_neg hne]
      exact hf }

end Reserve

theorem Standing.within {R' : Reserve} (h : Standing S R' b) (hR : R.Within R') :
    Standing S R b := by
  have hsub : (R.opens ++ b.scope.gotos.map (·.2)).Subperm
      (R'.opens ++ b.scope.gotos.map (·.2)) :=
    (List.subperm_append_right _).2 hR.opens
  exact {
    ground := h.ground
    building := h.building
    opens := fun block hblock => h.opens block (hsub.subset hblock)
    distinct := by
      obtain ⟨l, hperm, hl⟩ := hsub
      exact hperm.nodup_iff.1 (hl.nodup h.distinct)
    targets := fun block hblock => h.targets block (hR.targets block hblock)
    fed := fun block hblock => h.fed block (hR.fed block hblock)
    watched := fun block preds hblock => h.watched block preds (hR.watched block preds hblock)
    deaths := fun block dead hblock => h.deaths block dead (hR.deaths block dead hblock)
    entries := fun f block hf => h.entries f block (hR.entries f block hf)
    labels := fun name block hname => by
      obtain ⟨hland, hpreds, hwatched⟩ := h.labels name block hname
      refine ⟨hland, hpreds, Option.eq_none_iff_forall_ne_some.2 fun preds hsome => ?_⟩
      rw [hR.watched block preds hsome] at hwatched
      cases hwatched
    pending := h.pending
    distinctPhis := h.distinctPhis }

theorem Ready.within {R' : Reserve} (h : Ready S R' b) (hR : R.Within R') : Ready S R b := by
  refine ⟨h.standing.within hR, h.here, fun hmem => h.free ?_⟩
  exact (List.mem_append.1 hmem).elim (fun hm => List.mem_append_left _ (hR.opens.subset hm))
    (List.mem_append_right _)

/-- The current block may be kept to come back to it. -/
theorem Ready.keep (h : Ready S R b) : Standing S (R.keep b.block) b :=
  { h.standing with
    opens := fun block hblock => by
      rcases List.mem_cons.1 hblock with rfl | hblock
      · exact h.here
      · exact h.standing.opens block hblock
    distinct := List.nodup_cons.2 ⟨h.free, h.standing.distinct⟩ }

/-- What holds does not depend on the current block. -/
theorem Standing.anywhere (h : Standing S R b) (block : BlockId) : Standing S R { b with block } :=
  { h with }

/-- Lowering goes on in a block that was kept. -/
theorem Standing.goTo {block : BlockId} (h : Standing S (R.keep block) b) :
    Ready S R { b with block } where
  standing := (h.within (R.within_keep block)).anywhere block
  here := h.opens block List.mem_cons_self
  free := (List.nodup_cons.1 h.distinct).1

end QueryTaint.Lower
