import Mathlib.Data.Finset.Card
import Mathlib.Data.Nat.Find
import Mathlib.Order.WellFounded
import QueryTaint.Proofs.Lower.Variable
import QueryTaint.Proofs.Relabel.Build
import QueryTaint.Proofs.Rename.Refill

/-!
# Reading variables in different arenas
-/

namespace QueryTaint.Lower

variable {g : Graft} {n : Nat}

/-- The result and the operation of a φ with new numbers. -/
def relabelPhi (g : Graft) (made : OperandId × OpId) : OperandId × OpId :=
  (g.operand made.1, g.op made.2)

theorem newPhi_mirrors (name : String) : Mirrors g n (relabelPhi g) (newPhi name) (newPhi name) :=
  .bind (newVariable_mirrors name) fun var => .bind (newVersion_mirrors var) fun _ =>
    .bind (detached_mirrors _ rfl .none) fun _ => .pure rfl

theorem bindIn_mirrors (block : BlockId) (name : String) (value : OperandId) :
    Mirrors g n id (bindIn block name value) (bindIn (g.block block) name (g.operand value)) :=
  changeScope_mirrors fun _ _ hs => hs.bind block name value

theorem wait_mirrors (p : PendingPhi) :
    Mirrors g n id (changeScope fun s => { s with pending := s.pending.push p })
      (changeScope fun s => { s with pending := s.pending.push (p.relabel g.toRelabel) }) :=
  changeScope_mirrors fun _ _ hs => { hs with pending := by rw [hs.pending, Array.map_push] }

theorem readInput_mirrors (tag : String) (block : BlockId) :
    Mirrors g n g.operand (readInput tag block) (readInput tag (g.block block)) :=
  .bind (changeFunc_mirrors fun _ => rfl) fun _ => .bind (modifyBlock_mirrors block fun _ => rfl)
    fun _ => .bind (newOperand_mirrors (.symbolic tag) rfl) fun input =>
    .bind (modifyOperand_mirrors input fun _ => rfl) fun _ => .pure rfl

theorem addPhiOperand_mirrors (phi : OpId) (x : OperandId) :
    Mirrors g n id (change (·.addPhiOperand phi x))
      (change (·.addPhiOperand (g.op phi) (g.operand x))) :=
  change_mirrors (fun a => .addPhiOperand a phi x) fun _ _ h => h.addPhiOperand phi x

theorem addIncoming_mirrors (phi : OpId) {read read' : BlockId → Build OperandId}
    {preds : List BlockId}
    (hread : ∀ pred ∈ preds, Mirrors g n g.operand (read pred) (read' (g.block pred))) :
    Mirrors g n id (addIncoming phi read preds)
      (addIncoming (g.op phi) read' (preds.map g.block)) := by
  induction preds with
  | nil => exact .pure rfl
  | cons pred rest ih =>
    exact .bind (hread pred List.mem_cons_self) fun x => .bind (addPhiOperand_mirrors phi x) fun _ =>
      ih fun pred hpred => hread pred (List.mem_cons_of_mem _ hpred)

/-! ## Steps of a search -/

/-- What a search does in a block whose predecessors are not all known yet. -/
def readLater (name : String) (block : BlockId) : Build OperandId := do
  let (value, phi) ← newPhi name
  changeScope fun s => { s with pending := s.pending.push ⟨block, name, phi⟩ }
  bindIn block name value
  return value

/-- A block that joins the versions of others gets a φ. -/
def openJoin (name : String) (block : BlockId) : Build (OperandId × OpId) := do
  let made ← newPhi name
  change (·.attachPhi block made.2)
  bindIn block name made.1
  return made

/-- What a search does in a block that joins the versions of others. -/
def readJoin (name : String) (block : BlockId) (read : BlockId → Build OperandId)
    (live : List BlockId) : Build OperandId := do
  let made ← openJoin name block
  addIncoming made.2 read live
  return made.1

/-- The only predecessor of a block that has one. -/
def onlyPred (a : Arena) (block : BlockId) : BlockId := (a.block block).preds.headD block

theorem readWithin_zero (name : String) (block : BlockId) :
    readWithin name 0 block = do return (← newPhi name).1 := rfl

theorem readWithin_of_bound {name : String} {block : BlockId} {b : Builder} {x : OperandId}
    (h : b.scope.lookup block name = some x) (steps : Nat) :
    (readWithin name (steps + 1) block).run b = (x, b) := by
  rw [readWithin, run_get_bind, h]
  rfl

section Unbound

variable {name : String} {block : BlockId} {b : Builder}

theorem readWithin_of_input (h : b.scope.lookup block name = none) {tag : String}
    (htag : inputTag? name = some tag) (steps : Nat) :
    (readWithin name (steps + 1) block).run b = (readInput tag block).run b := by
  rw [readWithin, run_get_bind, h, htag]

theorem readWithin_of_incomplete (h : b.scope.lookup block name = none)
    (htag : inputTag? name = none) (hcomplete : b.scope.complete = false) (steps : Nat) :
    (readWithin name (steps + 1) block).run b = (readLater name block).run b := by
  rw [readWithin, run_get_bind, h, htag]
  dsimp only
  rw [run_get_bind, hcomplete]
  rfl

theorem readWithin_of_passes (h : b.scope.lookup block name = none)
    (htag : inputTag? name = none) (hcomplete : b.scope.complete = true)
    (hpasses : passes b.arena block = true) (steps : Nat) :
    (readWithin name (steps + 1) block).run b =
      let r := (readWithin name steps (onlyPred b.arena block)).run b
      (r.1, { r.2 with scope := r.2.scope.bind block name r.1 }) := by
  rw [readWithin, run_get_bind, h, htag]
  dsimp only
  rw [run_get_bind, if_pos hcomplete]
  change (if passes b.arena block = true then _ else _ : Build OperandId).run b = _
  rw [if_pos hpasses]
  rfl

theorem readWithin_of_joins (h : b.scope.lookup block name = none)
    (htag : inputTag? name = none) (hcomplete : b.scope.complete = true)
    (hpasses : passes b.arena block = false) (steps : Nat) :
    (readWithin name (steps + 1) block).run b =
      (readJoin name block (readWithin name steps) (b.arena.livePreds block)).run b := by
  rw [readWithin, run_get_bind, h, htag]
  dsimp only
  rw [run_get_bind, if_pos hcomplete]
  change (if passes b.arena block = true then _ else _ : Build OperandId).run b = _
  rw [if_neg (Bool.not_eq_true _ ▸ hpasses)]
  rfl

end Unbound

/-! ## What a search keeps -/

/-- How many blocks have no version of a variable. -/
def unbound (name : String) (b : Builder) : Nat :=
  ((Finset.range b.arena.blocks.size).filter fun i => b.scope.lookup ⟨i⟩ name = none).card

/-- A body is complete, and not too many of its blocks have no version of a variable. -/
structure Searchable (name : String) (size count : Nat) (b : Builder) : Prop where
  complete : b.scope.complete = true
  size : b.arena.blocks.size = size
  unbound : unbound name b ≤ count

namespace Searchable

variable {name : String} {size count : Nat} {b b' : Builder}

theorem congr (h : Searchable name size count b) (hscope : b'.scope = b.scope)
    (hsize : b'.arena.blocks.size = b.arena.blocks.size) : Searchable name size count b' where
  complete := hscope ▸ h.complete
  size := hsize.trans h.size
  unbound := by
    rw [Lower.unbound, hscope, hsize]
    exact h.unbound

theorem unbound_bind_subset (b : Builder) (block : BlockId) (name : String) (value : OperandId) :
    ((Finset.range b.arena.blocks.size).filter fun i =>
        (b.scope.bind block name value).lookup ⟨i⟩ name = none) ⊆
      (Finset.range b.arena.blocks.size).filter fun i => b.scope.lookup ⟨i⟩ name = none := by
  refine Finset.monotone_filter_right _ fun i _ hnone => ?_
  by_contra hsome
  exact Scope.lookup_bind_ne_none hsome hnone

theorem bind (h : Searchable name size count b) (block : BlockId) (value : OperandId) :
    Searchable name size count { b with scope := b.scope.bind block name value } :=
  ⟨h.complete, h.size, Nat.le_trans (Finset.card_le_card (unbound_bind_subset ..)) h.unbound⟩

/-- A block without a version gets one. -/
theorem bind_new (h : Searchable name size (count + 1) b) {block : BlockId}
    (hnone : b.scope.lookup block name = none) (hlt : block.index < size) (value : OperandId) :
    Searchable name size count { b with scope := b.scope.bind block name value } := by
  refine ⟨h.complete, h.size, Nat.lt_succ_iff.1 (Nat.lt_of_lt_of_le ?_ h.unbound)⟩
  refine Finset.card_lt_card ⟨unbound_bind_subset .., fun hsub => ?_⟩
  have hmem := hsub (Finset.mem_filter.2 ⟨Finset.mem_range.2 (h.size ▸ hlt), hnone⟩)
  have hbound := (Finset.mem_filter.1 hmem).2
  rw [Scope.lookup_bind, if_pos ⟨rfl, rfl⟩] at hbound
  cases hbound

/-- A block without a version is one of those that are counted. -/
theorem exists_succ (h : Searchable name size count b) {block : BlockId}
    (hnone : b.scope.lookup block name = none) (hlt : block.index < size) :
    ∃ m, count = m + 1 := by
  refine Nat.exists_eq_succ_of_ne_zero fun hzero => ?_
  have hempty := Finset.card_eq_zero.1 (Nat.le_zero.1 (hzero ▸ h.unbound))
  have hmem : block.index ∈ (Finset.range b.arena.blocks.size).filter fun i =>
      b.scope.lookup ⟨i⟩ name = none :=
    Finset.mem_filter.2 ⟨Finset.mem_range.2 (h.size ▸ hlt), hnone⟩
  rw [hempty] at hmem
  cases hmem

theorem addPhiOperand (h : Searchable name size count b) (phi : OpId) (x : OperandId) :
    Searchable name size count { b with arena := b.arena.addPhiOperand phi x } := by
  refine h.congr rfl ?_
  dsimp only
  unfold Arena.addPhiOperand
  split <;> rfl

theorem attachPhi (h : Searchable name size count b) (block : BlockId) (phi : OpId) :
    Searchable name size count { b with arena := b.arena.attachPhi block phi } :=
  h.congr rfl (Arena.size_blocks_modifyBlock ..)

theorem newPhi (h : Searchable name size count b) :
    Gives (newPhi name) b fun _ b' => Searchable name size count b' := h.congr rfl rfl

theorem openJoin (h : Searchable name size count b) (block : BlockId) :
    Gives (openJoin name block) b fun _ b' => Searchable name size count b' :=
  Gives.bind h.newPhi fun made _ h₁ =>
    Gives.bind (P := fun _ b₂ => Searchable name size count b₂) (h₁.attachPhi block made.2)
      fun _ _ h₂ => Gives.bind (P := fun _ b₃ => Searchable name size count b₃)
        (h₂.bind block made.1) fun _ _ h₃ => h₃

/-- A block without a version gets one. -/
theorem openJoin_new (h : Searchable name size (count + 1) b) {block : BlockId}
    (hnone : b.scope.lookup block name = none) (hlt : block.index < size) :
    Gives (Lower.openJoin name block) b fun _ b' => Searchable name size count b' :=
  (h.bind_new hnone hlt _).congr rfl (Arena.size_blocks_modifyBlock ..)

theorem addIncoming {read : BlockId → Build OperandId} {preds : List BlockId}
    (hread : ∀ pred b, Searchable name size count b →
      Gives (read pred) b fun _ b' => Searchable name size count b')
    (h : Searchable name size count b) (phi : OpId) :
    Gives (addIncoming phi read preds) b fun _ b' => Searchable name size count b' := by
  induction preds generalizing b with
  | nil => exact h
  | cons pred rest ih =>
    refine Gives.bind (hread pred b h) fun x b₁ h₁ => ?_
    exact Gives.bind (P := fun _ b₂ => Searchable name size count b₂) (h₁.addPhiOperand phi x)
      fun _ b₂ h₂ => ih h₂

theorem readWithin (h : Searchable name size count b) (steps : Nat) (block : BlockId) :
    Gives (readWithin name steps block) b fun _ b' => Searchable name size count b' := by
  induction steps generalizing b block with
  | zero => exact h.newPhi
  | succ steps ih =>
    unfold Gives
    cases hlookup : b.scope.lookup block name with
    | some x =>
      rw [readWithin_of_bound hlookup]
      exact h
    | none =>
      cases htag : inputTag? name with
      | some tag =>
        rw [readWithin_of_input hlookup htag]
        exact h.congr rfl (Arena.size_blocks_modifyBlock ..)
      | none =>
        cases hpasses : passes b.arena block with
        | true =>
          rw [readWithin_of_passes hlookup htag h.complete hpasses]
          exact Searchable.bind (ih h (onlyPred b.arena block)) block _
        | false =>
          rw [readWithin_of_joins hlookup htag h.complete hpasses]
          change Gives (readJoin name block (Lower.readWithin name steps) (b.arena.livePreds block)) b
            fun _ b' => Searchable name size count b'
          exact Gives.bind (h.openJoin block) fun made b₁ h₁ => Gives.bind
            (h₁.addIncoming (fun pred b hb => ih hb pred) made.2) fun _ b₂ h₂ => h₂

end Searchable

/-! ## Ways through single predecessors -/

/-- The blocks on the way from a block through single predecessors. -/
def way (a : Arena) : Nat → BlockId → List BlockId
  | 0, _ => []
  | steps + 1, block => block :: way a steps (onlyPred a block)

theorem mem_way {a : Arena} {steps : Nat} {block other : BlockId} :
    other ∈ way a steps block ↔ ∃ i < steps, (onlyPred a)^[i] block = other := by
  induction steps generalizing block with
  | zero => simp [way]
  | succ steps ih =>
    rw [way, List.mem_cons, ih]
    constructor
    · rintro (rfl | ⟨i, hi, rfl⟩)
      · exact ⟨0, Nat.succ_pos _, rfl⟩
      · exact ⟨i + 1, Nat.succ_lt_succ hi, rfl⟩
    · rintro ⟨_ | i, hi, rfl⟩
      · exact .inl rfl
      · exact .inr ⟨i, Nat.lt_of_succ_lt_succ hi, rfl⟩

/-- A search goes on from a block in its only predecessor. -/
structure Continues (name : String) (b : Builder) (block : BlockId) : Prop where
  unbound : b.scope.lookup block name = none
  passes : passes b.arena block = true

theorem Continues.lt {name : String} {b : Builder} {block : BlockId} (h : Continues name b block) :
    block.index < b.arena.blocks.size := by
  by_contra hge
  have hone := of_decide_eq_true (Bool.and_eq_true_iff.1 h.passes).1
  rw [Arena.block, Array.getD_eq_getD_getElem?, Array.getElem?_eq_none (Nat.not_lt.1 hge)] at hone
  cases hone

/-- Binds a variable in several blocks. -/
def bindAll (s : Scope) (name : String) (value : OperandId) (blocks : List BlockId) : Scope :=
  blocks.foldr (fun block s => s.bind block name value) s

theorem bindAll_eq (s : Scope) (name : String) (value : OperandId) (blocks : List BlockId) :
    ∃ versions, bindAll s name value blocks = { s with versions } := by
  induction blocks with
  | nil => exact ⟨s.versions, rfl⟩
  | cons block blocks ih =>
    obtain ⟨versions, heq⟩ := ih
    exact ⟨_, by rw [bindAll, List.foldr_cons, show blocks.foldr _ s = _ from heq, Scope.bind]⟩

theorem lookup_bindAll (s : Scope) (name : String) (value : OperandId) (blocks : List BlockId)
    (block : BlockId) (n : String) : (bindAll s name value blocks).lookup block n =
      if block ∈ blocks ∧ n = name then some value else s.lookup block n := by
  induction blocks with
  | nil => simp [bindAll]
  | cons other blocks ih =>
    rw [bindAll, List.foldr_cons, Scope.lookup_bind]
    rw [bindAll] at ih
    rw [ih]
    by_cases h : block = other <;> by_cases hn : n = name <;> simp [h, hn]

theorem readWithin_of_way {name : String} {b : Builder} (htag : inputTag? name = none)
    (hcomplete : b.scope.complete = true) {k : Nat} {block : BlockId}
    (h : ∀ i < k, Continues name b ((onlyPred b.arena)^[i] block)) (steps : Nat) :
    (readWithin name (steps + k) block).run b =
      let r := (readWithin name steps ((onlyPred b.arena)^[k] block)).run b
      (r.1, { r.2 with scope := bindAll r.2.scope name r.1 (way b.arena k block) }) := by
  induction k generalizing block with
  | zero => rfl
  | succ k ih =>
    have hhere : Continues name b block := h 0 (Nat.succ_pos k)
    rw [← Nat.add_assoc, readWithin_of_passes hhere.unbound htag hcomplete hhere.passes,
      ih fun i hi => h (i + 1) (Nat.succ_lt_succ hi)]
    rfl

/-- A way that is longer than there are blocks goes on forever, and comes to no further blocks. -/
theorem way_periodic {name : String} {b : Builder} {block : BlockId}
    (h : ∀ i ≤ b.arena.blocks.size, Continues name b ((onlyPred b.arena)^[i] block)) (k : Nat) :
    ∃ i ≤ b.arena.blocks.size, (onlyPred b.arena)^[k] block = (onlyPred b.arena)^[i] block := by
  -- two of the first blocks are the same
  obtain ⟨i, hi, j, hj, hne, heq⟩ := Finset.exists_ne_map_eq_of_card_lt_of_maps_to
    (s := Finset.range (b.arena.blocks.size + 1)) (t := Finset.range b.arena.blocks.size)
    (f := fun i => ((onlyPred b.arena)^[i] block).index) (by simp)
    (fun i hi => Finset.mem_coe.2 (Finset.mem_range.2
      (h i (Nat.lt_succ_iff.1 (Finset.mem_range.1 hi))).lt))
  wlog hij : i < j generalizing i j
  · exact this j hj i hi hne.symm heq.symm (by omega)
  have hblock : (onlyPred b.arena)^[i] block = (onlyPred b.arena)^[j] block := BlockId.ext_iff'.1 heq
  induction k using Nat.strong_induction_on with
  | _ k ih =>
    rcases Nat.lt_or_ge k j with hk | hk
    · exact ⟨k, by have := Finset.mem_range.1 hj; omega, rfl⟩
    · obtain ⟨m, hm, hsame⟩ := ih (k - j + i) (by omega)
      refine ⟨m, hm, ?_⟩
      rw [← hsame, Function.iterate_add_apply, hblock, ← Function.iterate_add_apply,
        Nat.sub_add_cancel hk]

/-- A search that does not go on forever comes to an end after at most as many blocks as there are. -/
theorem first_stop {name : String} {b : Builder} {block : BlockId}
    (h : ¬∀ k, Continues name b ((onlyPred b.arena)^[k] block)) :
    ∃ k ≤ b.arena.blocks.size, (∀ i < k, Continues name b ((onlyPred b.arena)^[i] block)) ∧
      ¬Continues name b ((onlyPred b.arena)^[k] block) := by
  classical
  have hex := not_forall.1 h
  refine ⟨Nat.find hex, ?_, fun i hi => not_not.1 (Nat.find_min hex hi), Nat.find_spec hex⟩
  by_contra hgt
  have hgoes : ∀ i ≤ b.arena.blocks.size, Continues name b ((onlyPred b.arena)^[i] block) :=
    fun i hi => not_not.1 (Nat.find_min hex (by omega))
  obtain ⟨i, hi, heq⟩ := way_periodic hgoes (Nat.find hex)
  exact Nat.find_spec hex (heq ▸ hgoes i hi)

/-! ## Searches in different arenas -/

theorem passes_embeds {a a' : Arena} (h : Arena.Embeds g a a') (block : BlockId) :
    passes a' (g.block block) = passes a block := by
  rw [passes, passes, h.livePreds, h.block, Block.relabel, List.length_map, List.length_map]

theorem onlyPred_embeds {a a' : Arena} (h : Arena.Embeds g a a') (block : BlockId) :
    onlyPred a' (g.block block) = g.block (onlyPred a block) := by
  rw [onlyPred, onlyPred, h.block, Block.relabel]
  cases (a.block block).preds <;> rfl

theorem iterate_onlyPred_embeds {a a' : Arena} (h : Arena.Embeds g a a') (k : Nat)
    (block : BlockId) : (onlyPred a')^[k] (g.block block) = g.block ((onlyPred a)^[k] block) := by
  induction k generalizing block with
  | zero => rfl
  | succ k ih =>
    rw [Function.iterate_succ_apply, Function.iterate_succ_apply, onlyPred_embeds h]
    exact ih _

theorem way_embeds {a a' : Arena} (h : Arena.Embeds g a a') (k : Nat) (block : BlockId) :
    way a' k (g.block block) = (way a k block).map g.block := by
  induction k generalizing block with
  | zero => rfl
  | succ k ih =>
    rw [way, way, onlyPred_embeds h, ih]
    rfl

theorem Continues.twin {name : String} {b b' : Builder} (hb : b.Twin g b') {block : BlockId}
    (h : Continues name b block) : Continues name b' (g.block block) where
  unbound := by rw [hb.scope.lookup, h.unbound]; rfl
  passes := by rw [passes_embeds hb.arena, h.passes]

theorem bindAll_twin {ρ : Relabel} {s s' : Scope} (h : s.Twin ρ s') (name : String)
    (value : OperandId) (blocks : List BlockId) :
    (bindAll s name value blocks).Twin ρ (bindAll s' name (ρ.operand value) (blocks.map ρ.block)) := by
  induction blocks with
  | nil => exact h
  | cons block blocks ih => exact ih.bind block name value

/-- Which blocks a variable is bound in matters, but not how often. -/
theorem bindAll_congr {ρ : Relabel} {s s' : Scope} {name : String} {value : OperandId}
    {blocks blocks' : List BlockId} (hmem : ∀ block, block ∈ blocks ↔ block ∈ blocks')
    (h : (bindAll s name value blocks).Twin ρ s') : (bindAll s name value blocks').Twin ρ s' := by
  obtain ⟨versions, heq⟩ := bindAll_eq s name value blocks
  obtain ⟨versions', heq'⟩ := bindAll_eq s name value blocks'
  have hlookup : ∀ block n, (bindAll s name value blocks').lookup block n =
      (bindAll s name value blocks).lookup block n := fun block n => by
    simp only [lookup_bindAll, hmem]
  constructor
  case lookup => exact fun block n => by rw [hlookup, h.lookup]
  case within => exact h.within
  all_goals
    rw [heq']
    rw [heq] at h
  exacts [h.complete, h.labels, h.pending, h.gotos, h.conditions]

/-- Two searches do the same in builders that are twins. -/
def Alike (g : Graft) (b b' : Builder) (m m' : Build OperandId) : Prop :=
  (m.run b).2.arena.Below g.limit →
    (m'.run b').1 = g.operand (m.run b).1 ∧ (m.run b).2.Twin g (m'.run b').2

theorem Mirrors.alike {m m' : Build OperandId} (h : Mirrors g 0 g.operand m m') {b b' : Builder}
    (hb : b.Twin g b') : Alike g b b' m m' := h.twin hb (Nat.zero_le _)

theorem openJoin_mirrors (name : String) (block : BlockId) :
    Mirrors g n (relabelPhi g) (openJoin name block) (openJoin name (g.block block)) :=
  .bind (newPhi_mirrors name) fun made => .bind (attachPhi_mirrors block made.2) fun _ =>
    .bind (bindIn_mirrors block name made.1) fun _ => .pure rfl

theorem readLater_mirrors (name : String) (block : BlockId) :
    Mirrors g n g.operand (readLater name block) (readLater name (g.block block)) :=
  .bind (newPhi_mirrors name) fun made => .bind (wait_mirrors ⟨block, name, made.2⟩) fun _ =>
    .bind (bindIn_mirrors block name made.1) fun _ => .pure rfl

theorem addIncoming_widens {phi : OpId} {read : BlockId → Build OperandId}
    (hread : ∀ pred, Widens (read pred)) (preds : List BlockId) :
    Widens (addIncoming phi read preds) := by
  induction preds with
  | nil => exact .pure ()
  | cons pred rest ih =>
    exact (hread pred).bind fun x => Widens.bind (fun b => .addPhiOperand b.arena phi x) fun _ => ih

theorem readWithin_widens (g : Graft) (name : String) (steps : Nat) (block : BlockId) :
    Widens (readWithin name steps block) := by
  induction steps generalizing block with
  | zero => exact (newPhi_mirrors (g := g) (n := 0) name).widens.bind fun _ => .pure _
  | succ steps ih =>
    intro b
    cases hlookup : b.scope.lookup block name with
    | some x =>
      rw [readWithin_of_bound hlookup]
      exact .refl b.arena
    | none =>
      cases htag : inputTag? name with
      | some tag =>
        rw [readWithin_of_input hlookup htag]
        exact (readInput_mirrors (g := g) (n := 0) tag block).widens b
      | none =>
        cases hcomplete : b.scope.complete with
        | false =>
          rw [readWithin_of_incomplete hlookup htag hcomplete]
          exact (readLater_mirrors (g := g) (n := 0) name block).widens b
        | true =>
          cases hpasses : passes b.arena block with
          | true =>
            rw [readWithin_of_passes hlookup htag hcomplete hpasses]
            exact ih (onlyPred b.arena block) b
          | false =>
            rw [readWithin_of_joins hlookup htag hcomplete hpasses]
            exact (openJoin_mirrors (g := g) (n := 0) name block).widens.bind
              (fun made => (addIncoming_widens ih _).bind fun _ => .pure made.1) b

theorem addIncoming_twin {name : String} {size count : Nat} {phi : OpId}
    {read read' : BlockId → Build OperandId} (hwidens : ∀ pred, Widens (read pred))
    (hkeeps : ∀ pred b, Searchable name size count b →
      Gives (read pred) b fun _ b' => Searchable name size count b')
    (hread : ∀ pred b b', b.Twin g b' → Searchable name size count b →
      Alike g b b' (read pred) (read' (g.block pred))) {b b' : Builder} (hb : b.Twin g b')
    (h : Searchable name size count b) {preds : List BlockId}
    (hlimit : ((addIncoming phi read preds).run b).2.arena.Below g.limit) :
    ((addIncoming phi read preds).run b).2.Twin g
      ((addIncoming (g.op phi) read' (preds.map g.block)).run b').2 := by
  induction preds generalizing b b' with
  | nil => exact hb
  | cons pred rest ih =>
    let b₁ := ((read pred).run b).2
    let x := ((read pred).run b).1
    let b₂ : Builder := { b₁ with arena := b₁.arena.addPhiOperand phi x }
    have hrest : ((addIncoming phi read (pred :: rest)).run b) =
        (addIncoming phi read rest).run b₂ := rfl
    rw [hrest] at hlimit ⊢
    have hwidens₂ : b₂.arena.Below ((addIncoming phi read rest).run b₂).2.arena :=
      addIncoming_widens hwidens rest b₂
    have hlimit₁ : b₁.arena.Below g.limit :=
      ((Arena.Below.addPhiOperand b₁.arena phi x).trans hwidens₂).trans hlimit
    obtain ⟨hx, htwin⟩ := hread pred b b' hb h hlimit₁
    have h₁ : Searchable name size count b₁ := hkeeps pred b h
    have hb₂ := ((addPhiOperand_mirrors (n := 0) phi x).twin htwin (Nat.zero_le _)
      (hwidens₂.trans hlimit)).2
    rw [← hx] at hb₂
    exact ih hb₂ (h₁.addPhiOperand phi x) hlimit

theorem readJoin_alike {name : String} {size count : Nat}
    {read read' : BlockId → Build OperandId} (hwidens : ∀ pred, Widens (read pred))
    (hkeeps : ∀ pred b, Searchable name size count b →
      Gives (read pred) b fun _ b' => Searchable name size count b')
    (hread : ∀ pred b b', b.Twin g b' → Searchable name size count b →
      Alike g b b' (read pred) (read' (g.block pred))) {b b' : Builder} (hb : b.Twin g b')
    {block : BlockId} (h : Gives (openJoin name block) b fun _ b' => Searchable name size count b')
    (live : List BlockId) : Alike g b b' (readJoin name block read live)
      (readJoin name (g.block block) read' (live.map g.block)) := by
  intro hlimit
  let made := ((openJoin name block).run b).1
  let b₁ := ((openJoin name block).run b).2
  have hrest : (readJoin name block read live).run b =
      (made.1, ((addIncoming made.2 read live).run b₁).2) := rfl
  rw [hrest] at hlimit ⊢
  obtain ⟨hmade, hb₁⟩ := (openJoin_mirrors (n := 0) name block).twin hb (Nat.zero_le _)
    ((addIncoming_widens hwidens live b₁).trans hlimit)
  have htwin := addIncoming_twin hwidens hkeeps hread hb₁ h hlimit
  let made' := ((openJoin name (g.block block)).run b').1
  have hrest' : (readJoin name (g.block block) read' (live.map g.block)).run b' =
    (made'.1, ((addIncoming made'.2 read' (live.map g.block)).run
      ((openJoin name (g.block block)).run b').2).2) := rfl
  rw [hrest', show made' = _ from hmade]
  exact ⟨rfl, htwin⟩

/-- A search that would never end makes a φ when its steps are used up, and binds the blocks on its
way to it. -/
theorem readWithin_alike_of_forever {name : String} {b b' : Builder} (hb : b.Twin g b')
    (htag : inputTag? name = none) (hcomplete : b.scope.complete = true) {block : BlockId}
    (hforever : ∀ k, Continues name b ((onlyPred b.arena)^[k] block)) {steps steps' : Nat}
    (hsteps : b.arena.blocks.size < steps) (hsteps' : b.arena.blocks.size < steps') :
    Alike g b b' (readWithin name steps block) (readWithin name steps' (g.block block)) := by
  have hrun := readWithin_of_way htag hcomplete (k := steps) (fun i _ => hforever i) 0
  have hrun' := readWithin_of_way htag (hb.scope.complete.trans hcomplete) (k := steps')
    (fun i _ => iterate_onlyPred_embeds hb.arena i block ▸ (hforever i).twin hb) 0
  rw [Nat.zero_add] at hrun hrun'
  have hstop (block : BlockId) : Mirrors g 0 g.operand (readWithin name 0 block)
      (readWithin name 0 (g.block block)) :=
    .bind (newPhi_mirrors name) fun _ => .pure rfl
  intro hlimit
  rw [hrun] at hlimit ⊢
  rw [hrun', iterate_onlyPred_embeds hb.arena, way_embeds hb.arena]
  obtain ⟨hx, htwin⟩ := (hstop _).twin hb (Nat.zero_le _) hlimit
  rw [readWithin_zero name (g.block ((onlyPred b.arena)^[steps'] block)),
    ← readWithin_zero name (g.block ((onlyPred b.arena)^[steps] block))]
  refine ⟨hx, { htwin with scope := ?_ }⟩
  dsimp only
  rw [hx]
  refine bindAll_congr (fun other => ?_) (bindAll_twin htwin.scope name _ _)
  -- both ways come to all blocks that there are on the way
  rw [mem_way, mem_way]
  constructor
  all_goals
    rintro ⟨k, -, rfl⟩
    obtain ⟨i, hi, heq⟩ := way_periodic (fun i _ => hforever i) k
    exact ⟨i, by omega, heq.symm⟩

/-- Searches do the same at a block where they end or join versions, if they do so at others when
one more block is bound. -/
theorem readWithin_alike_of_stop {name : String} (htag : inputTag? name = none) {size count : Nat}
    {b b' : Builder} (hb : b.Twin g b') (h : Searchable name size count b) {block : BlockId}
    (hstops : ¬Continues name b block) {steps steps' : Nat}
    (hread : ∀ m, count = m + 1 → ∀ pred b b', b.Twin g b' → Searchable name size m b →
      Alike g b b' (readWithin name steps pred) (readWithin name steps' (g.block pred))) :
    Alike g b b' (readWithin name (steps + 1) block) (readWithin name (steps' + 1) (g.block block)) := by
  unfold Alike
  cases hlookup : b.scope.lookup block name with
  | some x =>
    have hlookup' : b'.scope.lookup (g.block block) name = some (g.operand x) := by
      rw [hb.scope.lookup, hlookup]
      rfl
    rw [readWithin_of_bound hlookup, readWithin_of_bound hlookup']
    exact fun _ => ⟨rfl, hb⟩
  | none =>
    have hlookup' : b'.scope.lookup (g.block block) name = none := by
      rw [hb.scope.lookup, hlookup]
      rfl
    have hjoins : passes b.arena block = false :=
      Bool.eq_false_iff.2 fun hpasses => hstops ⟨hlookup, hpasses⟩
    rw [readWithin_of_joins hlookup htag h.complete hjoins,
      readWithin_of_joins hlookup' htag (hb.scope.complete.trans h.complete)
        ((passes_embeds hb.arena block).trans hjoins), hb.arena.livePreds]
    rcases Nat.lt_or_ge block.index size with hlt | hge
    · obtain ⟨m, rfl⟩ := h.exists_succ hlookup hlt
      exact readJoin_alike (readWithin_widens g name steps)
        (fun pred b hb => hb.readWithin steps pred) (hread m rfl) hb (h.openJoin_new hlookup hlt) _
    · -- there is no such block
      have hnone : b.arena.livePreds block = [] := by
        rw [Arena.livePreds, Arena.block, Array.getD_eq_getD_getElem?,
          Array.getElem?_eq_none (h.size ▸ hge)]
        rfl
      rw [hnone]
      have hjoin : Mirrors g 0 g.operand (readJoin name block (readWithin name steps) [])
          (readJoin name (g.block block) (readWithin name steps') []) :=
        .bind (openJoin_mirrors name block) fun made =>
          .bind (addIncoming_mirrors made.2 (List.forall_mem_nil _)) fun _ => .pure rfl
      exact hjoin.alike hb

/-- Searches with enough steps do the same in different arenas. -/
theorem readWithin_alike {name : String} (htag : inputTag? name = none) {size count : Nat}
    {b b' : Builder} (hb : b.Twin g b') (h : Searchable name size count b) {steps steps' : Nat}
    (hsteps : count * (size + 2) < steps) (hsteps' : count * (size + 2) < steps')
    (block : BlockId) :
    Alike g b b' (readWithin name steps block) (readWithin name steps' (g.block block)) := by
  induction count using Nat.strong_induction_on generalizing b b' steps steps' block with
  | _ count ih =>
    by_cases hforever : ∀ k, Continues name b ((onlyPred b.arena)^[k] block)
    · obtain ⟨m, rfl⟩ := h.exists_succ (hforever 0).unbound (h.size ▸ (hforever 0).lt)
      refine readWithin_alike_of_forever hb htag h.complete hforever ?_ ?_ <;>
        rw [h.size] <;> rw [Nat.succ_mul] at hsteps hsteps' <;> omega
    obtain ⟨k, hle, hk, hstops⟩ := first_stop hforever
    rw [h.size] at hle
    have henough : k + (count - 1) * (size + 2) ≤ count * (size + 2) := by
      rcases Nat.eq_zero_or_pos k with rfl | hkpos
      · rw [Nat.zero_add]
        exact Nat.mul_le_mul_right (size + 2) (Nat.sub_le count 1)
      · obtain ⟨m, rfl⟩ := h.exists_succ (hk 0 hkpos).unbound (h.size ▸ (hk 0 hkpos).lt)
        rw [Nat.add_sub_cancel, Nat.succ_mul]
        omega
    obtain ⟨rest, rfl⟩ : ∃ rest, steps = rest + 1 + k := ⟨steps - 1 - k, by omega⟩
    obtain ⟨rest', rfl⟩ : ∃ rest, steps' = rest + 1 + k := ⟨steps' - 1 - k, by omega⟩
    have hlast : Alike g b b' (readWithin name (rest + 1) _) (readWithin name (rest' + 1) _) :=
      readWithin_alike_of_stop htag hb h hstops (by
        rintro m rfl pred b b' hb h
        rw [Nat.succ_mul] at hsteps hsteps'
        exact ih m (Nat.lt_succ_self m) hb h (by omega) (by omega) pred)
    have hk' (i : Nat) (hi : i < k) :
        Continues name b' ((onlyPred b'.arena)^[i] (g.block block)) :=
      iterate_onlyPred_embeds hb.arena i block ▸ (hk i hi).twin hb
    unfold Alike
    rw [readWithin_of_way htag h.complete hk, readWithin_of_way htag
      (hb.scope.complete.trans h.complete) hk', iterate_onlyPred_embeds hb.arena,
      way_embeds hb.arena]
    intro hlimit
    obtain ⟨hx, htwin⟩ := hlast hlimit
    refine ⟨hx, { htwin with scope := ?_ }⟩
    dsimp only
    rw [hx]
    exact bindAll_twin htwin.scope name _ _

/-- A search does the same if it does not leave its block. -/
theorem readWithin_alike_of_local {name : String} {b b' : Builder} (hb : b.Twin g b')
    (hlocal : inputTag? name = none → b.scope.complete = false) (steps steps' : Nat)
    (block : BlockId) :
    Alike g b b' (readWithin name (steps + 1) block) (readWithin name (steps' + 1) (g.block block)) := by
  have hlookup' := hb.scope.lookup block name
  unfold Alike
  cases hlookup : b.scope.lookup block name with
  | some x =>
    rw [hlookup] at hlookup'
    rw [readWithin_of_bound hlookup, readWithin_of_bound hlookup']
    exact fun _ => ⟨rfl, hb⟩
  | none =>
    rw [hlookup] at hlookup'
    cases htag : inputTag? name with
    | some tag =>
      rw [readWithin_of_input hlookup htag, readWithin_of_input hlookup' htag]
      exact (readInput_mirrors tag block).alike hb
    | none =>
      have hcomplete := hlocal htag
      rw [readWithin_of_incomplete hlookup htag hcomplete, readWithin_of_incomplete hlookup' htag
        (hb.scope.complete.trans hcomplete)]
      exact (readLater_mirrors name block).alike hb

theorem unbound_le (name : String) (b : Builder) : unbound name b ≤ b.arena.blocks.size :=
  (Finset.card_filter_le ..).trans_eq (Finset.card_range _)

theorem size_blocks_le {b b' : Builder} (hb : b.Twin g b') :
    b.arena.blocks.size ≤ b'.arena.blocks.size := by
  rcases Nat.eq_zero_or_pos b.arena.blocks.size with hzero | hpos
  · omega
  · have hlt := hb.arena.blocks.size_lt.2 (Nat.sub_lt hpos Nat.one_pos)
    have hle := g.blocks_mono.le_apply (x := b.arena.blocks.size - 1)
    omega

theorem run_look_bind {α β : Type} (f : Arena → α) (k : α → Build β) (b : Builder) :
    (look f >>= k).run b = (k (f b.arena)).run b := rfl

theorem readName_alike {b b' : Builder} (hb : b.Twin g b') (name : String) (block : BlockId) :
    Alike g b b' (readName name block) (readName name (g.block block)) := by
  have hsize := size_blocks_le hb
  have hsteps : b.arena.blocks.size * (b.arena.blocks.size + 2) <
      (b.arena.blocks.size + 1) * (b.arena.blocks.size + 1) := by
    rw [Nat.succ_mul, Nat.mul_succ, Nat.mul_succ]
    omega
  have hsteps' := Nat.lt_of_lt_of_le hsteps
    (Nat.mul_le_mul (Nat.succ_le_succ hsize) (Nat.succ_le_succ hsize))
  rw [Alike, readName, readName, run_look_bind, run_look_bind]
  by_cases hfar : inputTag? name = none ∧ b.scope.complete = true
  · exact readWithin_alike hfar.1 hb ⟨hfar.2, rfl, unbound_le name b⟩ hsteps hsteps' block
  · obtain ⟨steps, hs⟩ := Nat.exists_eq_succ_of_ne_zero (Nat.ne_zero_of_lt hsteps)
    obtain ⟨steps', hs'⟩ := Nat.exists_eq_succ_of_ne_zero (Nat.ne_zero_of_lt hsteps')
    rw [hs, hs']
    exact readWithin_alike_of_local hb
      (fun htag => Bool.eq_false_iff.2 fun hcomplete => hfar ⟨htag, hcomplete⟩) steps steps' block

theorem readName_widens (g : Graft) (name : String) (block : BlockId) :
    Widens (readName name block) := fun b => by
  rw [readName, run_look_bind]
  exact readWithin_widens g name _ block b

/-- Reading a variable does the same in different arenas, although the larger one allows for more
steps. -/
theorem readName_mirrors (name : String) (block : BlockId) :
    Mirrors g n g.operand (readName name block) (readName name (g.block block)) :=
  ⟨readName_widens g name block, fun hb _ => readName_alike hb name block⟩

end QueryTaint.Lower
