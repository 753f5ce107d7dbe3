import Mathlib.Logic.Relation
import QueryTaint.Proofs.Relabel.Read

/-!
# Searches end

`readName` looks for a version in as many steps as there can be. `Answers` is the same search without
a count of steps: what a search that goes on without end would answer has no derivation. A search of
a body that is complete ends if first predecessors are in no circle, whichever blocks have versions
already (`answers_readName`), and so do the searches that fill the φ operations that waited
(`completes_completePhis`).

A search binds a block before it goes on in several predecessors. So what could make it go round in a
circle are blocks with one live predecessor and no version (`PassesTo`), and of those there is no circle
(`not_passesTo_itself`).
-/

namespace QueryTaint.Lower

variable {name : String}

/-! ## Searching without a count of steps -/

mutual

/-- A search for the version of a variable in a block comes to an end with a version. -/
inductive Answers (name : String) : BlockId → Builder → OperandId → Builder → Prop
  | bound {block b x} (h : b.scope.lookup block name = some x) : Answers name block b x b
  | input {block b tag x b'} (hnone : b.scope.lookup block name = none)
      (htag : inputTag? name = some tag) (hrun : (readInput tag block).run b = (x, b')) :
      Answers name block b x b'
  | later {block b x b'} (hnone : b.scope.lookup block name = none) (htag : inputTag? name = none)
      (hcomplete : b.scope.complete = false) (hrun : (readLater name block).run b = (x, b')) :
      Answers name block b x b'
  | passes {block b x b'} (hnone : b.scope.lookup block name = none) (htag : inputTag? name = none)
      (hcomplete : b.scope.complete = true) (hpasses : passes b.arena block = true)
      (hpred : Answers name (onlyPred b.arena block) b x b') :
      Answers name block b x { b' with scope := b'.scope.bind block name x }
  | joins {block b x phi b' b''} (hnone : b.scope.lookup block name = none)
      (htag : inputTag? name = none) (hcomplete : b.scope.complete = true)
      (hpasses : passes b.arena block = false) (hrun : (openJoin name block).run b = ((x, phi), b'))
      (hlive : Gathers name phi (b.arena.livePreds block) b' b'') : Answers name block b x b''

/-- The searches for the operands of a φ operation come to an end. -/
inductive Gathers (name : String) : OpId → List BlockId → Builder → Builder → Prop
  | nil {phi b} : Gathers name phi [] b b
  | cons {phi pred rest b x b' b''} (hpred : Answers name pred b x b')
      (hrest : Gathers name phi rest { b' with arena := b'.arena.addPhiOperand phi x } b'') :
      Gathers name phi (pred :: rest) b b''

end

/-- The φ operations that waited get their operands one after the other. -/
inductive Completes : List PendingPhi → Builder → Builder → Prop
  | nil {b : Builder} : Completes [] b b
  | cons {p : PendingPhi} {rest : List PendingPhi} {b b' b'' : Builder}
      (hfirst : Gathers p.name p.phi (b.arena.livePreds p.block) b b')
      (hrest : Completes rest { b' with arena := b'.arena.attachPhi p.block p.phi } b'') :
      Completes (p :: rest) b b''

theorem run_readJoin {block : BlockId} {b b' : Builder} {made : OperandId × OpId}
    (h : (openJoin name block).run b = (made, b')) (read : BlockId → Build OperandId)
    (live : List BlockId) : (readJoin name block read live).run b =
      (made.1, ((addIncoming made.2 read live).run b').2) := by
  rw [readJoin, StateT.run_bind, h]
  rfl

theorem run_addIncoming_cons (phi : OpId) (read : BlockId → Build OperandId) (pred : BlockId)
    (rest : List BlockId) (b : Builder) : (addIncoming phi read (pred :: rest)).run b =
      let found := (read pred).run b
      (addIncoming phi read rest).run
        { found.2 with arena := found.2.arena.addPhiOperand phi found.1 } := rfl

mutual

/-- A search that comes to an end does so in a number of steps, and more steps change nothing. -/
theorem Answers.readWithin {block : BlockId} {b b' : Builder} {x : OperandId} :
    Answers name block b x b' → ∃ least, ∀ more,
      (readWithin name (least + 1 + more) block).run b = (x, b')
  | .bound h => ⟨0, fun more => by rw [Nat.add_right_comm, readWithin_of_bound h]⟩
  | .input hnone htag hrun => ⟨0, fun more => by
      rw [Nat.add_right_comm, readWithin_of_input hnone htag, hrun]⟩
  | .later hnone htag hcomplete hrun => ⟨0, fun more => by
      rw [Nat.add_right_comm, readWithin_of_incomplete hnone htag hcomplete, hrun]⟩
  | .passes hnone htag hcomplete hpasses hpred => by
    obtain ⟨least, hleast⟩ := hpred.readWithin
    refine ⟨least + 1, fun more => ?_⟩
    rw [Nat.add_right_comm, readWithin_of_passes hnone htag hcomplete hpasses, hleast more]
  | .joins hnone htag hcomplete hpasses hrun hlive => by
    obtain ⟨least, hleast⟩ := hlive.addIncoming
    refine ⟨least, fun more => ?_⟩
    rw [Nat.add_right_comm, readWithin_of_joins hnone htag hcomplete hpasses, run_readJoin hrun,
      hleast more]

theorem Gathers.addIncoming {phi : OpId} {preds : List BlockId} {b b' : Builder} :
    Gathers name phi preds b b' → ∃ least, ∀ more,
      (addIncoming phi (Lower.readWithin name (least + more)) preds).run b = ((), b')
  | .nil => ⟨0, fun _ => rfl⟩
  | .cons hpred hrest => by
    obtain ⟨least, hleast⟩ := hpred.readWithin
    obtain ⟨least', hleast'⟩ := hrest.addIncoming
    refine ⟨least + 1 + least', fun more => ?_⟩
    rw [run_addIncoming_cons, Nat.add_assoc, hleast (least' + more),
      show least + 1 + (least' + more) = least' + (least + 1 + more) by omega,
      hleast' (least + 1 + more)]

end

/-- A search has one end. -/
theorem Answers.unique {block : BlockId} {b b' b'' : Builder} {x y : OperandId}
    (h : Answers name block b x b') (h' : Answers name block b y b'') : x = y ∧ b' = b'' := by
  obtain ⟨least, hleast⟩ := h.readWithin
  obtain ⟨least', hleast'⟩ := h'.readWithin
  have hsame : least + 1 + least' = least' + 1 + least := by omega
  exact Prod.mk.inj ((hleast least').symm.trans (hsame ▸ hleast' least))

/-! ## Circles -/

/-- A search in a block goes on in its only predecessor, which is live: the block has no version. -/
structure PassesTo (name : String) (b : Builder) (block pred : BlockId) : Prop where
  unbound : b.scope.lookup block name = none
  preds : (b.arena.block block).preds = [pred]
  live : (b.arena.block pred).dead = false

section Ranked

variable {b : Builder} {block : BlockId}

theorem passes_eq_true_iff {a : Arena} : passes a block = true ↔
    ∃ pred, (a.block block).preds = [pred] ∧ (a.block pred).dead = false := by
  rw [passes, Bool.and_eq_true, decide_eq_true_iff, decide_eq_true_iff, Arena.livePreds]
  constructor
  · rintro ⟨hone, hlive⟩
    obtain ⟨pred, hpred⟩ := List.length_eq_one_iff.1 hone
    refine ⟨pred, hpred, ?_⟩
    rw [hpred] at hlive
    by_contra hdead
    simp [hdead] at hlive
  · rintro ⟨pred, hpred, hlive⟩
    simp [hpred, hlive]

theorem Continues.passesTo (h : Continues name b block) :
    PassesTo name b block (onlyPred b.arena block) := by
  obtain ⟨pred, hpreds, hlive⟩ := passes_eq_true_iff.1 h.passes
  have hpred : onlyPred b.arena block = pred := by rw [onlyPred, hpreds, List.headD_cons]
  exact ⟨h.unbound, hpred ▸ hpreds, hpred ▸ hlive⟩

/-- No block without a version is reached again through only predecessors. -/
theorem not_passesTo_itself (h : b.arena.Ranked fun _ => True) (name : String) (block : BlockId) :
    ¬Relation.TransGen (PassesTo name b) block block := by
  obtain ⟨rank, hrank⟩ := h
  have hfalls {block pred : BlockId} (hpath : Relation.TransGen (PassesTo name b) block pred) :
      rank pred < rank block := by
    induction hpath with
    | single hstep => exact hrank _ trivial _ _ hstep.preds
    | tail _ hstep ih => exact Nat.lt_trans (hrank _ trivial _ _ hstep.preds) ih
  exact fun hcircle => Nat.lt_irrefl _ (hfalls hcircle)

/-- A way through only predecessors comes to an end. -/
theorem not_continues_forever (h : b.arena.Ranked fun _ => True) (block : BlockId) :
    ¬∀ k, Continues name b ((onlyPred b.arena)^[k] block) := by
  obtain ⟨rank, hrank⟩ := h
  intro hforever
  have hfalls (k : Nat) : rank ((onlyPred b.arena)^[k] block) + k ≤ rank block := by
    induction k with
    | zero => exact Nat.le_refl _
    | succ k ih =>
      have hlt := hrank _ trivial _ _ (hforever k).passesTo.preds
      rw [Function.iterate_succ_apply']
      omega
  have hlast := hfalls (rank block + 1)
  omega

end Ranked

/-! ## Searches of complete bodies -/

/-- What searches keep that makes them end: the body is complete, and first predecessors are in no
circle. -/
structure Surveyed (b : Builder) : Prop where
  complete : b.scope.complete = true
  ranked : b.arena.Ranked fun _ => True

namespace Surveyed

variable {b b' : Builder}

theorem keep (h : Surveyed b) (hcomplete : b'.scope.complete = b.scope.complete)
    (hpreds : ∀ block, (b'.arena.block block).preds = (b.arena.block block).preds) :
    Surveyed b' where
  complete := hcomplete.trans h.complete
  ranked := h.ranked.congr hpreds

theorem seeks {K : OpId → Prop} (h : Surveyed b) (hs : Seeks name K b b') : Surveyed b' :=
  h.keep hs.complete hs.arena.preds

theorem addPhiOperand (h : Surveyed b) (phi : OpId) (x : OperandId) :
    Surveyed { b with arena := b.arena.addPhiOperand phi x } := by
  refine h.keep rfl fun block => ?_
  dsimp only
  unfold Arena.addPhiOperand
  split <;> rfl

theorem attachPhi (h : Surveyed b) (block : BlockId) (phi : OpId) :
    Surveyed { b with arena := b.arena.attachPhi block phi } :=
  h.keep rfl (block_attachPhi_keep Block.preds (fun _ _ => rfl) block phi)

theorem openJoin (h : Surveyed b) (name : String) (block : BlockId) :
    Gives (openJoin name block) b fun _ b' => Surveyed b' :=
  Gives.bind (newPhi_seeks (K := fun _ => True) name b) fun made _ h₁ =>
    (h.seeks h₁.1).attachPhi block made.2 |>.keep rfl fun _ => rfl

end Surveyed

/-- The searches for the operands of a φ operation end if each of them does. -/
theorem gathers_addIncoming {P : Builder → Prop} {read : BlockId → Build OperandId}
    (hread : ∀ pred b, P b → Gives (read pred) b fun x b' => Answers name pred b x b' ∧ P b')
    (hadd : ∀ b phi x, P b → P { b with arena := b.arena.addPhiOperand phi x }) {b : Builder}
    (h : P b) (phi : OpId) (preds : List BlockId) :
    Gives (addIncoming phi read preds) b fun _ b' => Gathers name phi preds b b' ∧ P b' := by
  induction preds generalizing b with
  | nil => exact ⟨.nil, h⟩
  | cons pred rest ih =>
    obtain ⟨hfirst, h₁⟩ := hread pred b h
    obtain ⟨hrest, h₂⟩ := ih (hadd _ phi ((read pred).run b).1 h₁)
    exact ⟨.cons hfirst hrest, h₂⟩

/-- A search with enough steps for the way to the next block where it ends or joins versions, and for
all the blocks that are bound from then on. -/
theorem answers_of_stop {size count k steps : Nat} {b : Builder} {block : BlockId}
    (h : Searchable name size count b) (hb : Surveyed b)
    (hgoes : ∀ i < k, Continues name b ((onlyPred b.arena)^[i] block))
    (hstops : ¬Continues name b ((onlyPred b.arena)^[k] block))
    (hsteps : count * (size + 1) + k < steps) :
    Gives (readWithin name steps block) b fun x b' => Answers name block b x b' := by
  induction steps generalizing count k b block with
  | zero => exact absurd hsteps (Nat.not_lt_zero _)
  | succ steps ih =>
    unfold Gives
    cases hlookup : b.scope.lookup block name with
    | some x =>
      rw [readWithin_of_bound hlookup]
      exact .bound hlookup
    | none =>
      cases htag : inputTag? name with
      | some tag =>
        rw [readWithin_of_input hlookup htag]
        exact .input hlookup htag rfl
      | none =>
        cases hpasses : passes b.arena block with
        | true =>
          -- one step on the way
          obtain ⟨i, rfl⟩ : ∃ i, k = i + 1 := Nat.exists_eq_succ_of_ne_zero fun hzero => by
            subst hzero
            exact hstops ⟨hlookup, hpasses⟩
          rw [readWithin_of_passes hlookup htag hb.complete hpasses]
          exact .passes hlookup htag hb.complete hpasses (ih h hb
            (fun j hj => hgoes (j + 1) (Nat.succ_lt_succ hj)) hstops (by omega))
        | false =>
          rw [readWithin_of_joins hlookup htag hb.complete hpasses, run_readJoin rfl]
          refine .joins hlookup htag hb.complete hpasses rfl ?_
          have hb₁ := hb.openJoin name block
          rcases Nat.lt_or_ge block.index size with hlt | hge
          · -- one more block is bound
            obtain ⟨rest, rfl⟩ := h.exists_succ hlookup hlt
            have h₁ := h.openJoin_new hlookup hlt
            refine (gathers_addIncoming (P := fun b => Searchable name size rest b ∧ Surveyed b)
              ?_ ?_ ⟨h₁, hb₁⟩ _ _).1
            · rintro pred b ⟨h, hb⟩
              obtain ⟨k', hle, hgoes, hstops⟩ := first_stop (not_continues_forever hb.ranked pred)
              rw [h.size] at hle
              rw [Nat.succ_mul] at hsteps
              exact ⟨ih h hb hgoes hstops (by omega), h.readWithin steps pred,
                hb.seeks (readWithin_seeks name steps pred b hb.complete)⟩
            · exact fun b phi x hboth => ⟨hboth.1.addPhiOperand phi x, hboth.2.addPhiOperand phi x⟩
          · -- there is no such block
            have hnone : b.arena.livePreds block = [] := by
              rw [Arena.livePreds, Arena.block, Array.getD_eq_getD_getElem?,
                Array.getElem?_eq_none (h.size ▸ hge)]
              rfl
            rw [hnone]
            exact .nil

/-- A search of a complete body where first predecessors are in no circle ends, and `readName` has
its answer. -/
theorem answers_readName {b : Builder} (h : Surveyed b) (name : String) (block : BlockId) :
    Gives (readName name block) b fun x b' => Answers name block b x b' ∧ Surveyed b' := by
  obtain ⟨k, hle, hgoes, hstops⟩ := first_stop (not_continues_forever h.ranked block)
  refine ⟨Gives.look (answers_of_stop ⟨h.complete, rfl, unbound_le name b⟩ h hgoes hstops ?_),
    h.seeks (readName_seeks name block b h.complete)⟩
  rw [Nat.succ_mul]
  omega

/-- Completing φ operations ends, and leaves first predecessors in no circle. -/
theorem completes_completePhis {b : Builder} (h : Surveyed b) (pending : List PendingPhi) :
    Gives (completePhis pending) b fun _ b' => Completes pending b b' ∧ Surveyed b' := by
  induction pending generalizing b with
  | nil => exact ⟨.nil, h⟩
  | cons p rest ih =>
    obtain ⟨hfirst, h₁⟩ := gathers_addIncoming (fun pred _ h => answers_readName h p.name pred)
      (fun _ phi x h => h.addPhiOperand phi x) h p.phi (b.arena.livePreds p.block)
    obtain ⟨hrest, h₂⟩ := ih (h₁.attachPhi p.block p.phi)
    exact ⟨.cons hfirst hrest, h₂⟩

end QueryTaint.Lower
