import QueryTaint.Proofs.Relabel.Fold
import QueryTaint.Proofs.Simplify.Removal
import QueryTaint.Simplify.Basic

/-!
# Simplifying functions in different arenas

Trivial φ operations are removed, and blocks that only jump are bypassed, in the same way in an arena
and in one that it is embedded in (`Embeds.simplify`).
-/

namespace QueryTaint

theorem eraseDups_map {α β : Type} [BEq α] [LawfulBEq α] [BEq β] [LawfulBEq β] {f : α → β}
    (hf : f.Injective) (l : List α) : (l.map f).eraseDups = l.eraseDups.map f := by
  induction hn : l.length using Nat.strong_induction_on generalizing l with
  | _ n ih =>
    cases l with
    | nil => rfl
    | cons x l =>
      have hfilter : (l.map f).filter (fun y => !y == f x) = (l.filter fun y => !y == x).map f := by
        rw [List.filter_map]
        refine congrArg _ (List.filter_congr fun y _ => ?_)
        simp [hf.eq_iff]
      have hlt : (l.filter fun y => !y == x).length < n :=
        Nat.lt_of_le_of_lt (List.length_filter_le ..) (by rw [← hn, List.length_cons]; omega)
      rw [List.map_cons, List.eraseDups_cons, List.eraseDups_cons, hfilter, ih _ hlt _ rfl,
        List.map_cons]

namespace Arena

variable {g : Graft} {a b : Arena}

/-! ## Trivial φ operations -/

theorem merged_map (vars : List OperandId) (result : OperandId) :
    merged (vars.map g.operand) (g.operand result) = (merged vars result).map g.operand := by
  rw [merged, merged, ← eraseDups_map g.operand_injective, filter_ne_map g.operand_injective]

/-- The value and the result of a trivial φ operation with new numbers. -/
def relabelTrivial (g : Graft) (found : Option OperandId × OperandId) :
    Option OperandId × OperandId :=
  (found.1.map g.operand, g.operand found.2)

theorem trivialPhi?_embeds (h : Embeds g a b) (phi : OpId) :
    b.trivialPhi? (g.op phi) = (a.trivialPhi? phi).map (relabelTrivial g) := by
  rw [trivialPhi?, trivialPhi?, h.op, Op.relabel]
  cases (a.op phi).kind with
  | phi vars result =>
    simp only [OpKind.relabel, merged_map]
    rcases merged vars result with _ | ⟨value, _ | _⟩ <;> rfl
  | _ => rfl

theorem isPhi_embeds (h : Embeds g a b) (op : OpId) : b.isPhi (g.op op) = a.isPhi op := by
  rw [isPhi, isPhi, h.op, Op.relabel]
  cases (a.op op).kind <;> rfl

theorem phiUsers_embeds (h : Embeds g a b) (phi : OpId) (result : OperandId) :
    b.phiUsers (g.op phi) (g.operand result) = (a.phiUsers phi result).map g.op := by
  rw [phiUsers, phiUsers, h.usages_embeds, List.filter_map]
  refine congrArg _ (List.filter_congr fun u _ => ?_)
  simp [isPhi_embeds h]

theorem Embeds.removePhi (h : Embeds g a b) (phi : OpId) (value : Option OperandId)
    (result : OperandId) :
    Embeds g (a.removePhi phi value result)
      (b.removePhi (g.op phi) (value.map g.operand) (g.operand result)) := by
  cases value with
  | none => exact h.removeOp phi
  | some value => exact (h.removeOp phi).replaceUses result value

theorem placed_embeds (h : Embeds g a b) (op : OpId) :
    (b.op (g.op op)).block = (a.op op).block.map g.block := by
  rw [h.op]
  rfl

theorem foldl_addNew_map (ops rest : List OpId) :
    (ops.map g.op).foldl addNew (rest.map g.op) = (ops.foldl addNew rest).map g.op := by
  induction ops generalizing rest with
  | nil => rfl
  | cons op ops ih => rw [List.map_cons, List.foldl_cons, List.foldl_cons, addNew_map g.op_injective, ih]

theorem Embeds.removePhis (h : Embeds g a b) (count : Nat) (worklist : List OpId) :
    (b.removePhis count (worklist.map g.op)).1 = (a.removePhis count worklist).1 ∧
      Embeds g (a.removePhis count worklist).2 (b.removePhis count (worklist.map g.op)).2 := by
  induction hn : a.placedOps using Nat.strong_induction_on generalizing a b count worklist with
  | _ n ih =>
    induction worklist with
    | nil =>
      rw [List.map_nil, Arena.removePhis, Arena.removePhis]
      exact ⟨rfl, h⟩
    | cons phi rest ihrest =>
      rw [List.map_cons, Arena.removePhis, Arena.removePhis, placed_embeds h, trivialPhi?_embeds h]
      cases (a.op phi).block with
      | none => exact ihrest
      | some home =>
        cases a.trivialPhi? phi with
        | none => exact ihrest
        | some found =>
          obtain ⟨value, result⟩ := found
          have hnext := h.removePhi phi value result
          have hguard := placedOps_lt_iff h hnext
          have hwaiting : ((b.phiUsers (g.op phi) (g.operand result)).filter fun u =>
              ((b.removePhi (g.op phi) (value.map g.operand) (g.operand result)).op u).block.isSome) =
              ((a.phiUsers phi result).filter fun u =>
                ((a.removePhi phi value result).op u).block.isSome).map g.op := by
            rw [phiUsers_embeds h, List.filter_map]
            refine congrArg _ (List.filter_congr fun u _ => ?_)
            rw [Function.comp_apply, placed_embeds hnext, Option.isSome_map]
          simp only [Option.map_some, relabelTrivial, hwaiting, foldl_addNew_map, hguard]
          split
          · rename_i hlt
            exact ih _ (hn ▸ hlt) hnext (count + 1) _ rfl
          · exact ⟨rfl, hnext⟩

theorem phisOf_embeds (h : Embeds g a b) (func : FuncId) :
    b.phisOf (g.func func) = (a.phisOf func).map g.op := by
  rw [phisOf, phisOf, h.blocks_func, List.flatMap_map, List.map_flatMap]
  refine List.flatMap_congr fun block _ => ?_
  rw [h.block]
  rfl

theorem Embeds.eliminatePhis (h : Embeds g a b) (func : FuncId) :
    Embeds g (a.eliminatePhis func).2 (b.eliminatePhis (g.func func)).2 := by
  have hremoved := (h.removePhis 0 (a.phisOf func)).2
  rw [← phisOf_embeds h] at hremoved
  exact hremoved

/-! ## Blocks that only jump -/

theorem jumpOnly?_embeds (h : Embeds g a b) (block : BlockId) :
    b.jumpOnly? (g.block block) = (a.jumpOnly? block).map g.block := by
  rw [jumpOnly?, jumpOnly?, h.block]
  simp only [Block.relabel]
  cases (a.block block).dead with
  | true => rfl
  | false =>
    cases (a.block block).phis with
    | cons => rfl
    | nil =>
      rcases (a.block block).ops with _ | ⟨op, _ | _⟩
      · rfl
      · simp only [List.map_nil, List.map_cons, h.op, Op.relabel]
        cases (a.op op).kind <;> rfl
      · rfl

/-- A predecessor and its terminator with new numbers. -/
def relabelBypass (g : Graft) (found : BlockId × OpId) : BlockId × OpId :=
  (g.block found.1, g.op found.2)

theorem mem_map_block (l : List BlockId) (block : BlockId) :
    g.block block ∈ l.map g.block ↔ block ∈ l :=
  List.mem_map_of_injective g.block_injective

theorem bypassable?_embeds (h : Embeds g a b) (block target : BlockId) :
    b.bypassable? (g.block block) (g.block target) =
      (a.bypassable? block target).map (relabelBypass g) := by
  rw [bypassable?, bypassable?, h.livePreds]
  rcases a.livePreds block with _ | ⟨pred, _ | _⟩
  case nil => rfl
  case cons.cons => rfl
  case cons.nil =>
    have hpreds : (b.block (g.block target)).preds = (a.block target).preds.map g.block := by
      rw [h.block]
      rfl
    simp only [List.map_cons, List.map_nil, hpreds, mem_map_block, g.block_inj, h.terminator?]
    split
    · rfl
    · cases a.terminator? pred with
      | none => rfl
      | some terminator =>
        simp only [Option.map_some, Option.bind_eq_bind, Option.bind_some, h.op, Op.relabel,
          OpKind.successors_relabel, mem_map_block]
        split <;> rfl

theorem swap_relabel (old new x : BlockId) :
    swap (g.block old) (g.block new) (g.block x) = g.block (swap old new x) := by
  unfold swap
  simp only [g.block_inj]
  split <;> rfl

/-- The last operation of a block is removed. -/
theorem Embeds.removeLast (h : Embeds g a b) (block : BlockId) :
    Embeds g
      (match (a.block block).ops.getLast? with
      | some jump => a.removeOp jump
      | none => a)
      (match (b.block (g.block block)).ops.getLast? with
      | some jump => b.removeOp jump
      | none => b) := by
  have hops : (b.block (g.block block)).ops = (a.block block).ops.map g.op := by
    rw [h.block]
    rfl
  rw [hops, List.getLast?_map]
  cases (a.block block).ops.getLast? with
  | none => exact h
  | some jump => exact h.removeOp jump

theorem Embeds.bypass (h : Embeds g a b) (block target pred : BlockId) (terminator : OpId) :
    Embeds g (a.bypass block target pred terminator)
      (b.bypass (g.block block) (g.block target) (g.block pred) (g.op terminator)) := by
  have hjump : Embeds g
      (a.modifyOp terminator fun o => { o with kind := o.kind.mapBlocks (swap block target) })
      (b.modifyOp (g.op terminator) fun o =>
        { o with kind := o.kind.mapBlocks (swap (g.block block) (g.block target)) }) :=
    h.modifyOp terminator fun o => by
      simp only [Op.relabel, OpKind.mapBlocks_relabel _ _ fun x => swap_relabel block target x]
  have hpreds {a b : Arena} (h : Embeds g a b) : Embeds g
      (a.modifyBlock target fun b => { b with preds := b.preds.map (swap block pred) })
      (b.modifyBlock (g.block target) fun b =>
        { b with preds := b.preds.map (swap (g.block block) (g.block pred)) }) :=
    h.modifyBlock target fun r => by simp [Block.relabel, Function.comp_def, swap_relabel]
  have hdead {a b : Arena} (h : Embeds g a b) : Embeds g
      (a.modifyBlock block fun b => { b with dead := true, preds := b.preds.filter (· ≠ pred) })
      (b.modifyBlock (g.block block) fun b =>
        { b with dead := true, preds := b.preds.filter (· ≠ g.block pred) }) :=
    h.modifyBlock block fun r => by simp only [Block.relabel, filter_ne_map g.block_injective]
  exact hdead ((hpreds hjump).removeLast block)

/-- The blocks that jump to themselves with new numbers. -/
def JumpState.relabel (g : Graft) (s : JumpState) : JumpState := ⟨s.coalesced, s.loops.map g.block⟩

theorem Embeds.tryBypass (h : Embeds g a b) (s : JumpState) (block : BlockId) :
    (Arena.tryBypass (s.relabel g) b (g.block block)).1 = (Arena.tryBypass s a block).1.relabel g ∧
      Embeds g (Arena.tryBypass s a block).2 (Arena.tryBypass (s.relabel g) b (g.block block)).2 := by
  rw [Arena.tryBypass, Arena.tryBypass, jumpOnly?_embeds h]
  cases a.jumpOnly? block with
  | none => exact ⟨rfl, h⟩
  | some target =>
    simp only [Option.map_some, g.block_inj, bypassable?_embeds h]
    split
    · exact ⟨by simp [JumpState.relabel, addNew_map g.block_injective], h⟩
    · cases a.bypassable? block target with
      | none => exact ⟨rfl, h⟩
      | some found => exact ⟨rfl, h.bypass block target found.1 found.2⟩

/-- One round of bypassing blocks. -/
def bypassRound (made : JumpState × Arena) (blocks : List BlockId) : JumpState × Arena :=
  blocks.foldl (fun (s, a) block => tryBypass s a block) made

theorem Embeds.bypassRound (h : Embeds g a b) (s : JumpState) (blocks : List BlockId) :
    (Arena.bypassRound (s.relabel g, b) (blocks.map g.block)).1 =
        (Arena.bypassRound (s, a) blocks).1.relabel g ∧
      Embeds g (Arena.bypassRound (s, a) blocks).2
        (Arena.bypassRound (s.relabel g, b) (blocks.map g.block)).2 := by
  induction blocks generalizing a b s with
  | nil => exact ⟨rfl, h⟩
  | cons block blocks ih =>
    obtain ⟨hstate, harena⟩ := h.tryBypass s block
    have hrest := ih harena (Arena.tryBypass s a block).1
    rw [← hstate] at hrest
    exact hrest

/-- The blocks of a function without its entry. -/
def inner (a : Arena) (func : FuncId) : List BlockId :=
  (a.func func).blocks.filter (· ≠ (a.func func).entry)

theorem inner_embeds (h : Embeds g a b) (func : FuncId) :
    b.inner (g.func func) = (a.inner func).map g.block := by
  rcases Nat.lt_or_ge func.index a.funcs.size with hlt | hge
  · rw [inner, h.func hlt]
    exact filter_ne_map g.block_injective _ _
  · -- a function that was never made has no blocks
    have hnone : (a.func func).blocks = [] := by
      rw [Arena.func, Array.getD_eq_getD_getElem?, Array.getElem?_eq_none hge]
      rfl
    rw [inner, inner, h.blocks_func, hnone]
    rfl

/-- The same number of blocks more are live. -/
theorem liveBlocks_embeds (g : Graft) : ∃ besides, ∀ {a b : Arena}, Embeds g a b →
    b.liveBlocks = a.liveBlocks + besides := by
  obtain ⟨besides, hcount⟩ := Inlaid.countP (p := fun b : Block => !b.dead)
    g.blocks_mono.injective (f := Block.relabel g.toRelabel) (fun _ => rfl) g.host.blocks
  exact ⟨besides, fun h => hcount h.blocks⟩

theorem liveBlocks_lt_iff {a₁ b₁ : Arena} (h : Embeds g a b) (h₁ : Embeds g a₁ b₁) :
    b₁.liveBlocks < b.liveBlocks ↔ a₁.liveBlocks < a.liveBlocks := by
  obtain ⟨besides, hcount⟩ := liveBlocks_embeds g
  rw [hcount h, hcount h₁]
  omega

/-- Blocks are bypassed in rounds. -/
theorem coalesceFrom_eq (func : FuncId) (s : JumpState) (a : Arena) : coalesceFrom func s a =
    let round := bypassRound (s, a) (a.inner func)
    if round.1.coalesced = s.coalesced then round
    else if round.2.liveBlocks < a.liveBlocks then coalesceFrom func round.1 round.2
    else round := by
  rw [coalesceFrom]
  rfl

theorem Embeds.coalesceFrom (h : Embeds g a b) (func : FuncId) (s : JumpState) :
    (Arena.coalesceFrom (g.func func) (s.relabel g) b).1 =
        (Arena.coalesceFrom func s a).1.relabel g ∧
      Embeds g (Arena.coalesceFrom func s a).2
        (Arena.coalesceFrom (g.func func) (s.relabel g) b).2 := by
  induction hn : a.liveBlocks using Nat.strong_induction_on generalizing a b s with
  | _ n ih =>
    obtain ⟨hstate, hround⟩ := h.bypassRound s (a.inner func)
    rw [coalesceFrom_eq func, coalesceFrom_eq (g.func func), inner_embeds h]
    dsimp only
    simp only [liveBlocks_lt_iff h hround, hstate]
    have hcount : ((Arena.bypassRound (s, a) (a.inner func)).1.relabel g).coalesced =
        (s.relabel g).coalesced ↔
          (Arena.bypassRound (s, a) (a.inner func)).1.coalesced = s.coalesced := Iff.rfl
    simp only [hcount]
    split
    · exact ⟨hstate, hround⟩
    · split
      · rename_i hlt
        exact ih _ (hn ▸ hlt) hround _ rfl
      · exact ⟨hstate, hround⟩

/-- Simplifying a function does the same in different arenas. -/
theorem Embeds.simplify (h : Embeds g a b) (func : FuncId) :
    Embeds g (a.simplify func).2 (b.simplify (g.func func)).2 :=
  ((h.eliminatePhis func).coalesceFrom func {}).2

/-! ## Sizes -/

section Extent

variable (a : Arena)

@[simp] theorem extent_removePhi (phi : OpId) (value : Option OperandId) (result : OperandId) :
    (a.removePhi phi value result).extent = a.extent := by
  cases value <;> simp [removePhi]

theorem extent_removePhis (count : Nat) (worklist : List OpId) :
    (a.removePhis count worklist).2.extent = a.extent := by
  fun_induction removePhis a count worklist with
  | case1 => rfl
  | case2 _ _ _ _ _ _ _ _ _ _ next _ _ ih => exact ih.trans (extent_removePhi ..)
  | case3 => exact extent_removePhi ..
  | case4 _ _ _ _ _ ih => exact ih

theorem extent_bypass (block target pred : BlockId) (terminator : OpId) :
    (a.bypass block target pred terminator).extent = a.extent := by
  unfold bypass
  dsimp only
  split <;> simp

theorem extent_tryBypass (s : JumpState) (block : BlockId) :
    (tryBypass s a block).2.extent = a.extent := by
  unfold tryBypass
  split
  · rfl
  · split
    · rfl
    · split
      · rfl
      · exact extent_bypass ..

theorem extent_bypassRound (s : JumpState) (blocks : List BlockId) :
    (bypassRound (s, a) blocks).2.extent = a.extent := by
  induction blocks generalizing a s with
  | nil => rfl
  | cons block blocks ih => exact (ih _ _).trans (extent_tryBypass a s block)

theorem extent_coalesceFrom (func : FuncId) (s : JumpState) :
    (coalesceFrom func s a).2.extent = a.extent := by
  induction hn : a.liveBlocks using Nat.strong_induction_on generalizing a s with
  | _ n ih =>
    rw [coalesceFrom_eq]
    dsimp only
    split
    · exact extent_bypassRound ..
    · split
      · rename_i hlt
        exact (ih _ (hn ▸ hlt) _ _ rfl).trans (extent_bypassRound ..)
      · exact extent_bypassRound ..

/-- Simplifying a function makes nothing. -/
theorem extent_simplify (func : FuncId) : (a.simplify func).2.extent = a.extent :=
  (extent_coalesceFrom _ func {}).trans (extent_removePhis a 0 _)

end Extent

end Arena

end QueryTaint
