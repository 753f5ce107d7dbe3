import Mathlib.Data.Finset.Card
import QueryTaint.Proofs.Relabel.Embed
import QueryTaint.Simplify.Fold

/-!
# Folding constants in different arenas

Replacing and removing operations does the same to an arena and to one that it is embedded in, and so
does folding a function (`Embeds.optimize`). A round of folding is the last one if it takes no
operation out of its block; it is so in both arenas, because what the larger one holds besides stays
the same (`Inlaid.countP`).
-/

namespace QueryTaint

/-! ## Counting -/

/-- The positions in a table, as a set of numbers, of the entries that pass a test. -/
def positions {τ : Type} (p : τ → Bool) (xs : Array τ) : Finset Nat :=
  (Finset.range xs.size).filter fun i => xs[i]?.any p

theorem mem_positions {τ : Type} {p : τ → Bool} {xs : Array τ} {i : Nat} :
    i ∈ positions p xs ↔ xs[i]?.any p = true := by
  rw [positions, Finset.mem_filter, Finset.mem_range, and_iff_right_iff_imp]
  intro h
  by_contra hge
  rw [Array.getElem?_eq_none (Nat.not_lt.1 hge)] at h
  cases h

theorem card_eq_countP {τ : Type} {p : τ → Bool} (l : List τ) {s : Finset Nat}
    (hs : ∀ i, i ∈ s ↔ l[i]?.any p = true) : s.card = l.countP p := by
  induction l using List.reverseRecOn generalizing s with
  | nil =>
    rw [Finset.card_eq_zero.2 (Finset.eq_empty_of_forall_notMem fun i hi => by
      have := (hs i).1 hi
      simp at this)]
    rfl
  | append_singleton l x ih =>
    have hlast : l.length ∈ s ↔ p x = true := by simp [hs]
    have hrest := ih (s := s.erase l.length) fun i => by
      rw [Finset.mem_erase, hs]
      rcases Nat.lt_trichotomy i l.length with hi | rfl | hi
      · simp [List.getElem?_append_left hi, Nat.ne_of_lt hi]
      · simp
      · rw [List.getElem?_eq_none (by simp; omega),
          List.getElem?_eq_none (Nat.le_of_lt hi)]
        simp
    rw [List.countP_append, ← hrest, List.countP_singleton]
    by_cases hx : p x = true
    · rw [if_pos hx, Finset.card_erase_add_one (hlast.2 hx)]
    · rw [if_neg hx, Finset.erase_eq_of_notMem fun hmem => hx (hlast.1 hmem)]
      rfl

theorem card_positions {τ : Type} (p : τ → Bool) (xs : Array τ) :
    (positions p xs).card = xs.countP p := by
  rw [← Array.countP_toList]
  exact card_eq_countP xs.toList fun i => by rw [mem_positions, Array.getElem?_toList]

/-- What the larger table holds besides does not change how many entries pass a test. -/
theorem Inlaid.countP {τ : Type} {r : Nat → Nat} (hr : r.Injective) {f : τ → τ} {p : τ → Bool}
    (hp : ∀ x, p (f x) = p x) (host : Array τ) : ∃ besides, ∀ {xs ys : Array τ} {limit : Nat},
      Inlaid r f host xs ys limit → ys.countP p = xs.countP p + besides := by
  classical
  let others := (positions p host).filter fun j => ∀ i, r i ≠ j
  refine ⟨others.card, fun {xs ys limit} h => ?_⟩
  have hsplit : positions p ys = (positions p xs).image r ∪ others := by
    ext j
    rw [Finset.mem_union, Finset.mem_image, Finset.mem_filter, mem_positions]
    by_cases hj : ∃ i, r i = j
    · obtain ⟨i, rfl⟩ := hj
      have hinside : ys[r i]?.any p = xs[i]?.any p := by
        rw [h.inside, Option.any_map]
        simp only [hp]
      rw [hinside]
      constructor
      · exact fun hi => .inl ⟨i, mem_positions.2 hi, rfl⟩
      · rintro (⟨i', hi', heq⟩ | ⟨-, hne⟩)
        · exact hr heq ▸ mem_positions.1 hi'
        · exact absurd rfl (hne i)
    · have hout : ∀ i, r i ≠ j := fun i hi => hj ⟨i, hi⟩
      rw [h.outside j hout, ← mem_positions]
      constructor
      · exact fun hmem => .inr ⟨hmem, hout⟩
      · rintro (⟨i, -, heq⟩ | ⟨hmem, -⟩)
        · exact absurd heq (hout i)
        · exact hmem
  have hdisjoint : Disjoint ((positions p xs).image r) others := by
    refine Finset.disjoint_left.2 fun j hj hother => ?_
    obtain ⟨i, -, rfl⟩ := Finset.mem_image.1 hj
    exact (Finset.mem_filter.1 hother).2 i rfl
  rw [← card_positions, ← card_positions, hsplit, Finset.card_union_of_disjoint hdisjoint,
    Finset.card_image_of_injective _ hr]

namespace Arena

/-! ## Replacing and removing -/

namespace Embeds

variable {g : Graft} {a b : Arena}

theorem foldl {α β : Type} {f : α → β} (h : Embeds g a b) {step : Arena → α → Arena}
    {step' : Arena → β → Arena}
    (hstep : ∀ a b x, Embeds g a b → Embeds g (step a x) (step' b (f x))) (l : List α) :
    Embeds g (l.foldl step a) ((l.map f).foldl step' b) := by
  induction l generalizing a b with
  | nil => exact h
  | cons x l ih => exact ih (hstep a b x h)

theorem replaced_relabel (old new x : OperandId) :
    (if g.operand x = g.operand old then g.operand new else g.operand x) =
      g.operand (if x = old then new else x) := by
  simp only [g.operand_inj]
  split <;> rfl

theorem replaceInOp (h : Embeds g a b) (op : OpId) (old new : OperandId) :
    Embeds g (a.replaceInOp op old new) (b.replaceInOp (g.op op) (g.operand old) (g.operand new)) := by
  unfold Arena.replaceInOp
  simp only [g.operand_inj]
  split
  · exact h
  · have hkind : (b.op (g.op op)).kind.mapOperands
        (fun id => if id = g.operand old then g.operand new else id) =
          ((a.op op).kind.mapOperands fun id => if id = old then new else id).relabel g.toRelabel := by
      rw [h.op]
      exact OpKind.mapOperands_relabel _ _ fun x => replaced_relabel old new x
    rw [hkind]
    simp only [OpKind.slots_relabel, OpKind.writes_relabel, List.filter_map, List.any_map,
      Function.comp_def, g.operand_inj]
    generalize (a.op op).kind.mapOperands (fun id => if id = old then new else id) = kind
    have hop : Embeds g (a.modifyOp op fun o => { o with kind })
        (b.modifyOp (g.op op) fun o => { o with kind := kind.relabel g.toRelabel }) :=
      h.modifyOp op fun _ => rfl
    refine (hop.modifyOperand old fun o => ?_).modifyOperand new fun o => ?_
    · rw [Operand.removeUsage_relabel, Operand.removeDef_relabel]
    · split <;> split <;> simp

theorem replaceGuard (h : Embeds g a b) (old new : OperandId) (block : BlockId) :
    Embeds g (a.replaceGuard old new block)
      (b.replaceGuard (g.operand old) (g.operand new) (g.block block)) := by
  refine (h.modifyBlock block fun r => ?_).modifyOperand new fun o => Operand.addCondUsage_relabel ..
  have hguards : (r.guards.map g.operand).map
      (fun id => if id = g.operand old then g.operand new else id) =
        (r.guards.map fun id => if id = old then new else id).map g.operand := by
    rw [List.map_map, List.map_map]
    exact List.map_congr_left fun x _ => replaced_relabel old new x
  simp only [Block.relabel, hguards]

theorem usages_embeds (h : Embeds g a b) (x : OperandId) :
    (b.operand (g.operand x)).usages = (a.operand x).usages.map g.op := by
  rw [h.operand]
  rfl

theorem condUsages_embeds (h : Embeds g a b) (x : OperandId) :
    (b.operand (g.operand x)).condUsages = (a.operand x).condUsages.map g.block := by
  rw [h.operand]
  rfl

theorem replaceUses (h : Embeds g a b) (old new : OperandId) :
    Embeds g (a.replaceUses old new) (b.replaceUses (g.operand old) (g.operand new)) := by
  unfold Arena.replaceUses
  simp only [g.operand_inj]
  split
  · exact h
  · rw [h.usages_embeds]
    have hops : Embeds g
        ((a.operand old).usages.foldl (fun a op => a.replaceInOp op old new) a)
        (((a.operand old).usages.map g.op).foldl
          (fun b op => b.replaceInOp op (g.operand old) (g.operand new)) b) :=
      h.foldl (fun _ _ op h => h.replaceInOp op old new) _
    rw [hops.condUsages_embeds]
    revert hops
    generalize (a.operand old).usages.foldl _ a = a₁
    generalize ((a.operand old).usages.map g.op).foldl _ b = b₁
    intro hops
    have hcleared : Embeds g (a₁.modifyOperand old fun o => { o with condUsages := [] })
        (b₁.modifyOperand (g.operand old) fun o => { o with condUsages := [] }) :=
      hops.modifyOperand old fun _ => rfl
    exact hcleared.foldl (fun _ _ block h => h.replaceGuard old new block) _

theorem removeOp (h : Embeds g a b) (op : OpId) :
    Embeds g (a.removeOp op) (b.removeOp (g.op op)) := by
  have hforget {a b : Arena} (h : Embeds g a b) : Embeds g
      ((a.op op).kind.slots.foldl
        (fun a entry => a.modifyOperand entry.2 fun o => (o.removeUsage op).removeDef op) a)
      ((b.op (g.op op)).kind.slots.foldl
        (fun a entry =>
          a.modifyOperand entry.2 fun o => (o.removeUsage (g.op op)).removeDef (g.op op)) b) := by
    rw [h.op]
    change Embeds g _ (((a.op op).kind.relabel g.toRelabel).slots.foldl _ b)
    rw [OpKind.slots_relabel]
    exact h.foldl (fun _ _ entry h => h.modifyOperand entry.2 fun o => by
      rw [Operand.removeUsage_relabel, Operand.removeDef_relabel]) _
  have hplace : (b.op (g.op op)).block = (a.op op).block.map g.block := by
    rw [h.op]
    rfl
  unfold Arena.removeOp
  rw [hplace]
  cases (a.op op).block with
  | none => exact hforget h
  | some block =>
    refine hforget ((h.modifyBlock block fun r => ?_).modifyOp op fun _ => rfl)
    simp only [Block.relabel, filter_ne_map g.op_injective]

end Embeds

/-! ## Sizes -/

/-- How many entries each table has. -/
structure Extent where
  operands : Nat
  ops : Nat
  blocks : Nat
  funcs : Nat
deriving DecidableEq

/-- How many entries each table has. -/
def extent (a : Arena) : Extent := ⟨a.operands.size, a.ops.size, a.blocks.size, a.funcs.size⟩

theorem Below.of_extent {a b : Arena} (h : b.extent = a.extent) : a.Below b := by
  simp only [extent, Extent.mk.injEq] at h
  exact ⟨h.1.ge, h.2.1.ge, h.2.2.1.ge, h.2.2.2.ge⟩

section Extent

variable (a : Arena)

@[simp] theorem extent_modifyOperand (x : OperandId) (f : Operand → Operand) :
    (a.modifyOperand x f).extent = a.extent := by simp [extent, modifyOperand]
@[simp] theorem extent_modifyOp (x : OpId) (f : Op → Op) : (a.modifyOp x f).extent = a.extent := by
  simp [extent, modifyOp]
@[simp] theorem extent_modifyBlock (x : BlockId) (f : Block → Block) :
    (a.modifyBlock x f).extent = a.extent := by simp [extent, modifyBlock]

theorem extent_foldl {α : Type} {step : Arena → α → Arena}
    (hstep : ∀ a x, (step a x).extent = a.extent) (l : List α) :
    (l.foldl step a).extent = a.extent := by
  induction l generalizing a with
  | nil => rfl
  | cons x l ih => exact (ih _).trans (hstep a x)

@[simp] theorem extent_replaceInOp (op : OpId) (old new : OperandId) :
    (a.replaceInOp op old new).extent = a.extent := by
  unfold replaceInOp
  split <;> simp

@[simp] theorem extent_replaceUses (old new : OperandId) :
    (a.replaceUses old new).extent = a.extent := by
  unfold replaceUses
  split
  · rfl
  · refine (extent_foldl _ (fun a block => ?_) _).trans
      ((extent_modifyOperand ..).trans (extent_foldl a (fun a op => extent_replaceInOp a op old new) _))
    simp [replaceGuard]

@[simp] theorem extent_removeOp (op : OpId) : (a.removeOp op).extent = a.extent := by
  unfold removeOp
  refine (extent_foldl _ (fun a _ => extent_modifyOperand a _ _) _).trans ?_
  split <;> simp

end Extent

/-! ## Folding -/

section Fold

variable {g : Graft} {a b : Arena}

theorem concatOf?_embeds (h : Embeds g a b) (ids : List OperandId) :
    b.concatOf? (ids.map g.operand) = a.concatOf? ids := by
  have hparts : (ids.map g.operand).mapM b.literalOf? = ids.mapM a.literalOf? := by
    induction ids with
    | nil => rfl
    | cons x ids ih => rw [List.map_cons, List.mapM_cons, List.mapM_cons, h.literalOf?, ih]
  rw [concatOf?, hparts]
  rfl

theorem evaluate?_embeds (h : Embeds g a b) (kind : OpKind) :
    b.evaluate? (kind.relabel g.toRelabel) = a.evaluate? kind := by
  cases kind <;> simp [evaluate?, OpKind.relabel, h.literalOf?, concatOf?_embeds h]

/-- An operation with the value and the result that were found is folded. -/
def foldTo (a : Arena) (op : OpId) (value : Scalar Float) (result : OperandId) : Arena :=
  ((a.newOperand (.scalar value)).2.replaceUses result (a.newOperand (.scalar value)).1).removeOp op

theorem foldOp?_eq (a : Arena) (op : OpId) : a.foldOp? op =
    (a.evaluate? (a.op op).kind).bind fun value =>
      (a.op op).kind.result?.map fun result => a.foldTo op value result := by
  rw [foldOp?]
  cases a.evaluate? (a.op op).kind with
  | none => rfl
  | some value => cases (a.op op).kind.result? <;> rfl

theorem Below.foldTo (a : Arena) (op : OpId) (value : Scalar Float) (result : OperandId) :
    a.Below (a.foldTo op value result) :=
  (newOperand a (.scalar value)).trans (.of_extent (by simp [Arena.foldTo]))

theorem Embeds.foldTo (h : Embeds g a b) (op : OpId) (value : Scalar Float) (result : OperandId)
    (hlimit : (a.foldTo op value result).Below g.limit) :
    Embeds g (a.foldTo op value result) (b.foldTo (g.op op) value (g.operand result)) := by
  obtain ⟨hnew, hpush⟩ := h.newOperand (.scalar value)
    (Below.trans (.of_extent (by simp [Arena.foldTo])) hlimit)
  have hfold := (hpush.replaceUses result (a.newOperand (.scalar value)).1).removeOp op
  rw [← hnew] at hfold
  exact hfold

/-- Both arenas fold an operation, or none does. -/
theorem foldOp?_embeds (h : Embeds g a b) (op : OpId) :
    (a.foldOp? op = none ∧ b.foldOp? (g.op op) = none) ∨ ∃ value result,
      a.foldOp? op = some (a.foldTo op value result) ∧
        b.foldOp? (g.op op) = some (b.foldTo (g.op op) value (g.operand result)) := by
  have hvalue : b.evaluate? (b.op (g.op op)).kind = a.evaluate? (a.op op).kind := by
    rw [h.op]
    exact evaluate?_embeds h _
  have hresult : (b.op (g.op op)).kind.result? = (a.op op).kind.result?.map g.operand := by
    rw [h.op]
    exact OpKind.result?_relabel ..
  rw [foldOp?_eq, foldOp?_eq, hvalue, hresult]
  cases a.evaluate? (a.op op).kind with
  | none => exact .inl ⟨rfl, rfl⟩
  | some value =>
    cases (a.op op).kind.result? with
    | none => exact .inl ⟨rfl, rfl⟩
    | some result => exact .inr ⟨value, result, rfl, rfl⟩

theorem Below.foldOps (a : Arena) (count : Nat) (ops : List OpId) :
    a.Below (a.foldOps count ops).2 := by
  induction ops generalizing a count with
  | nil => exact .refl a
  | cons op rest ih =>
    rw [Arena.foldOps, foldOp?_eq]
    cases a.evaluate? (a.op op).kind with
    | none => exact ih a count
    | some value =>
      cases (a.op op).kind.result? with
      | none => exact ih a count
      | some result => exact (Below.foldTo a op value result).trans (ih _ _)

theorem Embeds.foldOps (h : Embeds g a b) (count : Nat) (ops : List OpId)
    (hlimit : (a.foldOps count ops).2.Below g.limit) :
    (b.foldOps count (ops.map g.op)).1 = (a.foldOps count ops).1 ∧
      Embeds g (a.foldOps count ops).2 (b.foldOps count (ops.map g.op)).2 := by
  induction ops generalizing a b count with
  | nil => exact ⟨rfl, h⟩
  | cons op rest ih =>
    rw [List.map_cons]
    rcases foldOp?_embeds h op with ⟨hnone, hnone'⟩ | ⟨value, result, hsome, hsome'⟩
    · simp only [Arena.foldOps, hnone] at hlimit
      simp only [Arena.foldOps, hnone, hnone']
      exact ih h count hlimit
    · simp only [Arena.foldOps, hsome] at hlimit
      simp only [Arena.foldOps, hsome, hsome']
      exact ih (h.foldTo op value result ((Below.foldOps _ _ _).trans hlimit)) (count + 1) hlimit

theorem liveOps_embeds (h : Embeds g a b) (func : FuncId) :
    b.liveOps (g.func func) = (a.liveOps func).map g.op := by
  rw [liveOps, liveOps, h.blocks_func, List.filter_map, List.flatMap_map, List.map_flatMap]
  have hlive (block : BlockId) : (b.block (g.block block)).dead = (a.block block).dead := by
    rw [h.block]
    rfl
  simp only [Function.comp_def, hlive]
  refine List.flatMap_congr fun block _ => ?_
  rw [h.block]
  rfl

/-- The same number of operations more stand in blocks. -/
theorem placedOps_embeds (g : Graft) : ∃ besides, ∀ {a b : Arena}, Embeds g a b →
    b.placedOps = a.placedOps + besides := by
  obtain ⟨besides, hcount⟩ := Inlaid.countP (p := fun o : Op => o.block.isSome)
    g.ops_mono.injective (f := Op.relabel g.toRelabel) (fun o => Option.isSome_map) g.host.ops
  exact ⟨besides, fun h => hcount h.ops⟩

theorem placedOps_lt_iff {a₁ b₁ : Arena} (h : Embeds g a b) (h₁ : Embeds g a₁ b₁) :
    b₁.placedOps < b.placedOps ↔ a₁.placedOps < a.placedOps := by
  obtain ⟨besides, hcount⟩ := placedOps_embeds g
  rw [hcount h, hcount h₁]
  omega

/-- A function is folded in rounds. -/
theorem fold_eq (a : Arena) (func : FuncId) : a.fold func =
    let round := a.foldOps 0 (a.liveOps func)
    if round.1 = 0 then (0, round.2)
    else if round.2.placedOps < a.placedOps then
      (round.1 + (round.2.fold func).1, (round.2.fold func).2)
    else round := by
  rw [Arena.fold]

theorem Below.fold (a : Arena) (func : FuncId) : a.Below (a.fold func).2 := by
  induction hn : a.placedOps using Nat.strong_induction_on generalizing a with
  | _ n ih =>
    rw [fold_eq]
    dsimp only
    have hround := Below.foldOps a 0 (a.liveOps func)
    split
    · exact hround
    · split
      · rename_i hlt
        exact hround.trans (ih _ (hn ▸ hlt) _ rfl)
      · exact hround

theorem Embeds.fold (h : Embeds g a b) (func : FuncId) (hlimit : (a.fold func).2.Below g.limit) :
    (b.fold (g.func func)).1 = (a.fold func).1 ∧
      Embeds g (a.fold func).2 (b.fold (g.func func)).2 := by
  induction hn : a.placedOps using Nat.strong_induction_on generalizing a b with
  | _ n ih =>
    rw [fold_eq a] at hlimit ⊢
    rw [fold_eq b, liveOps_embeds h]
    dsimp only at hlimit ⊢
    have hbelow : (a.foldOps 0 (a.liveOps func)).2.Below g.limit := by
      revert hlimit
      split
      · exact id
      · split
        · exact (Below.fold _ func).trans
        · exact id
    obtain ⟨hcount, hround⟩ := h.foldOps 0 (a.liveOps func) hbelow
    have hguard := placedOps_lt_iff h hround
    revert hlimit
    rw [hcount]
    simp only [hguard]
    split
    · exact fun _ => ⟨rfl, hround⟩
    · split
      · rename_i hlt
        intro hlimit
        obtain ⟨hmore, hrest⟩ := ih _ (hn ▸ hlt) hround hlimit rfl
        exact ⟨by rw [hmore], hrest⟩
      · exact fun _ => ⟨hcount, hround⟩

/-! ## Places -/

/-- The operations of a block are told their places. -/
def installBlock (file : Option String) (made : Nat × Arena) (block : BlockId) : Nat × Arena :=
  let ops := (made.2.block block).phis ++ (made.2.block block).ops
  (made.1 + ops.length, ops.foldl (installOp file block) made.2)

theorem install_eq (a : Arena) (func : FuncId) :
    a.install func = (a.func func).blocks.foldl (installBlock (a.func func).file) (0, a) := rfl

theorem Below.install (a : Arena) (func : FuncId) : a.Below (a.install func).2 := by
  rw [install_eq]
  generalize (a.func func).file = file
  generalize 0 = count
  induction (a.func func).blocks generalizing a count with
  | nil => exact .refl a
  | cons block blocks ih =>
    exact (of_extent (extent_foldl a (fun a op => extent_modifyOp a op _) _)).trans (ih _ _)

theorem Embeds.installBlocks (h : Embeds g a b) (file : Option String) (count : Nat)
    (blocks : List BlockId) :
    (((blocks.map g.block).foldl (installBlock file) (count, b))).1 =
        (blocks.foldl (installBlock file) (count, a)).1 ∧
      Embeds g (blocks.foldl (installBlock file) (count, a)).2
        ((blocks.map g.block).foldl (installBlock file) (count, b)).2 := by
  induction blocks generalizing a b count with
  | nil => exact ⟨rfl, h⟩
  | cons block blocks ih =>
    rw [List.map_cons, List.foldl_cons, List.foldl_cons]
    have hops : (b.block (g.block block)).phis ++ (b.block (g.block block)).ops =
        ((a.block block).phis ++ (a.block block).ops).map g.op := by
      rw [h.block, List.map_append]
      rfl
    have hinstall : Embeds g
        (((a.block block).phis ++ (a.block block).ops).foldl (installOp file block) a)
        ((((a.block block).phis ++ (a.block block).ops).map g.op).foldl
          (installOp file (g.block block)) b) :=
      h.foldl (fun _ _ op h => by
        unfold installOp
        exact h.modifyOp op fun _ => rfl) _
    rw [installBlock, installBlock, hops, List.length_map]
    exact ih hinstall _

theorem Embeds.install (h : Embeds g a b) (func : FuncId) :
    (b.install (g.func func)).1 = (a.install func).1 ∧
      Embeds g (a.install func).2 (b.install (g.func func)).2 := by
  have hfile : (b.func (g.func func)).file = (a.func func).file := by
    obtain ⟨entry, hf⟩ := h.exists_func func
    rw [hf]
    rfl
  rw [install_eq, install_eq, h.blocks_func, hfile]
  exact h.installBlocks _ 0 _

theorem Below.optimize (a : Arena) (func : FuncId) : a.Below (a.optimize func).2 :=
  (install a func).trans (fold _ func)

/-- Folding a function does the same in different arenas. -/
theorem Embeds.optimize (h : Embeds g a b) (func : FuncId)
    (hlimit : (a.optimize func).2.Below g.limit) :
    Embeds g (a.optimize func).2 (b.optimize (g.func func)).2 :=
  ((h.install func).2.fold func hlimit).2

end Fold

end Arena

end QueryTaint
