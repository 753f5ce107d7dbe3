import QueryTaint.Proofs.Origin.Adjoin
import QueryTaint.Proofs.Simplify.Shape

/-!
# Folding and simplifying keep entries at home

Let every entry have a home, such that entries mention entries of the same home only
(`Arena.Sorted`). Folding and simplifying write into an entry only what has the same home, and a
constant that is made has the home of the operation that it stands for (`Arena.Rehouses`). They make
no call and no input, and leave the functions as they are.
-/

namespace QueryTaint

namespace OpKind

@[simp] theorem operands_mapOperands (f : OperandId → OperandId) (kind : OpKind) :
    (kind.mapOperands f).operands = kind.operands.map f := by
  simp only [operands, slots_mapOperands, List.map_map, Function.comp_def]

theorem mem_operands_of_result? {kind : OpKind} {x : OperandId} (h : kind.result? = some x) :
    x ∈ kind.operands := by
  obtain ⟨e, he, rfl⟩ := Option.map_eq_some_iff.1 h
  exact List.mem_map_of_mem (List.mem_of_find?_eq_some he)

@[simp] theorem blocks_mapOperands (f : OperandId → OperandId) (kind : OpKind) :
    (kind.mapOperands f).blocks = kind.blocks := by
  cases kind <;> rfl

@[simp] theorem func?_mapOperands (f : OperandId → OperandId) (kind : OpKind) :
    (kind.mapOperands f).func? = kind.func? := by
  cases kind <;> rfl

@[simp] theorem isListedCall_mapOperands (f : OperandId → OperandId) (kind : OpKind) :
    (kind.mapOperands f).isListedCall = kind.isListedCall := by
  cases kind <;> rfl

@[simp] theorem blocks_mapBlocks (f : BlockId → BlockId) (kind : OpKind) :
    (kind.mapBlocks f).blocks = kind.blocks.map f := by
  cases kind <;> simp [mapBlocks, Option.toList_map, Function.comp_def]

@[simp] theorem func?_mapBlocks (f : BlockId → BlockId) (kind : OpKind) :
    (kind.mapBlocks f).func? = kind.func? := by
  cases kind <;> rfl

@[simp] theorem isListedCall_mapBlocks (f : BlockId → BlockId) (kind : OpKind) :
    (kind.mapBlocks f).isListedCall = kind.isListedCall := by
  cases kind <;> rfl

end OpKind

namespace Arena

/-- The entries that have the same home as one of them. -/
def house (a : Arena) (home : Entry → Option Nat) (e : Entry) : Set Entry :=
  {e' | home e' = home e} ∩ a.entries

/-- Entries mention entries of the same home only. -/
def Sorted (home : Entry → Option Nat) (a : Arena) : Prop :=
  ∀ e ∈ a.entries, a.Within (a.house home e) e

variable {a a' a'' : Arena} {home : Entry → Option Nat}

namespace Sorted

theorem closed (h : a.Sorted home) (l : Option Nat) : a.Closed {e | home e = l} :=
  fun e he hin => (h e hin).mono (by rw [house, he])

theorem of_closed (h : ∀ l, a.Closed {e | home e = l}) : a.Sorted home :=
  fun e he => h (home e) e rfl he

theorem modifyOperand (h : a.Sorted home) {id : OperandId} {f : Operand → Operand}
    (hf : .operand id ∈ a.entries → (a.operand id).Within (a.house home (.operand id)) →
      (f (a.operand id)).Within (a.house home (.operand id))) :
    (a.modifyOperand id f).Sorted home :=
  of_closed fun l => (h.closed l).modifyOperand fun hid hold => by
    obtain rfl : home (.operand id) = l := hid.1
    exact hf hid.2 hold

theorem modifyOp (h : a.Sorted home) {id : OpId} {f : Op → Op}
    (hf : .op id ∈ a.entries → (a.op id).kind.Within (a.house home (.op id)) →
      (f (a.op id)).kind.Within (a.house home (.op id))) : (a.modifyOp id f).Sorted home :=
  of_closed fun l => (h.closed l).modifyOp fun hid hold => by
    obtain rfl : home (.op id) = l := hid.1
    exact hf hid.2 hold

theorem modifyBlock (h : a.Sorted home) {id : BlockId} {f : Block → Block}
    (hf : .block id ∈ a.entries → (a.block id).Within (a.house home (.block id)) →
      (f (a.block id)).Within (a.house home (.block id))) : (a.modifyBlock id f).Sorted home :=
  of_closed fun l => (h.closed l).modifyBlock fun hid hold => by
    obtain rfl : home (.block id) = l := hid.1
    exact hf hid.2 hold

end Sorted

/-! ## Replacing operands -/

theorem house_congr {e e' : Entry} (h : e' ∈ a.house home e) : a.house home e' = a.house home e := by
  rw [house, house, show home e' = home e from h.1]

@[simp] theorem house_modifyOperand (id : OperandId) (f : Operand → Operand) (e : Entry) :
    (a.modifyOperand id f).house home e = a.house home e := by simp [house]
@[simp] theorem house_modifyOp (id : OpId) (f : Op → Op) (e : Entry) :
    (a.modifyOp id f).house home e = a.house home e := by simp [house]
@[simp] theorem house_modifyBlock (id : BlockId) (f : Block → Block) (e : Entry) :
    (a.modifyBlock id f).house home e = a.house home e := by simp [house]

theorem entries_replaceInOp (a : Arena) (op : OpId) (old new : OperandId) :
    (a.replaceInOp op old new).entries = a.entries := by
  unfold replaceInOp
  split
  · rfl
  · simp

theorem Mild.replaceInOp (a : Arena) (op : OpId) (old new : OperandId) :
    a.Mild (a.replaceInOp op old new) := by
  unfold Arena.replaceInOp
  split
  · exact .refl a
  · dsimp only
    refine ((Mild.modifyOp a op fun h => ?_).trans (.modifyOperand _ old fun _ h => ?_)).trans
      (.modifyOperand _ new fun o h => ?_)
    · exact (OpKind.isListedCall_mapOperands ..).symm.trans h
    · exact h
    · split at h <;> split at h <;> exact h

/-- An operand loses an operation from its lists. -/
theorem forget_within {S : Set Entry} {o : Operand} (h : o.Within S) (op : OpId) :
    ((o.removeUsage op).removeDef op).Within S :=
  ⟨h.links, fun o ho => h.defs o (List.mem_filter.1 ho).1,
    fun o ho => h.usages o (List.mem_filter.1 ho).1, h.assertions⟩

theorem Sorted.replaceInOp (h : a.Sorted home) {op : OpId} {old new : OperandId}
    (hop : .op op ∈ a.entries) (hnew : .operand new ∈ a.house home (.op op)) :
    (a.replaceInOp op old new).Sorted home := by
  unfold Arena.replaceInOp
  split
  · exact h
  · refine ((h.modifyOp fun _ hold => ?_).modifyOperand
      fun _ hold => forget_within hold op).modifyOperand fun _ hold => ?_
    · refine ⟨fun x hx => ?_, fun b hb => ?_, fun f hf => ?_⟩
      rotate_left
      · exact hold.2.1 b (by rwa [OpKind.blocks_mapOperands] at hb)
      · exact hold.2.2 f (by rwa [OpKind.func?_mapOperands] at hf)
      rw [OpKind.operands_mapOperands] at hx
      obtain ⟨y, hy, rfl⟩ := List.mem_map.1 hx
      split
      · exact hnew
      · exact hold.1 y hy
    · have hop : .op op ∈ a.house home (.operand new) := ⟨hnew.1.symm, hop⟩
      simp only [house_modifyOperand, house_modifyOp] at hold ⊢
      have hdef {o : Operand} (ho : o.Within (a.house home (.operand new))) :
          (o.addDef op).Within (a.house home (.operand new)) :=
        ⟨ho.links, fun o' ho' => (mem_addNew.1 ho').elim (ho.defs o') fun heq => heq ▸ hop,
          ho.usages, ho.assertions⟩
      have husage {o : Operand} (ho : o.Within (a.house home (.operand new))) :
          (o.addUsage op).Within (a.house home (.operand new)) :=
        ⟨ho.links, ho.defs, fun o' ho' => (mem_addNew.1 ho').elim (ho.usages o') fun heq =>
          heq ▸ hop, ho.assertions⟩
      split
      · split
        · exact husage (hdef hold)
        · exact husage hold
      · split
        · exact hdef hold
        · exact hold

theorem Mild.foldl {β : Type} {f : Arena → β → Arena} (hf : ∀ (a : Arena) x, a.Mild (f a x))
    (l : List β) (a : Arena) : a.Mild (l.foldl f a) := by
  induction l generalizing a with
  | nil => exact .refl a
  | cons x l ih => exact (hf a x).trans (ih _)

/-- Steps that keep the entries and their homes, one after the other. -/
theorem Sorted.foldl {β : Type} {f : Arena → β → Arena} (hentries : ∀ a x, (f a x).entries = a.entries)
    {l : List β} (h : a.Sorted home)
    (hf : ∀ a' x, x ∈ l → a'.entries = a.entries → a'.Sorted home → (f a' x).Sorted home) :
    (l.foldl f a).Sorted home := by
  induction l generalizing a with
  | nil => exact h
  | cons x l ih =>
    refine ih (hf a x List.mem_cons_self rfl h) fun a' y hy ha' => ?_
    exact hf a' y (List.mem_cons_of_mem _ hy) (ha'.trans (hentries a x))

theorem entries_replaceGuard (old new : OperandId) (a : Arena) (block : BlockId) :
    (replaceGuard old new a block).entries = a.entries := by
  simp [replaceGuard]

theorem Mild.replaceGuard (old new : OperandId) (a : Arena) (block : BlockId) :
    a.Mild (replaceGuard old new a block) := by
  unfold Arena.replaceGuard
  exact (Mild.modifyBlock a block _).trans (.modifyOperand _ new fun _ h => h)

theorem Sorted.replaceGuard (h : a.Sorted home) (old new : OperandId) (block : BlockId) :
    (replaceGuard old new a block).Sorted home := by
  unfold Arena.replaceGuard
  refine (h.modifyBlock fun _ hb => ?_).modifyOperand fun _ ho => ?_
  · exact ⟨hb.ops, hb.phis, hb.preds⟩
  · exact ⟨ho.links, ho.defs, ho.usages, ho.assertions⟩

theorem Mild.replaceUses (a : Arena) (old new : OperandId) : a.Mild (a.replaceUses old new) := by
  unfold Arena.replaceUses
  split
  · exact .refl a
  · refine ((Mild.foldl (fun a op => .replaceInOp a op old new) _ a).trans
      (.modifyOperand _ old fun _ h => ?_)).trans (.foldl (.replaceGuard old new) _ _)
    exact h

theorem Sorted.replaceUses (h : a.Sorted home) {old new : OperandId} (hold : .operand old ∈ a.entries)
    (hnew : .operand new ∈ a.house home (.operand old)) : (a.replaceUses old new).Sorted home := by
  unfold Arena.replaceUses
  split
  · exact h
  · have hops : ((a.operand old).usages.foldl (fun a op => a.replaceInOp op old new) a).Sorted
        home := by
      refine h.foldl (fun a op => entries_replaceInOp a op old new) fun a' op hop ha' hsorted => ?_
      obtain ⟨hhome, hin⟩ := (h _ hold).usages op hop
      exact hsorted.replaceInOp (ha' ▸ hin) ⟨hnew.1.trans hhome.symm, ha' ▸ hnew.2⟩
    refine Sorted.foldl (entries_replaceGuard old new) (hops.modifyOperand fun _ ho => ?_)
      fun _ block _ _ hsorted => hsorted.replaceGuard old new block
    exact ⟨ho.links, ho.defs, ho.usages, ho.assertions⟩

theorem Mild.removeOp (a : Arena) (op : OpId) : a.Mild (a.removeOp op) := by
  have hforget (a : Arena) (slots : List (Slot × OperandId)) : a.Mild (slots.foldl
      (fun a e => a.modifyOperand e.2 fun o => (o.removeUsage op).removeDef op) a) := by
    refine .foldl (fun a e => ?_) slots a
    exact .modifyOperand a e.2 fun _ h => h
  unfold Arena.removeOp
  dsimp only
  split
  · exact ((Mild.modifyBlock a _ _).trans (.modifyOp _ op id)).trans (hforget _ _)
  · exact hforget a _

theorem Sorted.removeOp (h : a.Sorted home) (op : OpId) : (a.removeOp op).Sorted home := by
  have hforget {a : Arena} (h : a.Sorted home) (slots : List (Slot × OperandId)) : (slots.foldl
      (fun a e => a.modifyOperand e.2 fun o => (o.removeUsage op).removeDef op) a).Sorted
      home := by
    refine h.foldl (fun a e => ?_) fun a' e _ _ hsorted => ?_
    · exact entries_modifyOperand a e.2 _
    · exact hsorted.modifyOperand fun _ ho => forget_within ho op
  unfold Arena.removeOp
  dsimp only
  split
  · refine hforget ?_ _
    refine Sorted.modifyOp ?_ fun _ ho => ho
    refine h.modifyBlock fun _ hb => ⟨fun o ho => ?_, fun o ho => ?_, hb.preds⟩
    · exact hb.ops o (List.mem_filter.1 ho).1
    · exact hb.phis o (List.mem_filter.1 ho).1
  · exact hforget h _

/-! ## Steps that keep homes -/

/-- A change makes no input, call or function, and entries that are there keep their homes: those that
are new have one of these. -/
structure Rehouses (a a' : Arena) : Prop where
  mild : a.Mild a'
  sorted : ∀ home, a.Sorted home → ∃ home', Set.EqOn home' home a.entries ∧ a'.Sorted home'

namespace Rehouses

theorem of_sorted (hmild : a.Mild a') (h : ∀ home, a.Sorted home → a'.Sorted home) :
    Rehouses a a' :=
  ⟨hmild, fun home hsorted => ⟨home, fun _ _ => rfl, h home hsorted⟩⟩

theorem refl (a : Arena) : Rehouses a a := of_sorted (.refl a) fun _ h => h

theorem trans (h : Rehouses a a') (h' : Rehouses a' a'') : Rehouses a a'' where
  mild := h.mild.trans h'.mild
  sorted home hsorted := by
    obtain ⟨home₁, heq₁, hsorted₁⟩ := h.sorted home hsorted
    obtain ⟨home₂, heq₂, hsorted₂⟩ := h'.sorted home₁ hsorted₁
    exact ⟨home₂, fun e he => (heq₂ (h.mild.entries he)).trans (heq₁ he), hsorted₂⟩

/-! ### Folding constants -/

/-- A constant is at home where the operation is that it stands for. -/
theorem newConstant (h : a.Sorted home) (value : Scalar Float) (op : OpId) :
    let home' := Function.update home (.operand ⟨a.operands.size⟩) (home (.op op))
    Set.EqOn home' home a.entries ∧ (a.newOperand (.scalar value)).2.Sorted home' := by
  intro home'
  have heq : Set.EqOn home' home a.entries := fun e he => Function.update_of_ne (by
    rintro rfl
    exact Nat.lt_irrefl _ he) _ _
  refine ⟨heq, .of_closed fun l => Closed.newOperand (fun e he hin => ?_) fun _ _ hx => by cases hx⟩
  refine Within.mono ?_ (h e hin)
  rintro e' ⟨hhome, hin'⟩
  refine ⟨?_, hin'⟩
  calc home' e' = home e' := heq hin'
    _ = home e := hhome
    _ = home' e := (heq hin).symm
    _ = l := he

theorem op_mem_of_evaluate? {op : OpId} {value : Scalar Float}
    (h : a.evaluate? (a.op op).kind = some value) : .op op ∈ a.entries := by
  by_contra hop
  rw [op_of_le a (Nat.le_of_not_lt hop)] at h
  cases h

theorem foldOp? {op : OpId} (h : a.foldOp? op = some a') : Rehouses a a' := by
  obtain ⟨value, hvalue, h⟩ := Option.bind_eq_some_iff.1 h
  obtain ⟨result, hresult, h⟩ := Option.bind_eq_some_iff.1 h
  obtain rfl := Option.some.inj h
  refine ⟨((Mild.newOperand a rfl).trans (.replaceUses _ _ _)).trans (.removeOp _ _),
    fun home hsorted => ?_⟩
  obtain ⟨heq, hnew⟩ := newConstant hsorted value op
  have hop := op_mem_of_evaluate? hvalue
  have hres := (hsorted _ hop).1 result (OpKind.mem_operands_of_result? hresult)
  have hentries := entries_newOperand a (.scalar value)
  refine ⟨_, heq, (hnew.replaceUses (hentries hres.2) ⟨?_, ?_⟩).removeOp op⟩
  · exact (Function.update_self ..).trans (hres.1.symm.trans (heq hres.2).symm)
  · simp [newOperand]

/-! ### Removing φ operations -/

theorem operands_of_trivialPhi? {phi : OpId} {value result : OperandId}
    (h : a.trivialPhi? phi = some (some value, result)) :
    .op phi ∈ a.entries ∧ result ∈ (a.op phi).kind.operands ∧ value ∈ (a.op phi).kind.operands := by
  obtain ⟨vars, hkind, hvalue⟩ := vars_of_trivialPhi? h
  have hphi : .op phi ∈ a.entries := by
    by_contra hphi
    rw [op_of_le a (Nat.le_of_not_lt hphi)] at hkind
    cases hkind
  rw [hkind, OpKind.operands_phi]
  exact ⟨hphi, by simp, by simp [hvalue]⟩

theorem removePhi {phi : OpId} {value : Option OperandId} {result : OperandId}
    (h : a.trivialPhi? phi = some (value, result)) : Rehouses a (a.removePhi phi value result) := by
  unfold Arena.removePhi
  have hremoved : Rehouses a (a.removeOp phi) := of_sorted (.removeOp a phi) fun _ h => h.removeOp phi
  cases value with
  | none => exact hremoved
  | some value =>
    refine of_sorted ((Mild.removeOp a phi).trans (.replaceUses _ _ _)) fun home hsorted => ?_
    obtain ⟨hphi, hresult, hvalue⟩ := operands_of_trivialPhi? h
    obtain ⟨hhome, hin⟩ := (hsorted _ hphi).1 result hresult
    obtain ⟨hhome', hin'⟩ := (hsorted _ hphi).1 value hvalue
    have hentries := (Mild.removeOp a phi).entries
    exact (hsorted.removeOp phi).replaceUses (hentries hin)
      ⟨hhome'.trans hhome.symm, hentries hin'⟩

/-! ### Bypassing blocks -/

theorem bypass {block target pred : BlockId} {jump last : OpId}
    (s : a.Skippable block target pred jump last) : Rehouses a (a.bypass block target pred last) := by
  have hturn : Rehouses a ((a.modifyOp last fun o => { o with
      kind := o.kind.mapBlocks (swap block target) }).modifyBlock target fun b =>
        { b with preds := b.preds.map (swap block pred) }) := by
    refine of_sorted ((Mild.modifyOp a last fun h => ?_).trans (.modifyBlock _ _ _))
      fun home hsorted => ?_
    · exact (OpKind.isListedCall_mapBlocks ..).symm.trans h
    -- all of them have the home of the block that is bypassed
    have hblock : .block block ∈ a.entries := block_lt_of_op s.mem_ops
    have hjump := (hsorted _ hblock).ops jump s.mem_ops
    have ht := (hsorted _ hjump.2).2.1 target (by rw [s.kind]; simp)
    have hpred := (hsorted _ hblock).preds pred s.mem_preds
    have hlast := (hsorted _ hpred.2).ops last
      (List.mem_of_getLast? (Option.filter_eq_some_iff.1 s.terminator).1)
    have htarget : .block target ∈ a.house home (.op last) :=
      ⟨(ht.1.trans hjump.1).trans (hlast.1.trans hpred.1).symm, ht.2⟩
    have hpredTarget : .block pred ∈ a.house home (.block target) :=
      ⟨hpred.1.trans (ht.1.trans hjump.1).symm, hpred.2⟩
    refine (hsorted.modifyOp fun _ hold => ⟨fun x hx => ?_, fun b hb => ?_, fun f hf => ?_⟩).modifyBlock
      fun _ hold => ⟨hold.ops, hold.phis, fun b hb => ?_⟩
    · exact hold.1 x (by rwa [OpKind.operands, OpKind.slots_mapBlocks] at hx)
    · rw [OpKind.blocks_mapBlocks] at hb
      obtain ⟨b, hmem, rfl⟩ := List.mem_map.1 hb
      rw [swap]
      split
      · exact htarget
      · exact hold.2.1 b hmem
    · exact hold.2.2 f (by rwa [OpKind.func?_mapBlocks] at hf)
    · obtain ⟨b, hmem, rfl⟩ := List.mem_map.1 hb
      rw [house_modifyOp] at hold ⊢
      rw [swap]
      split
      · exact hpredTarget
      · exact hold.preds b hmem
  unfold Arena.bypass
  dsimp only
  refine (hturn.trans ?_).trans (of_sorted (.modifyBlock _ _ _) fun home hsorted => ?_)
  · split
    · exact of_sorted (.removeOp _ _) fun _ h => h.removeOp _
    · exact .refl _
  · exact hsorted.modifyBlock fun _ hold =>
      ⟨hold.ops, hold.phis, fun b hb => hold.preds b (List.mem_filter.1 hb).1⟩

/-! ### All functions -/

theorem enduring (a : Arena) : Enduring (Rehouses a) where
  install {a'} file block op _ h := by
    refine h.trans (of_sorted (.modifyOp a' op id) fun home hsorted => ?_)
    exact hsorted.modifyOp fun _ ho => ho
  fold hfold h := h.trans (foldOp? hfold)
  remove htrivial h := h.trans (removePhi htrivial)
  bypass s h := h.trans (bypass s)

theorem optimizeAll (a : Arena) (funcs : List FuncId) : Rehouses a (a.optimizeAll funcs).2 :=
  (enduring a).optimizeAll (.refl a) funcs

theorem simplifyAll (a : Arena) (funcs : List FuncId) : Rehouses a (a.simplifyAll funcs).2 :=
  (enduring a).simplifyAll (.refl a) funcs

end Rehouses

end Arena

end QueryTaint
