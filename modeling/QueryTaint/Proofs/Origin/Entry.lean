import Mathlib.Data.Set.Insert
import QueryTaint.Proofs.Arena.DefUse

/-!
# Entries that mention each other

Operands, operations, blocks and functions mention each other by their numbers. A set of entries is
closed in an arena (`Arena.Closed`) if what its entries mention is there and in the set too. Each
change of an arena keeps a set closed, given that what it writes down in an entry of the set is in
the set.

`Arena.Mild` says of a change that it makes no new function, input or call, and that functions that
are there keep their names, their calls and the mark that they read an input.
-/

namespace QueryTaint

/-- The number of something in an arena. -/
inductive Entry where
  | operand (id : OperandId)
  | op (id : OpId)
  | block (id : BlockId)
  | func (id : FuncId)
deriving DecidableEq

/-! ## What an entry mentions -/

/-- The operands that an operand is made from: its name and its value, or the variable that it is a
version of. -/
def OperandKind.links : OperandKind → List OperandId
  | .variable name value | .bound name value _ _ => name :: value.toList
  | .temporary owner => owner.toList
  | _ => []

/-- Whether an operand is an input. -/
def OperandKind.isInput : OperandKind → Bool
  | .symbolic _ => true
  | _ => false

/-- What an operand mentions is in a set. -/
structure Operand.Within (S : Set Entry) (o : Operand) : Prop where
  links : ∀ x ∈ o.kind.links, .operand x ∈ S
  defs : ∀ op ∈ o.defs, .op op ∈ S
  usages : ∀ op ∈ o.usages, .op op ∈ S
  assertions : ∀ s ∈ o.assertions, .operand s.var ∈ S

namespace OpKind

/-- The operands of an operation. -/
@[simp] def operands (kind : OpKind) : List OperandId := kind.slots.map (·.2)

theorem mem_operands_of_mem_operandList {kind : OpKind} {field : Field} {x : OperandId}
    (h : x ∈ kind.operandList field) : x ∈ kind.operands :=
  (List.filter_sublist.map _).subset h

theorem mem_operands_of_mem_reads {kind : OpKind} {x : OperandId} (h : x ∈ kind.reads) :
    x ∈ kind.operands :=
  (List.filter_sublist.map _).subset h

/-- The blocks that an operation names. -/
@[simp] def blocks (kind : OpKind) : List BlockId := kind.subBlocks.map (·.2)

/-- The function of a closure. -/
@[simp] def func? : OpKind → Option FuncId
  | .closure func .. => some func
  | _ => none

/-- Whether an operation is among the calls that its function lists. -/
def isListedCall : OpKind → Bool
  | .functionCall .. | .methodCall .. | .staticCall .. => true
  | _ => false

@[simp] theorem map_snd_one (field : Field) (id : OperandId) :
    (one field id).map (·.2) = [id] := rfl

@[simp] theorem map_snd_optional (field : Field) (id : Option OperandId) :
    (optional field id).map (·.2) = id.toList := by
  cases id <;> rfl

attribute [simp] map_snd_many slots subBlocks

@[simp] theorem operands_phi (vars : List OperandId) (result : OperandId) :
    (phi vars result).operands = vars ++ [result] := by
  simp

/-- What an operation mentions is in a set. -/
@[simp] def Within (S : Set Entry) (kind : OpKind) : Prop :=
  (∀ x ∈ kind.operands, .operand x ∈ S) ∧ (∀ b ∈ kind.blocks, .block b ∈ S) ∧
    ∀ f ∈ kind.func?, .func f ∈ S

end OpKind

/-- What a block mentions is in a set. -/
structure Block.Within (S : Set Entry) (b : Block) : Prop where
  ops : ∀ op ∈ b.ops, .op op ∈ S
  phis : ∀ phi ∈ b.phis, .op phi ∈ S
  preds : ∀ pred ∈ b.preds, .block pred ∈ S

/-- What a function mentions is in a set. -/
structure Func.Within (S : Set Entry) (f : Func) : Prop where
  entry : .block f.entry ∈ S
  params : ∀ op ∈ f.params, .op op ∈ S
  callable : ∀ op ∈ f.callable, .op op ∈ S

/-- What a function is known for stays: its name, that it reads an input, and its calls. -/
structure Func.Grown (f f' : Func) : Prop where
  scopedName : f'.scopedName = f.scopedName
  readsInput : f.readsInput = true → f'.readsInput = true
  calls : f.calls ⊆ f'.calls

theorem Func.Grown.refl (f : Func) : f.Grown f := ⟨rfl, id, List.Subset.refl _⟩

theorem Func.Grown.trans {f f' f'' : Func} (h : f.Grown f') (h' : f'.Grown f'') : f.Grown f'' :=
  ⟨h'.scopedName.trans h.scopedName, fun hf => h'.readsInput (h.readsInput hf),
    List.Subset.trans h.calls h'.calls⟩

@[simp] theorem Operand.assertions_note (o : Operand) (op : OpId) (wrote read : Bool) :
    (o.note op wrote read).assertions = o.assertions := by
  cases wrote <;> cases read <;> rfl

section Mono

variable {S T : Set Entry}

theorem Operand.Within.mono (h : S ⊆ T) {o : Operand} (ho : o.Within S) : o.Within T :=
  ⟨fun x hx => h (ho.links x hx), fun op hop => h (ho.defs op hop),
    fun op hop => h (ho.usages op hop), fun s hs => h (ho.assertions s hs)⟩

theorem OpKind.Within.mono (h : S ⊆ T) {kind : OpKind} (hk : kind.Within S) : kind.Within T :=
  ⟨fun x hx => h (hk.1 x hx), fun b hb => h (hk.2.1 b hb), fun f hf => h (hk.2.2 f hf)⟩

theorem Block.Within.mono (h : S ⊆ T) {b : Block} (hb : b.Within S) : b.Within T :=
  ⟨fun op hop => h (hb.ops op hop), fun phi hphi => h (hb.phis phi hphi),
    fun pred hpred => h (hb.preds pred hpred)⟩

theorem Func.Within.mono (h : S ⊆ T) {f : Func} (hf : f.Within S) : f.Within T :=
  ⟨h hf.entry, fun op hop => h (hf.params op hop), fun op hop => h (hf.callable op hop)⟩

end Mono

namespace Arena

/-- The entries that there are. -/
def entries (a : Arena) : Set Entry :=
  {e | match e with
    | .operand id => id.index < a.operands.size
    | .op id => id.index < a.ops.size
    | .block id => id.index < a.blocks.size
    | .func id => id.index < a.funcs.size}

/-- What an entry mentions is in a set. -/
def Within (a : Arena) (S : Set Entry) : Entry → Prop
  | .operand id => (a.operand id).Within S
  | .op id => (a.op id).kind.Within S
  | .block id => (a.block id).Within S
  | .func id => (a.func id).Within S

/-- An entry is the same in two arenas. -/
def Same (a a' : Arena) : Entry → Prop
  | .operand id => a'.operand id = a.operand id
  | .op id => a'.op id = a.op id
  | .block id => a'.block id = a.block id
  | .func id => a'.func id = a.func id

/-- What the entries of a set mention is there and in the set. -/
def Closed (a : Arena) (S : Set Entry) : Prop := ∀ e ∈ S, e ∈ a.entries → a.Within (S ∩ a.entries) e

variable {a a' a'' : Arena} {S T : Set Entry} {e : Entry}

@[simp] theorem operand_mem_entries {id : OperandId} :
    .operand id ∈ a.entries ↔ id.index < a.operands.size := Iff.rfl
@[simp] theorem op_mem_entries {id : OpId} : .op id ∈ a.entries ↔ id.index < a.ops.size := Iff.rfl
@[simp] theorem block_mem_entries {id : BlockId} :
    .block id ∈ a.entries ↔ id.index < a.blocks.size := Iff.rfl
@[simp] theorem func_mem_entries {id : FuncId} :
    .func id ∈ a.entries ↔ id.index < a.funcs.size := Iff.rfl

theorem entries_subset (hoperands : a.operands.size ≤ a'.operands.size)
    (hops : a.ops.size ≤ a'.ops.size) (hblocks : a.blocks.size ≤ a'.blocks.size)
    (hfuncs : a.funcs.size ≤ a'.funcs.size) : a.entries ⊆ a'.entries := by
  rintro (id | id | id | id) h
  · exact Nat.lt_of_lt_of_le h hoperands
  · exact Nat.lt_of_lt_of_le h hops
  · exact Nat.lt_of_lt_of_le h hblocks
  · exact Nat.lt_of_lt_of_le h hfuncs

theorem entries_congr (hoperands : a'.operands.size = a.operands.size)
    (hops : a'.ops.size = a.ops.size) (hblocks : a'.blocks.size = a.blocks.size)
    (hfuncs : a'.funcs.size = a.funcs.size) : a'.entries = a.entries :=
  Set.Subset.antisymm
    (entries_subset hoperands.le hops.le hblocks.le hfuncs.le)
    (entries_subset hoperands.ge hops.ge hblocks.ge hfuncs.ge)

theorem Within.mono (h : S ⊆ T) : ∀ {e : Entry}, a.Within S e → a.Within T e
  | .operand _, he => Operand.Within.mono h he
  | .op _, he => OpKind.Within.mono h he
  | .block _, he => Block.Within.mono h he
  | .func _, he => Func.Within.mono h he

theorem Same.within (h : a.Same a' e) (he : a.Within S e) : a'.Within S e := by
  cases e <;> simp only [Same] at h <;> simp only [Within, h] <;> exact he

theorem Same.refl (a : Arena) (e : Entry) : a.Same a e := by cases e <;> rfl

theorem Same.trans (h : a.Same a' e) (h' : a'.Same a'' e) : a.Same a'' e := by
  cases e <;> exact Eq.trans h' h

/-- A change of some entries keeps a set closed if what the changed ones mention is in the set. -/
theorem Closed.change (h : a.Closed S) (hentries : a.entries ⊆ a'.entries)
    (hsame : ∀ e ∈ S, e ∈ a'.entries →
      a.Same a' e ∧ e ∈ a.entries ∨ a'.Within (S ∩ a'.entries) e) : a'.Closed S := by
  intro e he hin
  rcases hsame e he hin with ⟨hsame, hold⟩ | hwithin
  · exact (hsame.within (h e he hold)).mono (Set.inter_subset_inter_right S hentries)
  · exact hwithin

/-! ## Entries that are there -/

theorem operand_mem_of_isInput {x : OperandId} (h : (a.operand x).kind.isInput = true) :
    .operand x ∈ a.entries := by
  by_contra hx
  rw [operand_of_le a (Nat.le_of_not_lt hx)] at h
  cases h

theorem op_mem_of_isListedCall {op : OpId} (h : (a.op op).kind.isListedCall = true) :
    .op op ∈ a.entries := by
  by_contra hop
  rw [op_of_le a (Nat.le_of_not_lt hop)] at h
  cases h

/-! ## What operands stand for -/

theorem mem_links_of_linkOf? {id next : OperandId} (h : a.linkOf? id = some next) :
    next ∈ (a.operand id).kind.links := by
  unfold linkOf? at h
  split at h <;> simp_all [OperandKind.links]

/-- What an operand stands for is found through links. -/
theorem valueWithin_mem
    (h : ∀ x, .operand x ∈ S → ∀ y ∈ (a.operand x).kind.links, .operand y ∈ S) (steps : Nat)
    {id : OperandId} (hid : .operand id ∈ S) : .operand (a.valueWithin steps id) ∈ S := by
  induction steps generalizing id with
  | zero => exact hid
  | succ steps ih =>
    rw [valueWithin]
    split
    · rename_i next hlink
      exact ih (h id hid next (mem_links_of_linkOf? hlink))
    · exact hid

theorem valueOf_mem (h : ∀ e ∈ S, a.Within S e) {id : OperandId} (hid : .operand id ∈ S) :
    .operand (a.valueOf id) ∈ S :=
  valueWithin_mem (fun _ hx => (h _ hx).links) maxChain hid

/-! ## Changed entries -/

theorem func_modifyFunc (a : Arena) (i j : FuncId) (f : Func → Func) :
    (a.modifyFunc i f).func j =
      if i = j ∧ j.index < a.funcs.size then f (a.func j) else a.func j := by
  have hext : i.index = j.index ↔ i = j := by
    cases i
    cases j
    simp
  simp only [func, modifyFunc, getD_modify, hext]

@[simp] theorem entries_modifyOperand (a : Arena) (id : OperandId) (f : Operand → Operand) :
    (a.modifyOperand id f).entries = a.entries := entries_congr (by simp) rfl rfl rfl
@[simp] theorem entries_modifyOp (a : Arena) (id : OpId) (f : Op → Op) :
    (a.modifyOp id f).entries = a.entries := entries_congr rfl (by simp) rfl rfl
@[simp] theorem entries_modifyBlock (a : Arena) (id : BlockId) (f : Block → Block) :
    (a.modifyBlock id f).entries = a.entries := entries_congr rfl rfl (by simp) rfl
@[simp] theorem entries_modifyFunc (a : Arena) (id : FuncId) (f : Func → Func) :
    (a.modifyFunc id f).entries = a.entries :=
  entries_congr rfl rfl rfl (by simp [modifyFunc])

theorem same_modifyOperand (a : Arena) (id : OperandId) (f : Operand → Operand)
    (hne : e ≠ .operand id) : a.Same (a.modifyOperand id f) e := by
  cases e with
  | operand j =>
    rw [Same, operand_modifyOperand, if_neg]
    rintro ⟨rfl, -⟩
    exact hne rfl
  | _ => rfl

theorem same_modifyOp (a : Arena) (id : OpId) (f : Op → Op) (hne : e ≠ .op id) :
    a.Same (a.modifyOp id f) e := by
  cases e with
  | op j =>
    rw [Same, op_modifyOp, if_neg]
    rintro ⟨rfl, -⟩
    exact hne rfl
  | _ => rfl

theorem same_modifyBlock (a : Arena) (id : BlockId) (f : Block → Block) (hne : e ≠ .block id) :
    a.Same (a.modifyBlock id f) e := by
  cases e with
  | block j =>
    rw [Same, block_modifyBlock, if_neg]
    rintro ⟨rfl, -⟩
    exact hne rfl
  | _ => rfl

theorem same_modifyFunc (a : Arena) (id : FuncId) (f : Func → Func) (hne : e ≠ .func id) :
    a.Same (a.modifyFunc id f) e := by
  cases e with
  | func j =>
    rw [Same, func_modifyFunc, if_neg]
    rintro ⟨rfl, -⟩
    exact hne rfl
  | _ => rfl

theorem Closed.modifyOperand (h : a.Closed S) {id : OperandId} {f : Operand → Operand}
    (hf : .operand id ∈ S ∩ a.entries → (a.operand id).Within (S ∩ a.entries) →
      (f (a.operand id)).Within (S ∩ a.entries)) : (a.modifyOperand id f).Closed S := by
  refine h.change (entries_modifyOperand a id f).ge fun e he hin => ?_
  rw [entries_modifyOperand] at hin ⊢
  by_cases heq : e = .operand id
  · subst heq
    refine .inr ?_
    rw [Within, operand_modifyOperand, if_pos ⟨rfl, hin⟩]
    exact hf ⟨he, hin⟩ (h _ he hin)
  · exact .inl ⟨same_modifyOperand a id f heq, hin⟩

theorem Closed.modifyOp (h : a.Closed S) {id : OpId} {f : Op → Op}
    (hf : .op id ∈ S ∩ a.entries → (a.op id).kind.Within (S ∩ a.entries) →
      (f (a.op id)).kind.Within (S ∩ a.entries)) : (a.modifyOp id f).Closed S := by
  refine h.change (entries_modifyOp a id f).ge fun e he hin => ?_
  rw [entries_modifyOp] at hin ⊢
  by_cases heq : e = .op id
  · subst heq
    refine .inr ?_
    rw [Within, op_modifyOp, if_pos ⟨rfl, hin⟩]
    exact hf ⟨he, hin⟩ (h _ he hin)
  · exact .inl ⟨same_modifyOp a id f heq, hin⟩

theorem Closed.modifyBlock (h : a.Closed S) {id : BlockId} {f : Block → Block}
    (hf : .block id ∈ S ∩ a.entries → (a.block id).Within (S ∩ a.entries) →
      (f (a.block id)).Within (S ∩ a.entries)) : (a.modifyBlock id f).Closed S := by
  refine h.change (entries_modifyBlock a id f).ge fun e he hin => ?_
  rw [entries_modifyBlock] at hin ⊢
  by_cases heq : e = .block id
  · subst heq
    refine .inr ?_
    rw [Within, block_modifyBlock, if_pos ⟨rfl, hin⟩]
    exact hf ⟨he, hin⟩ (h _ he hin)
  · exact .inl ⟨same_modifyBlock a id f heq, hin⟩

theorem Closed.modifyFunc (h : a.Closed S) {id : FuncId} {f : Func → Func}
    (hf : .func id ∈ S ∩ a.entries → (a.func id).Within (S ∩ a.entries) →
      (f (a.func id)).Within (S ∩ a.entries)) : (a.modifyFunc id f).Closed S := by
  refine h.change (entries_modifyFunc a id f).ge fun e he hin => ?_
  rw [entries_modifyFunc] at hin ⊢
  by_cases heq : e = .func id
  · subst heq
    refine .inr ?_
    rw [Within, func_modifyFunc, if_pos ⟨rfl, hin⟩]
    exact hf ⟨he, hin⟩ (h _ he hin)
  · exact .inl ⟨same_modifyFunc a id f heq, hin⟩

/-! ## New entries -/

theorem entries_newOperand (a : Arena) (kind : OperandKind) :
    a.entries ⊆ (a.newOperand kind).2.entries :=
  entries_subset (by simp [newOperand]) (Nat.le_refl _) (Nat.le_refl _) (Nat.le_refl _)

theorem entries_addOp (a : Arena) (kind : OpKind) (span : Span) :
    a.entries ⊆ (a.addOp kind span).2.entries :=
  entries_subset (by simp [addOp, size_foldl_recordSlot]) (by simp [addOp]) (Nat.le_refl _)
    (Nat.le_refl _)

theorem entries_newBlock (a : Arena) (func : FuncId) :
    a.entries ⊆ (a.newBlock (some func)).2.entries :=
  entries_subset (Nat.le_refl _) (Nat.le_refl _) (by simp [newBlock, Arena.modifyFunc])
    (by simp [newBlock, Arena.modifyFunc])

theorem entries_newFunc (a : Arena) (name : String) : a.entries ⊆ (a.newFunc name).2.entries :=
  entries_subset (Nat.le_refl _) (Nat.le_refl _) (by simp [newFunc]) (by simp [newFunc])

theorem Closed.newOperand (h : a.Closed S) {kind : OperandKind}
    (hlinks : .operand ⟨a.operands.size⟩ ∈ S → ∀ x ∈ kind.links, .operand x ∈ S ∩ a.entries) :
    (a.newOperand kind).2.Closed S := by
  refine h.change (entries_newOperand a kind) fun e he hin => ?_
  cases e with
  | operand id =>
    simp only [Same, Within, operand_newOperand]
    split
    · rename_i hid
      rw [show id = ⟨a.operands.size⟩ from OperandId.ext_iff'.1 hid] at he
      refine .inr ⟨fun x hx => ?_, nofun, nofun, nofun⟩
      exact Set.inter_subset_inter_right S (entries_newOperand a kind) (hlinks he x hx)
    · rename_i hid
      have hlt : id.index < a.operands.size + 1 := by simpa [Arena.newOperand] using hin
      exact .inl ⟨rfl, Nat.lt_of_le_of_ne (Nat.le_of_lt_succ hlt) hid⟩
  | _ => exact .inl ⟨rfl, hin⟩

theorem mem_operands_of_any {kind : OpKind} {x : OperandId} {sort : Bool}
    (h : (kind.slots.any fun e => e.2 = x && (kind.writes e.1 == sort)) = true) :
    x ∈ kind.operands := by
  obtain ⟨e, he, hx⟩ := List.any_eq_true.1 h
  rw [Bool.and_eq_true, decide_eq_true_eq] at hx
  exact List.mem_map.2 ⟨e, he, hx.1⟩

theorem Closed.addOp (h : a.Closed S) {kind : OpKind} (span : Span)
    (hkind : .op ⟨a.ops.size⟩ ∈ S → kind.Within (S ∩ a.entries))
    (hoperands : ∀ x ∈ kind.operands, .operand x ∈ S → .op ⟨a.ops.size⟩ ∈ S) :
    (a.addOp kind span).2.Closed S := by
  have hmono := Set.inter_subset_inter_right S (entries_addOp a kind span)
  refine h.change (entries_addOp a kind span) fun e he hin => ?_
  cases e with
  | operand x =>
    have hlt : x.index < a.operands.size := by
      simpa [Arena.addOp, size_foldl_recordSlot] using hin
    have hold := (h _ he hlt).mono hmono
    have hnew {op : OpId} {sort : Bool}
        (hslot : (kind.slots.any fun e => e.2 = x && (kind.writes e.1 == sort)) = true)
        (hop : op = ⟨a.ops.size⟩) : .op op ∈ S ∩ (a.addOp kind span).2.entries := by
      rw [hop]
      exact ⟨hoperands x (mem_operands_of_any hslot) he, by simp [Arena.addOp]⟩
    refine .inr ?_
    rw [Within, operand_addOp a kind span none hlt]
    refine ⟨?_, fun op hop => ?_, fun op hop => ?_, ?_⟩
    · rw [Operand.kind_note]
      exact hold.links
    · rcases (@Operand.mem_listed_note _ _ _ _ _ true).1 hop with hop | ⟨hslot, hop⟩
      · exact hold.defs op hop
      · exact hnew hslot hop
    · rcases (@Operand.mem_listed_note _ _ _ _ _ false).1 hop with hop | ⟨hslot, hop⟩
      · exact hold.usages op hop
      · exact hnew hslot hop
    · rw [Operand.assertions_note]
      exact hold.assertions
  | op o =>
    simp only [Same, Within, op_addOp]
    split
    · rename_i ho
      rw [show o = ⟨a.ops.size⟩ from OpId.ext_iff'.1 ho] at he
      exact .inr ((hkind he).mono hmono)
    · rename_i ho
      have hlt : o.index < a.ops.size + 1 := by simpa [Arena.addOp] using hin
      exact .inl ⟨rfl, Nat.lt_of_le_of_ne (Nat.le_of_lt_succ hlt) ho⟩
  | _ => exact .inl ⟨rfl, hin⟩

theorem block_push (a : Arena) (b : Block) (id : BlockId) :
    ({ a with blocks := a.blocks.push b } : Arena).block id =
      if id.index = a.blocks.size then b else a.block id :=
  getD_push ..

theorem Closed.pushBlock (h : a.Closed S) (func : Option FuncId) :
    ({ a with blocks := a.blocks.push { func } } : Arena).Closed S := by
  have hentries : a.entries ⊆ ({ a with blocks := a.blocks.push { func } } : Arena).entries :=
    entries_subset (Nat.le_refl _) (Nat.le_refl _) (by simp) (Nat.le_refl _)
  refine h.change hentries fun e he hin => ?_
  cases e with
  | block id =>
    simp only [Same, Within, block_push]
    split
    · exact .inr ⟨nofun, nofun, nofun⟩
    · rename_i hid
      have hlt : id.index < a.blocks.size + 1 := by simpa using hin
      exact .inl ⟨rfl, Nat.lt_of_le_of_ne (Nat.le_of_lt_succ hlt) hid⟩
  | _ => exact .inl ⟨rfl, hin⟩

theorem Closed.newBlock (h : a.Closed S) (func : FuncId) :
    (a.newBlock (some func)).2.Closed S :=
  (h.pushBlock (some func)).modifyFunc fun _ hold => ⟨hold.entry, hold.params, hold.callable⟩

theorem func_newFunc (a : Arena) (name : String) (id : FuncId) :
    (a.newFunc name).2.func id =
      if id.index = a.funcs.size then
        { name, entry := ⟨a.blocks.size⟩, blocks := [⟨a.blocks.size⟩] }
      else a.func id :=
  getD_push ..

theorem Closed.newFunc (h : a.Closed S) (name : String)
    (hentry : .func ⟨a.funcs.size⟩ ∈ S → .block ⟨a.blocks.size⟩ ∈ S) :
    (a.newFunc name).2.Closed S := by
  refine (h.pushBlock (some ⟨a.funcs.size⟩)).change
    (entries_subset (Nat.le_refl _) (Nat.le_refl _) (Nat.le_refl _) (by simp [Arena.newFunc]))
    fun e he hin => ?_
  cases e with
  | func id =>
    have hold : ({ a with blocks := a.blocks.push { func := some ⟨a.funcs.size⟩ } } : Arena).func
        id = a.func id := rfl
    simp only [Same, Within, func_newFunc, hold]
    split
    · rename_i hid
      rw [show id = ⟨a.funcs.size⟩ by cases id; exact congrArg FuncId.mk hid] at he
      exact .inr ⟨⟨hentry he, by simp [Arena.newFunc]⟩, nofun, nofun⟩
    · rename_i hid
      have hlt : id.index < a.funcs.size + 1 := by simpa [Arena.newFunc] using hin
      exact .inl ⟨rfl, Nat.lt_of_le_of_ne (Nat.le_of_lt_succ hlt) hid⟩
  | _ => exact .inl ⟨rfl, hin⟩

/-! ## Mild changes -/

/-- Entries stay, and functions keep what they are known for. -/
structure Tame (a a' : Arena) : Prop where
  entries : a.entries ⊆ a'.entries
  func : ∀ f : FuncId, f.index < a.funcs.size → (a.func f).Grown (a'.func f)

/-- No input, call or function is made, and functions keep what they are known for. -/
structure Mild (a a' : Arena) : Prop extends Tame a a' where
  input : ∀ id, (a'.operand id).kind.isInput = true → (a.operand id).kind.isInput = true
  call : ∀ op, (a'.op op).kind.isListedCall = true → (a.op op).kind.isListedCall = true
  funcs : a'.funcs.size = a.funcs.size

theorem Tame.newOperand (a : Arena) (kind : OperandKind) : Tame a (a.newOperand kind).2 :=
  ⟨entries_newOperand a kind, fun _ _ => .refl _⟩

theorem Tame.addOp (a : Arena) (kind : OpKind) (span : Span) : Tame a (a.addOp kind span).2 :=
  ⟨entries_addOp a kind span, fun _ _ => .refl _⟩

/-- Making an operation leaves operands what they are. -/
theorem kind_operand_addOp (a : Arena) (kind : OpKind) (span : Span) (id : OperandId) :
    ((a.addOp kind span).2.operand id).kind = (a.operand id).kind := by
  rcases Nat.lt_or_ge id.index a.operands.size with hlt | hge
  · rw [operand_addOp a kind span none hlt, Operand.kind_note]
  · have hsize : (a.addOp kind span).2.operands.size = a.operands.size :=
      size_foldl_recordSlot ..
    rw [operand_of_le _ (hsize.symm ▸ hge), operand_of_le a hge]

namespace Mild

theorem refl (a : Arena) : Mild a a :=
  ⟨⟨subset_rfl, fun _ _ => .refl _⟩, fun _ h => h, fun _ h => h, rfl⟩

theorem trans (h : Mild a a') (h' : Mild a' a'') : Mild a a'' where
  entries := h.entries.trans h'.entries
  input id hid := h.input id (h'.input id hid)
  call op hop := h.call op (h'.call op hop)
  funcs := h'.funcs.trans h.funcs
  func f hf := (h.func f hf).trans (h'.func f (h.funcs ▸ hf))

theorem modifyOperand (a : Arena) (id : OperandId) {f : Operand → Operand}
    (hf : ∀ o, (f o).kind.isInput = true → o.kind.isInput = true) :
    Mild a (a.modifyOperand id f) where
  entries := (entries_modifyOperand a id f).ge
  func _ _ := .refl _
  input j hj := by
    rw [operand_modifyOperand] at hj
    split at hj
    · exact hf _ hj
    · exact hj
  call _ h := h
  funcs := rfl

theorem modifyOp (a : Arena) (id : OpId) {f : Op → Op}
    (hf : (f (a.op id)).kind.isListedCall = true → (a.op id).kind.isListedCall = true) :
    Mild a (a.modifyOp id f) where
  entries := (entries_modifyOp a id f).ge
  input _ h := h
  call o ho := by
    rw [op_modifyOp] at ho
    split at ho
    · rename_i heq
      exact heq.1 ▸ hf (heq.1 ▸ ho)
    · exact ho
  funcs := rfl
  func _ _ := .refl _

theorem modifyBlock (a : Arena) (id : BlockId) (f : Block → Block) : Mild a (a.modifyBlock id f) :=
  ⟨⟨(entries_modifyBlock a id f).ge, fun _ _ => .refl _⟩, fun _ h => h, fun _ h => h, rfl⟩

theorem modifyFunc (a : Arena) (id : FuncId) {f : Func → Func} (hf : ∀ r : Func, r.Grown (f r)) :
    Mild a (a.modifyFunc id f) where
  entries := (entries_modifyFunc a id f).ge
  input _ h := h
  call _ h := h
  funcs := by simp [Arena.modifyFunc]
  func g _ := by
    rw [func_modifyFunc]
    split
    · exact hf _
    · exact .refl _

theorem newOperand (a : Arena) {kind : OperandKind} (hkind : kind.isInput = false) :
    Mild a (a.newOperand kind).2 where
  toTame := .newOperand a kind
  input id hid := by
    rw [operand_newOperand] at hid
    split at hid
    · rw [hkind] at hid
      cases hid
    · exact hid
  call _ h := h
  funcs := rfl

theorem newBlock (a : Arena) (func : FuncId) : Mild a (a.newBlock (some func)).2 := by
  have hpush : Mild a { a with blocks := a.blocks.push { func := some func } } :=
    ⟨⟨entries_subset (Nat.le_refl _) (Nat.le_refl _) (by simp) (Nat.le_refl _),
      fun _ _ => .refl _⟩, fun _ h => h, fun _ h => h, rfl⟩
  exact hpush.trans (modifyFunc _ func fun r => ⟨rfl, id, List.Subset.refl _⟩)

theorem addOp (a : Arena) {kind : OpKind} (hkind : kind.isListedCall = false) (span : Span) :
    Mild a (a.addOp kind span).2 where
  toTame := .addOp a kind span
  input id hid := by rwa [kind_operand_addOp] at hid
  call op hop := by
    rw [op_addOp] at hop
    split at hop
    · rw [hkind] at hop
      cases hop
    · exact hop
  funcs := rfl

/-! ### Placing operations -/

theorem append (a : Arena) (block : BlockId) (op : OpId) : Mild a (a.append block op) :=
  (modifyBlock a block _).trans (modifyOp _ op id)

theorem attachPhi (a : Arena) (block : BlockId) (phi : OpId) : Mild a (a.attachPhi block phi) :=
  (modifyBlock a block _).trans (modifyOp _ phi id)

theorem addGuard (a : Arena) (block : BlockId) (cond : OperandId) :
    Mild a (a.addGuard block cond) :=
  (modifyBlock a block _).trans (modifyOperand _ cond fun _ h => h)

theorem link (a : Arena) (source target : BlockId) : Mild a (a.link source target) :=
  modifyBlock a target _

theorem addPhiOperand (a : Arena) (phi : OpId) (x : OperandId) :
    Mild a (a.addPhiOperand phi x) := by
  unfold Arena.addPhiOperand
  split
  · exact (modifyOp a phi fun h => by cases h).trans (modifyOperand _ x fun _ h => h)
  · exact refl a

end Mild

end Arena

end QueryTaint
