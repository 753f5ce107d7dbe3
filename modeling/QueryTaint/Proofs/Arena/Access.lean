import QueryTaint.Ir.Arena
import QueryTaint.Ir.Op

/-!
# Access to the arena

What each change of an arena does to what can be looked up in it: the entry that is changed
(`operand_modifyOperand`, `op_modifyOp`, `block_modifyBlock`), the entries of the other tables, and
the sizes of the tables. An operation that is recorded with its operands changes two lists of each
of them (`Operand.note`), and one that is forgotten leaves both lists (`Operand.forget`).
-/

namespace QueryTaint

theorem OperandId.ext_iff' {i j : OperandId} : i.index = j.index ↔ i = j := by
  cases i; cases j; simp

theorem OpId.ext_iff' {i j : OpId} : i.index = j.index ↔ i = j := by
  cases i; cases j; simp

theorem BlockId.ext_iff' {i j : BlockId} : i.index = j.index ↔ i = j := by
  cases i; cases j; simp

theorem mem_addNew {α : Type} [DecidableEq α] {l : List α} {a b : α} :
    b ∈ addNew l a ↔ b ∈ l ∨ b = a := by
  unfold addNew
  split
  · constructor
    · exact Or.inl
    · rintro (h | rfl) <;> assumption
  · simp

theorem nodup_addNew {α : Type} [DecidableEq α] {l : List α} (h : l.Nodup) (a : α) :
    (addNew l a).Nodup := by
  unfold addNew
  split
  · exact h
  · rename_i hn
    refine List.nodup_append.2 ⟨h, by simp, ?_⟩
    rintro b hb c hc rfl
    simp only [List.mem_singleton] at hc
    exact hn (hc ▸ hb)

theorem addNew_of_mem {α : Type} [DecidableEq α] {l : List α} {a : α} (h : a ∈ l) :
    addNew l a = l := by
  simp [addNew, h]

/-- The elements of a list in which one element is replaced by another. -/
theorem mem_map_replace {α : Type} [DecidableEq α] {l : List α} {old new a : α} (hne : old ≠ new) :
    (a ∈ l.map fun i => if i = old then new else i) ↔
      a ≠ old ∧ (a ∈ l ∨ a = new ∧ old ∈ l) := by
  rw [List.mem_map]
  constructor
  · rintro ⟨i, hi, rfl⟩
    split
    · rename_i h
      exact ⟨Ne.symm hne, .inr ⟨rfl, h ▸ hi⟩⟩
    · rename_i h
      exact ⟨h, .inl hi⟩
  · rintro ⟨ha, hm | ⟨rfl, hm⟩⟩
    · exact ⟨a, hm, if_neg ha⟩
    · exact ⟨old, hm, if_pos rfl⟩

theorem getD_modify {α : Type} (xs : Array α) (i j : Nat) (f : α → α) (d : α) :
    (xs.modify i f).getD j d = if i = j ∧ j < xs.size then f (xs.getD j d) else xs.getD j d := by
  simp only [Array.getD_eq_getD_getElem?, Array.getElem?_modify]
  by_cases hij : i = j
  · by_cases hj : j < xs.size
    · simp [hij, hj]
    · simp [hij, hj]
  · simp [hij]

theorem getD_push {α : Type} (xs : Array α) (x : α) (j : Nat) (d : α) :
    (xs.push x).getD j d = if j = xs.size then x else xs.getD j d := by
  simp only [Array.getD_eq_getD_getElem?, Array.getElem?_push]
  split <;> rfl

namespace Arena

variable (a : Arena)

/-! ## Entries that do not exist -/

theorem operand_of_le {id : OperandId} (h : a.operands.size ≤ id.index) :
    a.operand id = default := by
  simp [operand, h]

theorem op_of_le {id : OpId} (h : a.ops.size ≤ id.index) : a.op id = default := by
  simp [op, h]

theorem block_of_le {id : BlockId} (h : a.blocks.size ≤ id.index) : a.block id = default := by
  simp [block, h]

/-! ## Changed entries -/

theorem operand_modifyOperand (i j : OperandId) (f : Operand → Operand) :
    (a.modifyOperand i f).operand j =
      if i = j ∧ j.index < a.operands.size then f (a.operand j) else a.operand j := by
  simp only [operand, modifyOperand, getD_modify, OperandId.ext_iff']

theorem op_modifyOp (i j : OpId) (f : Op → Op) :
    (a.modifyOp i f).op j = if i = j ∧ j.index < a.ops.size then f (a.op j) else a.op j := by
  simp only [op, modifyOp, getD_modify, OpId.ext_iff']

theorem block_modifyBlock (i j : BlockId) (f : Block → Block) :
    (a.modifyBlock i f).block j =
      if i = j ∧ j.index < a.blocks.size then f (a.block j) else a.block j := by
  simp only [block, modifyBlock, getD_modify, BlockId.ext_iff']

variable {a} in
theorem operand_modifyOperand_of_lt {i : OperandId} (h : i.index < a.operands.size)
    (f : Operand → Operand) (j : OperandId) :
    (a.modifyOperand i f).operand j = if j = i then f (a.operand j) else a.operand j := by
  rw [operand_modifyOperand]
  by_cases hij : j = i
  · subst hij
    simp [h]
  · simp [hij, Ne.symm hij]

variable {a} in
theorem op_modifyOp_of_lt {i : OpId} (h : i.index < a.ops.size) (f : Op → Op) (j : OpId) :
    (a.modifyOp i f).op j = if j = i then f (a.op j) else a.op j := by
  rw [op_modifyOp]
  by_cases hij : j = i
  · subst hij
    simp [h]
  · simp [hij, Ne.symm hij]

variable {a} in
theorem block_modifyBlock_of_lt {i : BlockId} (h : i.index < a.blocks.size) (f : Block → Block)
    (j : BlockId) :
    (a.modifyBlock i f).block j = if j = i then f (a.block j) else a.block j := by
  rw [block_modifyBlock]
  by_cases hij : j = i
  · subst hij
    simp [h]
  · simp [hij, Ne.symm hij]

@[simp] theorem op_modifyOperand (i : OperandId) (f : Operand → Operand) (j : OpId) :
    (a.modifyOperand i f).op j = a.op j := rfl
@[simp] theorem block_modifyOperand (i : OperandId) (f : Operand → Operand) (j : BlockId) :
    (a.modifyOperand i f).block j = a.block j := rfl
@[simp] theorem func_modifyOperand (i : OperandId) (f : Operand → Operand) (j : FuncId) :
    (a.modifyOperand i f).func j = a.func j := rfl
@[simp] theorem operand_modifyOp (i : OpId) (f : Op → Op) (j : OperandId) :
    (a.modifyOp i f).operand j = a.operand j := rfl
@[simp] theorem block_modifyOp (i : OpId) (f : Op → Op) (j : BlockId) :
    (a.modifyOp i f).block j = a.block j := rfl
@[simp] theorem func_modifyOp (i : OpId) (f : Op → Op) (j : FuncId) :
    (a.modifyOp i f).func j = a.func j := rfl
@[simp] theorem operand_modifyBlock (i : BlockId) (f : Block → Block) (j : OperandId) :
    (a.modifyBlock i f).operand j = a.operand j := rfl
@[simp] theorem op_modifyBlock (i : BlockId) (f : Block → Block) (j : OpId) :
    (a.modifyBlock i f).op j = a.op j := rfl
@[simp] theorem func_modifyBlock (i : BlockId) (f : Block → Block) (j : FuncId) :
    (a.modifyBlock i f).func j = a.func j := rfl
@[simp] theorem operand_modifyFunc (i : FuncId) (f : Func → Func) (j : OperandId) :
    (a.modifyFunc i f).operand j = a.operand j := rfl
@[simp] theorem op_modifyFunc (i : FuncId) (f : Func → Func) (j : OpId) :
    (a.modifyFunc i f).op j = a.op j := rfl
@[simp] theorem block_modifyFunc (i : FuncId) (f : Func → Func) (j : BlockId) :
    (a.modifyFunc i f).block j = a.block j := rfl

/-! ## Sizes -/

@[simp] theorem operands_modifyOp (i : OpId) (f : Op → Op) :
    (a.modifyOp i f).operands = a.operands := rfl
@[simp] theorem operands_modifyBlock (i : BlockId) (f : Block → Block) :
    (a.modifyBlock i f).operands = a.operands := rfl
@[simp] theorem operands_modifyFunc (i : FuncId) (f : Func → Func) :
    (a.modifyFunc i f).operands = a.operands := rfl
@[simp] theorem ops_modifyOperand (i : OperandId) (f : Operand → Operand) :
    (a.modifyOperand i f).ops = a.ops := rfl
@[simp] theorem ops_modifyBlock (i : BlockId) (f : Block → Block) :
    (a.modifyBlock i f).ops = a.ops := rfl
@[simp] theorem ops_modifyFunc (i : FuncId) (f : Func → Func) :
    (a.modifyFunc i f).ops = a.ops := rfl
@[simp] theorem blocks_modifyOperand (i : OperandId) (f : Operand → Operand) :
    (a.modifyOperand i f).blocks = a.blocks := rfl
@[simp] theorem blocks_modifyOp (i : OpId) (f : Op → Op) :
    (a.modifyOp i f).blocks = a.blocks := rfl
@[simp] theorem blocks_modifyFunc (i : FuncId) (f : Func → Func) :
    (a.modifyFunc i f).blocks = a.blocks := rfl

@[simp] theorem size_operands_modifyOperand (i : OperandId) (f : Operand → Operand) :
    (a.modifyOperand i f).operands.size = a.operands.size := by
  simp [modifyOperand]

@[simp] theorem size_ops_modifyOp (i : OpId) (f : Op → Op) :
    (a.modifyOp i f).ops.size = a.ops.size := by
  simp [modifyOp]

@[simp] theorem size_blocks_modifyBlock (i : BlockId) (f : Block → Block) :
    (a.modifyBlock i f).blocks.size = a.blocks.size := by
  simp [modifyBlock]

/-- A field that a change of operands keeps is the same of every operand after it. -/
theorem operand_modifyOperand_keep {β : Type} (get : Operand → β) (i j : OperandId)
    {f : Operand → Operand} (hf : ∀ o, get (f o) = get o) :
    get ((a.modifyOperand i f).operand j) = get (a.operand j) := by
  rw [operand_modifyOperand]
  split
  · exact hf _
  · rfl

/-- A field that a change of operations keeps is the same of every operation after it. -/
theorem op_modifyOp_keep {β : Type} (get : Op → β) (i j : OpId) {f : Op → Op}
    (hf : ∀ o, get (f o) = get o) : get ((a.modifyOp i f).op j) = get (a.op j) := by
  rw [op_modifyOp]
  split
  · exact hf _
  · rfl

/-- A field that a change of blocks keeps is the same of every block after it. -/
theorem block_modifyBlock_keep {β : Type} (get : Block → β) (i j : BlockId) {f : Block → Block}
    (hf : ∀ b, get (f b) = get b) : get ((a.modifyBlock i f).block j) = get (a.block j) := by
  rw [block_modifyBlock]
  split
  · exact hf _
  · rfl

end Arena

end QueryTaint

/-!
## Slots of operations

The operands that an operation mentions in the slots that it writes and in those that it reads
(`OpKind.mentioned`). Replacing operands keeps the slots and which of them are written
(`slots_mapOperands`, `writes_mapOperands`), so it acts on the operands of each sort
(`mem_mentioned_mapOperands`).
-/

namespace QueryTaint.OpKind

/-- The operands in the slots that the operation writes, or in those that it reads. -/
def mentioned (kind : OpKind) (wrote : Bool) : List OperandId :=
  (kind.slots.filter fun (slot, _) => kind.writes slot == wrote).map (·.2)

theorem reads_eq_mentioned (kind : OpKind) : kind.reads = kind.mentioned false := by
  simp [reads, mentioned]

theorem mem_mentioned {kind : OpKind} {wrote : Bool} {id : OperandId} :
    id ∈ kind.mentioned wrote ↔ ∃ slot, (slot, id) ∈ kind.slots ∧ kind.writes slot = wrote := by
  simp only [mentioned, List.mem_map, List.mem_filter, beq_iff_eq, Prod.exists]
  constructor
  · rintro ⟨slot, _, h, rfl⟩
    exact ⟨slot, h⟩
  · rintro ⟨slot, h⟩
    exact ⟨slot, id, h, rfl⟩

theorem exists_slot_iff {kind : OpKind} {id : OperandId} :
    (∃ slot, (slot, id) ∈ kind.slots) ↔ ∃ wrote, id ∈ kind.mentioned wrote := by
  simp only [mem_mentioned]
  constructor
  · rintro ⟨slot, h⟩
    exact ⟨_, slot, h, rfl⟩
  · rintro ⟨_, slot, h, -⟩
    exact ⟨slot, h⟩

theorem mem_mentioned_of_result? {kind : OpKind} {result : OperandId}
    (h : kind.result? = some result) : result ∈ kind.mentioned true := by
  obtain ⟨⟨slot, id⟩, he, rfl⟩ := Option.map_eq_some_iff.1 h
  have hslot : slot = ⟨.result, none⟩ := by simpa using List.find?_some he
  exact mem_mentioned.2 ⟨slot, List.mem_of_find?_eq_some he, by rw [hslot]; rfl⟩

/-! ### Replacing operands -/

theorem many_map (field : Field) (f : OperandId → OperandId) (ids : List OperandId) :
    many field (ids.map f) = (many field ids).map fun e => (e.1, f e.2) := by
  apply List.ext_getElem?
  intro i
  simp [many, Function.comp_def]

theorem optional_map (field : Field) (f : OperandId → OperandId) (id : Option OperandId) :
    optional field (id.map f) = (optional field id).map fun e => (e.1, f e.2) := by
  cases id <;> rfl

/-- Replacing operands keeps the slots. -/
theorem slots_mapOperands (f : OperandId → OperandId) (kind : OpKind) :
    (kind.mapOperands f).slots = kind.slots.map fun e => (e.1, f e.2) := by
  cases kind <;>
    simp only [mapOperands, slots, one, many_map, optional_map, List.map_append, List.map_cons,
      List.map_nil]

/-- Replacing operands keeps which slots are written. -/
@[simp] theorem writes_mapOperands (f : OperandId → OperandId) (kind : OpKind) (slot : Slot) :
    (kind.mapOperands f).writes slot = kind.writes slot := by
  cases kind <;> rfl

theorem mentioned_mapOperands (f : OperandId → OperandId) (kind : OpKind) (wrote : Bool) :
    (kind.mapOperands f).mentioned wrote = (kind.mentioned wrote).map f := by
  simp [mentioned, slots_mapOperands, List.filter_map, Function.comp_def]

theorem mem_mentioned_mapOperands {f : OperandId → OperandId} {kind : OpKind} {wrote : Bool}
    {id : OperandId} :
    id ∈ (kind.mapOperands f).mentioned wrote ↔ ∃ old ∈ kind.mentioned wrote, f old = id := by
  rw [mentioned_mapOperands, List.mem_map]

theorem mapOperands_mapOperands (f g : OperandId → OperandId) (kind : OpKind) :
    (kind.mapOperands f).mapOperands g = kind.mapOperands (g ∘ f) := by
  cases kind <;> simp [mapOperands, Function.comp_def]

theorem reads_mapOperands (f : OperandId → OperandId) (kind : OpKind) :
    (kind.mapOperands f).reads = kind.reads.map f := by
  rw [reads_eq_mentioned, reads_eq_mentioned, mentioned_mapOperands]

theorem result?_mapOperands (f : OperandId → OperandId) (kind : OpKind) :
    (kind.mapOperands f).result? = kind.result?.map f := by
  simp only [result?, operand?, slots_mapOperands, List.find?_map, Function.comp_def,
    Option.map_map]

@[simp] theorem successors_mapOperands (f : OperandId → OperandId) (kind : OpKind) :
    (kind.mapOperands f).successors = kind.successors := by
  cases kind <;> rfl

@[simp] theorem isTerminator_mapOperands (f : OperandId → OperandId) (kind : OpKind) :
    (kind.mapOperands f).isTerminator = kind.isTerminator := by
  cases kind <;> rfl

theorem mapOperands_eq_jump {f : OperandId → OperandId} {kind : OpKind} {target : BlockId} :
    kind.mapOperands f = .jump target ↔ kind = .jump target := by
  cases kind <;> simp [mapOperands]

theorem mapOperands_eq_phi {f : OperandId → OperandId} {kind : OpKind} {vars : List OperandId}
    {result : OperandId} :
    kind.mapOperands f = .phi vars result ↔
      ∃ vs r, kind = .phi vs r ∧ vs.map f = vars ∧ f r = result := by
  constructor
  · intro h
    cases kind with
    | phi vs r => exact ⟨vs, r, rfl, OpKind.phi.inj h⟩
    | _ => cases h
  · rintro ⟨vs, r, rfl, rfl, rfl⟩
    rfl

/-! ### Replacing blocks -/

@[simp] theorem slots_mapBlocks (f : BlockId → BlockId) (kind : OpKind) :
    (kind.mapBlocks f).slots = kind.slots := by
  cases kind <;> rfl

@[simp] theorem writes_mapBlocks (f : BlockId → BlockId) (kind : OpKind) (slot : Slot) :
    (kind.mapBlocks f).writes slot = kind.writes slot := by
  cases kind <;> rfl

theorem reads_mapBlocks (f : BlockId → BlockId) (kind : OpKind) :
    (kind.mapBlocks f).reads = kind.reads := by
  simp only [reads, slots_mapBlocks, writes_mapBlocks]

theorem successors_mapBlocks (f : BlockId → BlockId) (kind : OpKind) :
    (kind.mapBlocks f).successors = kind.successors.map f := by
  cases kind <;> simp [mapBlocks, successors]

theorem mapBlocks_eq_jump {f : BlockId → BlockId} {kind : OpKind} {target : BlockId} :
    kind.mapBlocks f = .jump target ↔ ∃ b, kind = .jump b ∧ f b = target := by
  cases kind <;> simp [mapBlocks]

theorem mapBlocks_eq_phi {f : BlockId → BlockId} {kind : OpKind} {vars : List OperandId}
    {result : OperandId} : kind.mapBlocks f = .phi vars result ↔ kind = .phi vars result := by
  cases kind <;> simp [mapBlocks]

/-! ### Lists of operands -/

theorem mem_many {field : Field} {ids : List OperandId} {slot : Slot} {id : OperandId} :
    (slot, id) ∈ many field ids ↔ ∃ i, ids[i]? = some id ∧ slot = ⟨field, some i⟩ := by
  simp only [many, List.mem_iff_getElem?, List.getElem?_mapIdx, Option.map_eq_some_iff,
    Prod.mk.injEq]
  constructor
  · rintro ⟨i, _, h, rfl, rfl⟩
    exact ⟨i, h, rfl⟩
  · rintro ⟨i, h, rfl⟩
    exact ⟨i, id, h, rfl, rfl⟩

theorem map_snd_many (field : Field) (ids : List OperandId) : (many field ids).map (·.2) = ids := by
  apply List.ext_getElem?
  intro i
  simp [many, Function.comp_def]

theorem forall_one {field : Field} {f : OperandId → OperandId} {id : OperandId} :
    (∀ e ∈ one field id, f e.2 = e.2) ↔ f id = id := by
  simp [one]

theorem forall_optional {field : Field} {f : OperandId → OperandId} {id : Option OperandId} :
    (∀ e ∈ optional field id, f e.2 = e.2) ↔ id.map f = id := by
  cases id with
  | none => simp [optional]
  | some id => simp [optional, one]

theorem forall_many {field : Field} {f : OperandId → OperandId} {ids : List OperandId} :
    (∀ e ∈ many field ids, f e.2 = e.2) ↔ ids.map f = ids := by
  constructor
  · intro h
    rw [← map_snd_many field ids, List.map_map]
    exact List.map_congr_left h
  · rintro h ⟨slot, id⟩ he
    obtain ⟨i, hi, -⟩ := mem_many.1 he
    have hmap := congrArg (·[i]?) h
    simpa [hi] using hmap

/-- Replacing the operands of an operation by themselves changes nothing. -/
theorem mapOperands_of_fixed {f : OperandId → OperandId} {kind : OpKind}
    (h : ∀ e ∈ kind.slots, f e.2 = e.2) : kind.mapOperands f = kind := by
  cases kind <;> simp only [slots, List.forall_mem_append, forall_one, forall_optional,
    forall_many] at h <;> simp only [mapOperands, h]

/-- A φ operation reads what it merges. -/
theorem mentioned_phi_false (vars : List OperandId) (result : OperandId) :
    (phi vars result).mentioned false = vars := by
  have hvars : (many .vars vars).filter
      (fun (slot, _) => (phi vars result).writes slot == false) = many .vars vars := by
    rw [List.filter_eq_self]
    rintro ⟨slot, id⟩ he
    obtain ⟨i, -, rfl⟩ := mem_many.1 he
    rfl
  have hresult : (one .result result).filter
      (fun (slot, _) => (phi vars result).writes slot == false) = [] := rfl
  rw [mentioned, slots, List.filter_append, hvars, hresult, List.append_nil, map_snd_many]

/-- A φ operation writes its result. -/
theorem mentioned_phi_true (vars : List OperandId) (result : OperandId) :
    (phi vars result).mentioned true = [result] := by
  have hvars : (many .vars vars).filter
      (fun (slot, _) => (phi vars result).writes slot == true) = [] := by
    rw [List.filter_eq_nil_iff]
    rintro ⟨slot, id⟩ he
    obtain ⟨i, -, rfl⟩ := mem_many.1 he
    simp [writes]
  rw [mentioned, slots, List.filter_append, hvars]
  rfl

end QueryTaint.OpKind
