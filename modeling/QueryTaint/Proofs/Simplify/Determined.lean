import Mathlib.Data.List.Nodup
import QueryTaint.Proofs.Simplify.Certificate
import QueryTaint.Simplify.Fold

/-!
# Determined operands

Which scalar an operand is follows from the constants that variables are recorded to hold, and from
the operators, casts and concatenations on what is known already (`Arena.Determined`). Where
values agree with both, an operand holds what it is determined to be (`Agrees.eq_of_determined`).
`Arena.Foldable` is what an arena must be like for folding to use nothing else; `foldCertified`
checks a function in single assignment form for it.
-/

namespace QueryTaint

namespace OpKind

/-- What an operator, a cast or a concatenation makes of the scalars that it reads. -/
def compute? (v : OperandId → Scalar Float) : OpKind → Option (Scalar Float)
  | .binary op left right _ => Scalar.binary? op (v left) (v right)
  | .unary op expr _ => Scalar.unary? op (v expr)
  | .cast kind expr _ => Scalar.cast? kind (v expr)
  | .concatList list _ => some (.string (String.join (list.map fun id => (v id).toText)))
  | _ => none

theorem compute?_mapOperands (f : OperandId → OperandId) (v : OperandId → Scalar Float)
    (kind : OpKind) : (kind.mapOperands f).compute? v = kind.compute? fun id => v (f id) := by
  cases kind <;> simp [mapOperands, compute?, Function.comp_def]

theorem reads_concatList (list : List OperandId) (result : OperandId) :
    (concatList list result).reads = list := by
  have hlist : (many .list list).filter
      (fun e => !(concatList list result).writes e.1) = many .list list := by
    rw [List.filter_eq_self]
    rintro ⟨slot, id⟩ he
    obtain ⟨i, -, rfl⟩ := mem_many.1 he
    rfl
  rw [reads, slots, List.filter_append, hlist]
  simp [one, writes, map_snd_many]

theorem compute?_congr {v w : OperandId → Scalar Float} {kind : OpKind}
    (h : ∀ id ∈ kind.reads, v id = w id) : kind.compute? v = kind.compute? w := by
  cases kind with
  | binary op left right result =>
    have hreads : (binary op left right result).reads = [left, right] := rfl
    rw [compute?, compute?, h left (by simp [hreads]), h right (by simp [hreads])]
  | unary op expr result =>
    have hreads : (unary op expr result).reads = [expr] := rfl
    rw [compute?, compute?, h expr (by simp [hreads])]
  | cast kind expr result =>
    have hreads : (cast kind expr result).reads = [expr] := rfl
    rw [compute?, compute?, h expr (by simp [hreads])]
  | concatList list result =>
    rw [reads_concatList] at h
    rw [compute?, compute?, List.map_congr_left fun id hid => by rw [h id hid]]
  | _ => rfl

end OpKind

namespace Arena

variable {a a' : Arena}

theorem literals_of_mapM {list : List OperandId} {parts : List (Scalar Float)}
    (h : list.mapM a.literalOf? = some parts) :
    (∀ id ∈ list, a.literalOf? id = some ((a.literalOf? id).getD .null)) ∧
      parts = list.map fun id => (a.literalOf? id).getD .null := by
  induction list generalizing parts with
  | nil => exact ⟨List.forall_mem_nil _, (Option.some.inj h).symm⟩
  | cons id list ih =>
    rw [List.mapM_cons] at h
    obtain ⟨part, hpart, h⟩ := Option.bind_eq_some_iff.1 h
    obtain ⟨rest, hrest, h⟩ := Option.bind_eq_some_iff.1 h
    obtain rfl := Option.some.inj h
    obtain ⟨hknown, rfl⟩ := ih hrest
    refine ⟨List.forall_mem_cons.2 ⟨by simp [hpart], hknown⟩, ?_⟩
    simp [hpart]

/-- The value of an operation on known scalars is what it makes of them. -/
theorem compute?_of_evaluate? {kind : OpKind} {value : Scalar Float}
    (h : a.evaluate? kind = some value) :
    ∃ v, (∀ id ∈ kind.reads, a.literalOf? id = some (v id)) ∧ kind.compute? v = some value := by
  refine ⟨fun id => (a.literalOf? id).getD .null, ?_⟩
  cases kind with
  | binary op left right result =>
    obtain ⟨l, hl, h⟩ := Option.bind_eq_some_iff.1 h
    obtain ⟨r, hr, h⟩ := Option.bind_eq_some_iff.1 h
    have hreads : (OpKind.binary op left right result).reads = [left, right] := rfl
    simp [hreads, OpKind.compute?, hl, hr, h]
  | unary op expr result =>
    obtain ⟨e, he, h⟩ := Option.bind_eq_some_iff.1 h
    have hreads : (OpKind.unary op expr result).reads = [expr] := rfl
    simp [hreads, OpKind.compute?, he, h]
  | cast kind expr result =>
    obtain ⟨e, he, h⟩ := Option.bind_eq_some_iff.1 h
    have hreads : (OpKind.cast kind expr result).reads = [expr] := rfl
    simp [hreads, OpKind.compute?, he, h]
  | concatList list result =>
    obtain ⟨parts, hparts, h⟩ := Option.bind_eq_some_iff.1 h
    obtain ⟨hknown, rfl⟩ := literals_of_mapM hparts
    rw [OpKind.reads_concatList]
    refine ⟨hknown, ?_⟩
    rw [← h, OpKind.compute?, List.map_map]
    rfl
  | _ => cases h

/-! ## What is determined -/

/-- The constants that are recorded and the operations in blocks make an operand a scalar. -/
inductive Determined (a : Arena) : OperandId → Scalar Float → Prop
  | literal {id : OperandId} {value : Scalar Float} (there : id.index < a.operands.size)
      (known : a.literalOf? id = some value) : Determined a id value
  | computed {op : OpId} {v : OperandId → Scalar Float} {result : OperandId}
      {value : Scalar Float} (placed : (a.op op).block.isSome)
      (reads : ∀ id ∈ (a.op op).kind.reads, Determined a id (v id))
      (makes : (a.op op).kind.compute? v = some value)
      (writes : (a.op op).kind.result? = some result) : Determined a result value

/-- Values that agree with the constants that are recorded, and with the operations in blocks. -/
structure Agrees (a : Arena) (v : OperandId → Scalar Float) : Prop where
  literal {id : OperandId} {value : Scalar Float} : id.index < a.operands.size →
    a.literalOf? id = some value → v id = value
  computed {op : OpId} {result : OperandId} {value : Scalar Float} : (a.op op).block.isSome →
    (a.op op).kind.compute? v = some value → (a.op op).kind.result? = some result →
    v result = value

theorem Agrees.eq_of_determined {v : OperandId → Scalar Float} (hv : a.Agrees v)
    {id : OperandId} {value : Scalar Float} (h : a.Determined id value) : v id = value := by
  induction h with
  | literal there known => exact hv.literal there known
  | computed placed _ makes writes ih =>
    exact hv.computed placed (OpKind.compute?_congr ih ▸ makes) writes

/-- What folding needs of an arena: operations stand where they say, each once, and operands list
them; no operand is written twice or written though it is a scalar; and what an operand stands for
exists. -/
structure Foldable (a : Arena) : Prop where
  placed (op : OpId) (block : BlockId) : op ∈ a.members block ↔ (a.op op).block = some block
  nodup (block : BlockId) : (a.block block).ops.Nodup
  nodup_blocks (func : FuncId) : (a.func func).blocks.Nodup
  lists : ∃ removed, a.DefUse removed ∧ ∀ op, (a.op op).block.isSome → a.Kept removed op
  single {op other : OpId} {id : OperandId} : a.Defines op id → a.Defines other id → op = other
  unwritten {op : OpId} {id : OperandId} : a.Defines op id → (a.operand id).kind.scalar? = none
  linked {id next : OperandId} : a.linkOf? id = some next → next.index < a.operands.size

theorem valueWithin_of_linkOf?_eq_none {id : OperandId} (h : a.linkOf? id = none) (steps : Nat) :
    a.valueWithin steps id = id := by
  cases steps with
  | zero => rfl
  | succ steps => rw [valueWithin, h]

theorem linkOf?_congr {id : OperandId} (h : (a'.operand id).kind = (a.operand id).kind) :
    a'.linkOf? id = a.linkOf? id := by
  rw [linkOf?, linkOf?, h]

theorem literalOf?_of_scalar {id : OperandId} {value : Scalar Float}
    (h : (a.operand id).kind = .scalar value) : a.literalOf? id = some value := by
  rw [literalOf?, valueOf, valueWithin_of_linkOf?_eq_none (by rw [linkOf?, h]), h]
  rfl

/-- What is known of an operand depends on the operands that it stands for, which are there. -/
theorem literalOf?_congr
    (hlinked : ∀ {id next : OperandId}, a.linkOf? id = some next → next.index < a.operands.size)
    (hkind : ∀ {id : OperandId}, id.index < a.operands.size →
      (a'.operand id).kind = (a.operand id).kind) {id : OperandId}
    (hid : id.index < a.operands.size) : a'.literalOf? id = a.literalOf? id := by
  have hvalue (steps : Nat) {id : OperandId} (hid : id.index < a.operands.size) :
      a'.valueWithin steps id = a.valueWithin steps id ∧
        (a.valueWithin steps id).index < a.operands.size := by
    induction steps generalizing id with
    | zero => exact ⟨rfl, hid⟩
    | succ steps ih =>
      rw [valueWithin, valueWithin, linkOf?_congr (hkind hid)]
      split
      · rename_i next hlink
        exact ih (hlinked hlink)
      · exact ⟨rfl, hid⟩
  obtain ⟨heq, hlt⟩ := hvalue maxChain hid
  rw [literalOf?, literalOf?, valueOf, heq, hkind hlt]
  rfl

theorem defines_of_result? {op : OpId} (hop : (a.op op).block.isSome) {result : OperandId}
    (hresult : (a.op op).kind.result? = some result) : a.Defines op result :=
  ⟨hop, OpKind.mem_mentioned_of_result? hresult⟩

namespace Foldable

variable (h : a.Foldable)
include h

theorem mentioned_lt {op : OpId} (hop : (a.op op).block.isSome) {wrote : Bool} {id : OperandId}
    (hid : id ∈ (a.op op).kind.mentioned wrote) : id.index < a.operands.size := by
  obtain ⟨removed, hdef, hkept⟩ := h.lists
  exact hdef.operand_lt (hkept op hop) hid

theorem reads_lt {op : OpId} (hop : (a.op op).block.isSome) {id : OperandId}
    (hid : id ∈ (a.op op).kind.reads) : id.index < a.operands.size :=
  h.mentioned_lt hop (OpKind.reads_eq_mentioned _ ▸ hid)

/-- A scalar is determined to be itself. -/
theorem eq_of_scalar {id : OperandId} {value other : Scalar Float}
    (hkind : (a.operand id).kind = .scalar value) (hd : a.Determined id other) :
    other = value := by
  cases hd with
  | literal _ known => exact Option.some.inj (known.symm.trans (literalOf?_of_scalar hkind))
  | computed placed _ _ writes =>
    have hnone := h.unwritten (defines_of_result? placed writes)
    rw [hkind] at hnone
    cases hnone

theorem filter_isSome {block : BlockId} {ops : List OpId} (hops : ops ⊆ a.members block) :
    ops.filter (fun op => (a.op op).block.isSome) = ops := by
  rw [List.filter_eq_self]
  intro op hop
  rw [(h.placed op block).1 (hops hop)]
  rfl

/-- The operations of a function are there to be folded, each once. -/
theorem liveOps_placed {func : FuncId} {op : OpId} (hop : op ∈ a.liveOps func) :
    (a.op op).block.isSome := by
  obtain ⟨block, -, hop⟩ := List.mem_flatMap.1 hop
  rw [(h.placed op block).1 (List.mem_append_right _ hop)]
  rfl

theorem nodup_liveOps (func : FuncId) : (a.liveOps func).Nodup := by
  refine List.nodup_flatMap.2 ⟨fun block _ => h.nodup block, ?_⟩
  refine ((h.nodup_blocks func).filter _).imp fun {block other} hne op hop hother => hne ?_
  have hblock := (h.placed op block).1 (List.mem_append_right _ hop)
  rw [(h.placed op other).1 (List.mem_append_right _ hother)] at hblock
  exact (Option.some.inj hblock).symm

end Foldable

/-- The conditions of folding that single assignment form does not contain. -/
def foldCertified (a : Arena) : Bool :=
  (a.allBlocks.all fun b => (a.block b).ops.Nodup) &&
  (indices a.funcs).all (fun i => (a.func ⟨i⟩).blocks.Nodup) &&
  (a.allOps.all fun op => ((a.op op).kind.mentioned true).all fun id =>
    (a.operand id).kind.scalar?.isNone) &&
  (indices a.operands).all fun i => (a.linkOf? ⟨i⟩).all fun next =>
    next.index < a.operands.size

theorem Ssa.foldable {entry : BlockId} (h : a.Ssa entry) (hc : a.foldCertified = true) :
    a.Foldable := by
  simp only [foldCertified, Bool.and_eq_true] at hc
  obtain ⟨⟨⟨hblocks, hfuncs⟩, hwritten⟩, hlinks⟩ := hc
  refine ⟨h.placed, fun b => ?_, fun func => ?_, h.lists, h.single, fun {op id} hd => ?_,
    fun {id next} hlink => ?_⟩
  · rcases Nat.lt_or_ge b.index a.blocks.size with hlt | hle
    · exact of_decide_eq_true (of_allBlocks hblocks hlt)
    · rw [block_of_le a hle]
      exact List.nodup_nil
  · rcases Nat.lt_or_ge func.index a.funcs.size with hlt | hle
    · exact of_decide_eq_true (List.all_eq_true.1 hfuncs _ (List.mem_range.2 hlt))
    · have hnone : a.func func = default := by simp [Arena.func, hle]
      rw [hnone]
      exact List.nodup_nil
  · have hall := List.all_eq_true.1 (of_allOps hwritten (op_lt_of_placed hd.1)) id hd.2
    exact Option.isNone_iff_eq_none.1 hall
  · rcases Nat.lt_or_ge id.index a.operands.size with hlt | hle
    · have hall := List.all_eq_true.1 hlinks _ (List.mem_range.2 hlt)
      rw [hlink] at hall
      exact of_decide_eq_true hall
    · rw [linkOf?, operand_of_le a hle] at hlink
      cases hlink

end Arena

end QueryTaint
