import Mathlib.Order.Monotone.Basic
import QueryTaint.Proofs.Arena.Access

/-!
# New numbers for entries

`Relabel` gives each entry of an arena a new number, in the same order as before. Whatever mentions
entries can be relabeled: operands, operations, blocks and functions. What does not look at the
numbers themselves, or only compares them, commutes with it.
-/

namespace QueryTaint

/-- New numbers for the entries of each table. -/
structure Relabel where
  operands : Nat → Nat
  ops : Nat → Nat
  blocks : Nat → Nat
  funcs : Nat → Nat
  operands_mono : StrictMono operands
  ops_mono : StrictMono ops
  blocks_mono : StrictMono blocks
  funcs_mono : StrictMono funcs

namespace Relabel

variable (ρ : Relabel)

/-- The new number of an operand. -/
def operand (x : OperandId) : OperandId := ⟨ρ.operands x.index⟩

/-- The new number of an operation. -/
def op (x : OpId) : OpId := ⟨ρ.ops x.index⟩

/-- The new number of a block. -/
def block (x : BlockId) : BlockId := ⟨ρ.blocks x.index⟩

/-- The new number of a function. -/
def func (x : FuncId) : FuncId := ⟨ρ.funcs x.index⟩

@[simp] theorem index_operand (x : OperandId) : (ρ.operand x).index = ρ.operands x.index := rfl
@[simp] theorem index_op (x : OpId) : (ρ.op x).index = ρ.ops x.index := rfl
@[simp] theorem index_block (x : BlockId) : (ρ.block x).index = ρ.blocks x.index := rfl
@[simp] theorem index_func (x : FuncId) : (ρ.func x).index = ρ.funcs x.index := rfl

theorem operand_injective : ρ.operand.Injective := fun _ _ h =>
  OperandId.ext_iff'.1 (ρ.operands_mono.injective (congrArg OperandId.index h))

theorem op_injective : ρ.op.Injective := fun _ _ h =>
  OpId.ext_iff'.1 (ρ.ops_mono.injective (congrArg OpId.index h))

theorem block_injective : ρ.block.Injective := fun _ _ h =>
  BlockId.ext_iff'.1 (ρ.blocks_mono.injective (congrArg BlockId.index h))

theorem func_injective : ρ.func.Injective := fun x y h => by
  obtain ⟨i⟩ := x
  obtain ⟨j⟩ := y
  exact congrArg FuncId.mk (ρ.funcs_mono.injective (congrArg FuncId.index h))

@[simp] theorem operand_inj {x y : OperandId} : ρ.operand x = ρ.operand y ↔ x = y :=
  ρ.operand_injective.eq_iff
@[simp] theorem op_inj {x y : OpId} : ρ.op x = ρ.op y ↔ x = y := ρ.op_injective.eq_iff
@[simp] theorem block_inj {x y : BlockId} : ρ.block x = ρ.block y ↔ x = y := ρ.block_injective.eq_iff
@[simp] theorem func_inj {x y : FuncId} : ρ.func x = ρ.func y ↔ x = y := ρ.func_injective.eq_iff

theorem lt_operand {x y : OperandId} : (ρ.operand x).index < (ρ.operand y).index ↔ x.index < y.index :=
  ρ.operands_mono.lt_iff_lt

end Relabel

/-- What makes a list longer by an element that is new does so with new numbers too. -/
theorem addNew_map {α β : Type} [DecidableEq α] [DecidableEq β] {f : α → β} (hf : f.Injective)
    (l : List α) (x : α) : addNew (l.map f) (f x) = (addNew l x).map f := by
  unfold addNew
  by_cases h : x ∈ l
  · rw [if_pos h, if_pos (List.mem_map_of_mem h)]
  · have hnot : f x ∉ l.map f := fun hmem => by
      obtain ⟨y, hy, heq⟩ := List.mem_map.1 hmem
      exact h (hf heq ▸ hy)
    rw [if_neg h, if_neg hnot, List.map_append]
    rfl

theorem filter_ne_map {α β : Type} [DecidableEq α] [DecidableEq β] {f : α → β} (hf : f.Injective)
    (l : List α) (x : α) : (l.map f).filter (· ≠ f x) = (l.filter (· ≠ x)).map f := by
  rw [List.filter_map]
  refine congrArg _ (List.filter_congr fun y _ => ?_)
  simp [hf.eq_iff]

/-! ## Assertions -/

namespace Assertion

mutual

/-- The assertion with new numbers. -/
def relabel (ρ : Relabel) : Assertion → Assertion
  | type value negated => type (ρ.operand value) negated
  | composite children mode negated => composite (relabelAll ρ children) mode negated

/-- The assertions with new numbers. -/
def relabelAll (ρ : Relabel) : List Assertion → List Assertion
  | [] => []
  | s :: rest => relabel ρ s :: relabelAll ρ rest

end

@[simp] theorem relabelAll_eq_map (ρ : Relabel) (l : List Assertion) :
    relabelAll ρ l = l.map (relabel ρ) := by
  induction l with
  | nil => rfl
  | cons s l ih => rw [relabelAll, ih, List.map_cons]

mutual

@[simp] theorem same_relabel (ρ : Relabel) : ∀ s t : Assertion,
    (s.relabel ρ).same (t.relabel ρ) = s.same t
  | type v n, type v' n' => by simp [relabel, same]
  | composite c m n, composite c' m' n' => by
    rw [relabel, relabel, same, same, sameAll_relabel]
  | type .., composite .. | composite .., type .. => by simp [relabel, same]

theorem sameAll_relabel (ρ : Relabel) : ∀ l m : List Assertion,
    sameAll (relabelAll ρ l) (relabelAll ρ m) = sameAll l m
  | [], [] => rfl
  | s :: l, t :: m => by
    rw [relabelAll, relabelAll, sameAll, sameAll, same_relabel, sameAll_relabel]
  | [], _ :: _ | _ :: _, [] => by simp [relabelAll, sameAll]

end

@[simp] theorem negation_relabel (ρ : Relabel) (s : Assertion) :
    (s.relabel ρ).negation = s.negation.relabel ρ := by
  cases s <;> simp [relabel, negation]

@[simp] theorem conjoin_relabel (ρ : Relabel) (s t : Assertion) :
    (s.relabel ρ).conjoin (t.relabel ρ) = (s.conjoin t).relabel ρ := by
  unfold conjoin
  split
  · rename_i children h
    cases s with
    | type => simp [relabel] at h
    | composite c m n =>
      simp only [relabel, composite.injEq] at h
      obtain ⟨rfl, rfl, rfl⟩ := h
      simp [relabel]
  · rename_i h
    cases s with
    | type => simp [relabel]
    | composite c m n =>
      cases m <;> cases n <;> simp_all [relabel]

end Assertion

/-- An asserted variable with new numbers. -/
def VarAssertion.relabel (ρ : Relabel) (s : VarAssertion) : VarAssertion :=
  ⟨ρ.operand s.var, s.assertion.relabel ρ⟩

/-! ## Operands -/

/-- The form of an operand with new numbers. -/
def OperandKind.relabel (ρ : Relabel) : OperandKind → OperandKind
  | .scalar value => .scalar value
  | .object cls => .object cls
  | .symbolic tag => .symbolic tag
  | .variable name value => .variable (ρ.operand name) (value.map ρ.operand)
  | .bound name value byRef scope => .bound (ρ.operand name) (value.map ρ.operand) byRef scope
  | .temporary owner => .temporary (owner.map ρ.operand)

namespace OperandKind

variable (ρ : Relabel) (kind : OperandKind)

@[simp] theorem string?_relabel : (kind.relabel ρ).string? = kind.string? := by
  cases kind <;> rfl
@[simp] theorem scalar?_relabel : (kind.relabel ρ).scalar? = kind.scalar? := by
  cases kind <;> rfl
@[simp] theorem isConstantLike_relabel :
    (kind.relabel ρ).isConstantLike = kind.isConstantLike := by
  cases kind <;> rfl

end OperandKind

/-- An operand with new numbers. -/
def Operand.relabel (ρ : Relabel) (o : Operand) : Operand where
  kind := o.kind.relabel ρ
  defs := o.defs.map ρ.op
  usages := o.usages.map ρ.op
  assertions := o.assertions.map (·.relabel ρ)
  condUsages := o.condUsages.map ρ.block
  tainted := o.tainted

namespace Operand

variable (ρ : Relabel) (o : Operand)

theorem relabel_default : (default : Operand).relabel ρ = default := rfl

@[simp] theorem addUsage_relabel (op : OpId) :
    (o.relabel ρ).addUsage (ρ.op op) = (o.addUsage op).relabel ρ := by
  simp [addUsage, relabel, addNew_map ρ.op_injective]
@[simp] theorem addDef_relabel (op : OpId) :
    (o.relabel ρ).addDef (ρ.op op) = (o.addDef op).relabel ρ := by
  simp [addDef, relabel, addNew_map ρ.op_injective]
@[simp] theorem addCondUsage_relabel (block : BlockId) :
    (o.relabel ρ).addCondUsage (ρ.block block) = (o.addCondUsage block).relabel ρ := by
  simp [addCondUsage, relabel, addNew_map ρ.block_injective]
@[simp] theorem removeUsage_relabel (op : OpId) :
    (o.relabel ρ).removeUsage (ρ.op op) = (o.removeUsage op).relabel ρ := by
  simp only [removeUsage, relabel, filter_ne_map ρ.op_injective]
@[simp] theorem removeDef_relabel (op : OpId) :
    (o.relabel ρ).removeDef (ρ.op op) = (o.removeDef op).relabel ρ := by
  simp only [removeDef, relabel, filter_ne_map ρ.op_injective]

theorem joinAssertion_relabel (var : OperandId) (s : Assertion) (l : List VarAssertion) :
    joinAssertion (ρ.operand var) (s.relabel ρ) (l.map (·.relabel ρ)) =
      (joinAssertion var s l).map (·.relabel ρ) := by
  induction l with
  | nil => rfl
  | cons known l ih =>
    rw [List.map_cons, joinAssertion, joinAssertion, ih]
    by_cases hvar : known.var = var
    · by_cases hsame : known.assertion.same s = true
      · simp [VarAssertion.relabel, hvar, hsame]
      · simp [VarAssertion.relabel, hvar, hsame]
    · simp [VarAssertion.relabel, hvar]

@[simp] theorem addAssertion_relabel (var : OperandId) (s : Assertion) :
    (o.relabel ρ).addAssertion (ρ.operand var) (s.relabel ρ) =
      (o.addAssertion var s).relabel ρ := by
  simp [addAssertion, relabel, joinAssertion_relabel]

end Operand

/-! ## Operations -/

/-- The form of an operation with new numbers. -/
def OpKind.relabel (ρ : Relabel) : OpKind → OpKind
  | .assign v e r => .assign (ρ.operand v) (ρ.operand e) (ρ.operand r)
  | .assignRef v e r => .assignRef (ρ.operand v) (ρ.operand e) (ρ.operand r)
  | .binary op a b r => .binary op (ρ.operand a) (ρ.operand b) (ρ.operand r)
  | .unary op e r => .unary op (ρ.operand e) (ρ.operand r)
  | .cast k e r => .cast k (ρ.operand e) (ρ.operand r)
  | .array ks vs bs r => .array (ks.map ρ.operand) (vs.map ρ.operand) bs (ρ.operand r)
  | .element v d r => .element (ρ.operand v) (d.map ρ.operand) (ρ.operand r)
  | .concatList l r => .concatList (l.map ρ.operand) (ρ.operand r)
  | .constFetch n r => .constFetch (ρ.operand n) (ρ.operand r)
  | .classConst c n r => .classConst (ρ.operand c) (ρ.operand n) (ρ.operand r)
  | .property v n r => .property (ρ.operand v) (ρ.operand n) (ρ.operand r)
  | .staticProperty c n r => .staticProperty (ρ.operand c) (ρ.operand n) (ρ.operand r)
  | .functionCall n as r => .functionCall (ρ.operand n) (as.map ρ.operand) (ρ.operand r)
  | .methodCall v n as b r =>
    .methodCall (ρ.operand v) (ρ.operand n) (as.map ρ.operand) b (ρ.operand r)
  | .staticCall c n as r =>
    .staticCall (ρ.operand c) (ρ.operand n) (as.map ρ.operand) (ρ.operand r)
  | .new c as r => .new (ρ.operand c) (as.map ρ.operand) (ρ.operand r)
  | .closure f us r => .closure (ρ.func f) (us.map ρ.operand) (ρ.operand r)
  | .includeFile k e r => .includeFile k (ρ.operand e) (ρ.operand r)
  | .instanceOf e c r => .instanceOf (ρ.operand e) (ρ.operand c) (ρ.operand r)
  | .isset vs r => .isset (vs.map ρ.operand) (ρ.operand r)
  | .param n d db br va t f r =>
    .param (ρ.operand n) (d.map ρ.operand) (db.map ρ.block) br va t (ρ.func f) (ρ.operand r)
  | .phi vs r => .phi (vs.map ρ.operand) (ρ.operand r)
  | .assertion e s r => .assertion (ρ.operand e) (s.relabel ρ) (ρ.operand r)
  | .yield k v r => .yield (k.map ρ.operand) (v.map ρ.operand) (ρ.operand r)
  | .yieldFrom e r => .yieldFrom (ρ.operand e) (ρ.operand r)
  | .reset v => .reset (ρ.operand v)
  | .iterValid v r => .iterValid (ρ.operand v) (ρ.operand r)
  | .iterKey v r => .iterKey (ρ.operand v) (ρ.operand r)
  | .iterValue v b r => .iterValue (ρ.operand v) b (ρ.operand r)
  | .next v => .next (ρ.operand v)
  | .echo e => .echo (ρ.operand e)
  | .unset es rs => .unset (es.map ρ.operand) (rs.map ρ.operand)
  | .globalVar v => .globalVar (ρ.operand v)
  | .staticVar v d db => .staticVar (ρ.operand v) (d.map ρ.operand) (db.map ρ.block)
  | .constDecl n v vb => .constDecl (ρ.operand n) (ρ.operand v) (vb.map ρ.block)
  | .classDecl k n b fl p is =>
    .classDecl k (ρ.operand n) (ρ.block b) fl (p.map ρ.operand) (is.map ρ.operand)
  | .classMethod f fl => .classMethod (ρ.func f) fl
  | .function f => .function (ρ.func f)
  | .propertyDecl n fl t d db =>
    .propertyDecl (ρ.operand n) fl t (d.map ρ.operand) (db.map ρ.block)
  | .traitUse ts as => .traitUse (ts.map ρ.operand) as
  | .jump b => .jump (ρ.block b)
  | .jumpIf c a b => .jumpIf (ρ.operand c) (ρ.block a) (ρ.block b)
  | .switch c cs ts d => .switch (ρ.operand c) (cs.map ρ.operand) (ts.map ρ.block) (ρ.block d)
  | .returns e => .returns (e.map ρ.operand)
  | .exit e => .exit (e.map ρ.operand)
  | .throws e => .throws (ρ.operand e)

namespace OpKind

variable (ρ : Relabel) (kind : OpKind)

/-- New numbers keep the slots. -/
@[simp] theorem slots_relabel :
    (kind.relabel ρ).slots = kind.slots.map fun e => (e.1, ρ.operand e.2) := by
  cases kind <;>
    simp only [relabel, slots, one, many_map, optional_map, List.map_append, List.map_cons,
      List.map_nil]

@[simp] theorem writes_relabel (slot : Slot) : (kind.relabel ρ).writes slot = kind.writes slot := by
  cases kind <;> rfl

@[simp] theorem reads_relabel : (kind.relabel ρ).reads = kind.reads.map ρ.operand := by
  simp only [reads, slots_relabel, List.filter_map, List.map_map, Function.comp_def, writes_relabel]

@[simp] theorem operand?_relabel (field : Field) :
    (kind.relabel ρ).operand? field = (kind.operand? field).map ρ.operand := by
  simp only [operand?, slots_relabel, List.find?_map, Option.map_map, Function.comp_def]

@[simp] theorem operandList_relabel (field : Field) :
    (kind.relabel ρ).operandList field = (kind.operandList field).map ρ.operand := by
  simp only [operandList, slots_relabel, List.filter_map, List.map_map, Function.comp_def]

@[simp] theorem result?_relabel : (kind.relabel ρ).result? = kind.result?.map ρ.operand :=
  operand?_relabel ρ kind .result

@[simp] theorem successors_relabel :
    (kind.relabel ρ).successors = kind.successors.map ρ.block := by
  cases kind <;> simp [relabel, successors]

@[simp] theorem isTerminator_relabel : (kind.relabel ρ).isTerminator = kind.isTerminator := by
  cases kind <;> rfl

/-- Replacing an operand commutes with new numbers. -/
theorem mapOperands_relabel {f f' : OperandId → OperandId}
    (h : ∀ x, f' (ρ.operand x) = ρ.operand (f x)) :
    (kind.relabel ρ).mapOperands f' = (kind.mapOperands f).relabel ρ := by
  cases kind <;> simp [relabel, mapOperands, h, Function.comp_def]

/-- Replacing a block commutes with new numbers. -/
theorem mapBlocks_relabel {f f' : BlockId → BlockId} (h : ∀ x, f' (ρ.block x) = ρ.block (f x)) :
    (kind.relabel ρ).mapBlocks f' = (kind.mapBlocks f).relabel ρ := by
  cases kind <;> simp [relabel, mapBlocks, h, Function.comp_def]

end OpKind

/-- An operation with new numbers. -/
def Op.relabel (ρ : Relabel) (o : Op) : Op :=
  { o with kind := o.kind.relabel ρ, block := o.block.map ρ.block }

theorem Op.relabel_default (ρ : Relabel) : (default : Op).relabel ρ = default := rfl

/-! ## Blocks and functions -/

/-- A block with new numbers. -/
def Block.relabel (ρ : Relabel) (b : Block) : Block :=
  { b with
    func := b.func.map ρ.func
    ops := b.ops.map ρ.op
    preds := b.preds.map ρ.block
    phis := b.phis.map ρ.op
    guards := b.guards.map ρ.operand }

theorem Block.relabel_default (ρ : Relabel) : (default : Block).relabel ρ = default := rfl

/-- A function with new numbers. -/
def Func.relabel (ρ : Relabel) (f : Func) : Func :=
  { f with
    entry := ρ.block f.entry
    blocks := f.blocks.map ρ.block
    params := f.params.map ρ.op
    callable := f.callable.map ρ.op
    sources := f.sources.map ρ.op
    calls := f.calls.map ρ.op }

end QueryTaint
