import Mathlib.Algebra.Order.Field.Rat
import QueryTaint.Term.Basic

/-!
# What terms mean

A valuation gives every variable a truth value or a number of an ordered field, and fixes what a
number over zero is. Under it a term of truth values holds or does not (`Term.Holds`), and a term of
numbers has a value (`Term.value`); `Term.HasSort` says which terms are of which kind, all the way
down. The functions that build terms fold what is ground, flatten connectives and move negations
inwards. Each keeps terms well-sorted and gives what its name says (`Term.meaning_of_built`).
-/

namespace QueryTaint

/-! ## Numbers of an ordered field

The laws of terms are stated over an ordered field: arithmetic is exact there, and any two numbers
are in order. Its operations and its order are taken for those of `Numeral`. -/

namespace Numeral

variable {K : Type} [Field K] [LinearOrder K]

/-- The arithmetic and the order of a field. -/
instance (priority := low) ofField : Numeral K where
  zero := 0
  one := 1
  add := (· + ·)
  sub := (· - ·)
  mul := (· * ·)
  div := (· / ·)
  neg := (- ·)
  eq a b := decide (a = b)
  lt a b := decide (a < b)
  le a b := decide (a ≤ b)

@[simp] theorem zero_field : (zero : K) = 0 := rfl

@[simp] theorem one_field : (one : K) = 1 := rfl

@[simp] theorem add_field (a b : K) : add a b = a + b := rfl

@[simp] theorem sub_field (a b : K) : sub a b = a - b := rfl

@[simp] theorem mul_field (a b : K) : mul a b = a * b := rfl

@[simp] theorem div_field (a b : K) : div a b = a / b := rfl

@[simp] theorem neg_field (a : K) : neg a = -a := rfl

@[simp] theorem eq_field (a b : K) : eq a b = decide (a = b) := rfl

@[simp] theorem lt_field (a b : K) : lt a b = decide (a < b) := rfl

@[simp] theorem le_field (a b : K) : le a b = decide (a ≤ b) := rfl

end Numeral

/-! ## Valuations -/

/-- Values of all variables, and what each number is over zero. -/
structure Valuation (K : Type) where
  truth : String → Bool
  number : String → K
  overZero : K → K

/-! ## Comparisons and operations -/

/-- The relation that a comparison names. -/
def CompareOp.Relates {K : Type} [LinearOrder K] (op : CompareOp) (a b : K) : Prop :=
  match op with
  | eq => a = b
  | ne => a ≠ b
  | lt => a < b
  | le => a ≤ b
  | gt => a > b
  | ge => a ≥ b

/-- The operation that a sign names, also over zero. -/
def Valuation.apply {K : Type} [Field K] [DecidableEq K] (v : Valuation K) (op : ArithOp) (a b : K) :
    K :=
  match op with
  | .add => a + b
  | .sub => a - b
  | .mul => a * b
  | .div => if b = 0 then v.overZero a else a / b

namespace CompareOp

variable {K : Type} [LinearOrder K]

theorem relates_negate (op : CompareOp) (a b : K) : op.negate.Relates a b ↔ ¬ op.Relates a b := by
  cases op <;> simp [negate, Relates]

theorem relates_flip (op : CompareOp) (a b : K) : op.flip.Relates a b ↔ op.Relates b a := by
  cases op <;> simp [flip, Relates, eq_comm]

theorem holds_iff_relates [Field K] (op : CompareOp) (a b : K) :
    op.holds a b = true ↔ op.Relates a b := by
  cases op <;> simp [holds, Relates]

end CompareOp

/-- What is folded is the result. -/
theorem Valuation.apply_of_result? {K : Type} [Field K] [LinearOrder K] {op : ArithOp} {a b c : K}
    (v : Valuation K) (h : op.result? a b = some c) : v.apply op a b = c := by
  cases op with
  | div =>
    simp only [ArithOp.result?, Numeral.eq_field, Numeral.zero_field, decide_eq_true_eq,
      Option.ite_none_left_eq_some, Option.some.injEq] at h
    rw [Valuation.apply, if_neg h.1]
    exact h.2
  | _ => exact Option.some.inj h

/-! ## Terms -/

namespace Term

/-- Terms of a kind whose parts are all of the kinds that their places ask for. -/
inductive HasSort {ν : Type} : Term ν → TermSort → Prop
  | bool (b : Bool) : HasSort (bool b) .bool
  | number (n : ν) : HasSort (number n) .number
  | boolVar (name : String) : HasSort (boolVar name) .bool
  | numVar (name : String) : HasSort (numVar name) .number
  | notTerm {arg : Term ν} : HasSort arg .bool → HasSort (notTerm arg) .bool
  | andTerm {args : List (Term ν)} : (∀ t ∈ args, HasSort t .bool) → HasSort (andTerm args) .bool
  | orTerm {args : List (Term ν)} : (∀ t ∈ args, HasSort t .bool) → HasSort (orTerm args) .bool
  | xorTerm {a b : Term ν} : HasSort a .bool → HasSort b .bool → HasSort (xorTerm a b) .bool
  | iffTerm {a b : Term ν} : HasSort a .bool → HasSort b .bool → HasSort (iffTerm a b) .bool
  | negTerm {arg : Term ν} : HasSort arg .number → HasSort (negTerm arg) .number
  | arithTerm (op : ArithOp) {a b : Term ν} :
    HasSort a .number → HasSort b .number → HasSort (arithTerm op a b) .number
  | compareTerm (op : CompareOp) {a b : Term ν} :
    HasSort a .number → HasSort b .number → HasSort (compareTerm op a b) .bool

section Meaning

variable {K : Type} [Field K] [LinearOrder K]

/-- The value of a term of numbers. -/
def value (v : Valuation K) : Term K → K
  | number n => n
  | numVar name => v.number name
  | negTerm arg => -value v arg
  | arithTerm op a b => v.apply op (value v a) (value v b)
  | _ => 0

mutual

/-- Whether a term of truth values holds. -/
def Holds (v : Valuation K) : Term K → Prop
  | bool b => b = true
  | boolVar name => v.truth name = true
  | notTerm arg => ¬ Holds v arg
  | andTerm args => HoldsAll v args
  | orTerm args => HoldsSome v args
  | xorTerm a b => Xor (Holds v a) (Holds v b)
  | iffTerm a b => (Holds v a ↔ Holds v b)
  | compareTerm op a b => op.Relates (a.value v) (b.value v)
  | number _ | numVar _ | negTerm _ | arithTerm .. => False

/-- Whether all terms hold. -/
def HoldsAll (v : Valuation K) : List (Term K) → Prop
  | [] => True
  | arg :: rest => Holds v arg ∧ HoldsAll v rest

/-- Whether one of the terms holds. -/
def HoldsSome (v : Valuation K) : List (Term K) → Prop
  | [] => False
  | arg :: rest => Holds v arg ∨ HoldsSome v rest

end

variable (v : Valuation K)

theorem holdsAll_iff (l : List (Term K)) : HoldsAll v l ↔ ∀ t ∈ l, t.Holds v := by
  induction l with
  | nil => simp [HoldsAll]
  | cons t l ih => rw [HoldsAll, ih, List.forall_mem_cons]

theorem holdsSome_iff (l : List (Term K)) : HoldsSome v l ↔ ∃ t ∈ l, t.Holds v := by
  induction l with
  | nil => simp [HoldsSome]
  | cons t l ih => simp only [HoldsSome, ih, List.mem_cons, exists_eq_or_imp]

@[simp] theorem holds_bool (b : Bool) : (bool b : Term K).Holds v ↔ b = true := by rw [Holds]

@[simp] theorem holds_notTerm (t : Term K) : (notTerm t).Holds v ↔ ¬ t.Holds v := by rw [Holds]

@[simp] theorem holds_andTerm (l : List (Term K)) : (andTerm l).Holds v ↔ ∀ t ∈ l, t.Holds v := by
  rw [Holds, holdsAll_iff]

@[simp] theorem holds_orTerm (l : List (Term K)) : (orTerm l).Holds v ↔ ∃ t ∈ l, t.Holds v := by
  rw [Holds, holdsSome_iff]

end Meaning

/-! ## Connectives -/

section Flatten

variable {ν : Type} {P : Term ν → Prop} {l flat : List (Term ν)}

/-- Opening nested conjunctions and dropping truths keeps what holds of all arguments, for whatever
holds of a truth and, of a conjunction, when it holds of its arguments. -/
theorem forall_mem_flattenAnd (htrue : P (bool true)) (hand : ∀ l, P (andTerm l) ↔ ∀ t ∈ l, P t)
    (h : flattenAnd l = some flat) : (∀ t ∈ flat, P t) ↔ ∀ t ∈ l, P t := by
  fun_induction flattenAnd l generalizing flat with
  | case1 => rw [← Option.some.inj h]
  | case2 rest ih => rw [ih h, List.forall_mem_cons, and_iff_right htrue]
  | case3 => cases h
  | case4 nested rest ih =>
    obtain ⟨opened, hopened, rfl⟩ := Option.map_eq_some_iff.1 h
    rw [List.forall_mem_append, List.forall_mem_cons, hand, ih hopened]
  | case5 arg rest _ _ _ ih =>
    obtain ⟨opened, hopened, rfl⟩ := Option.map_eq_some_iff.1 h
    rw [List.forall_mem_cons, List.forall_mem_cons, ih hopened]

theorem mem_of_flattenAnd_eq_none (h : flattenAnd l = none) : bool false ∈ l := by
  fun_induction flattenAnd l with
  | case1 => cases h
  | case2 rest ih => exact List.mem_cons_of_mem _ (ih h)
  | case3 => exact List.mem_cons_self
  | case4 nested rest ih => exact List.mem_cons_of_mem _ (ih (Option.map_eq_none_iff.1 h))
  | case5 arg rest _ _ _ ih => exact List.mem_cons_of_mem _ (ih (Option.map_eq_none_iff.1 h))

/-- Opening nested disjunctions and dropping falsehoods keeps what holds of all arguments, for
whatever holds of a falsehood and, of a disjunction, when it holds of its arguments. -/
theorem forall_mem_flattenOr (hfalse : P (bool false)) (hor : ∀ l, P (orTerm l) ↔ ∀ t ∈ l, P t)
    (h : flattenOr l = some flat) : (∀ t ∈ flat, P t) ↔ ∀ t ∈ l, P t := by
  fun_induction flattenOr l generalizing flat with
  | case1 => rw [← Option.some.inj h]
  | case2 rest ih => rw [ih h, List.forall_mem_cons, and_iff_right hfalse]
  | case3 => cases h
  | case4 nested rest ih =>
    obtain ⟨opened, hopened, rfl⟩ := Option.map_eq_some_iff.1 h
    rw [List.forall_mem_append, List.forall_mem_cons, hor, ih hopened]
  | case5 arg rest _ _ _ ih =>
    obtain ⟨opened, hopened, rfl⟩ := Option.map_eq_some_iff.1 h
    rw [List.forall_mem_cons, List.forall_mem_cons, ih hopened]

theorem mem_of_flattenOr_eq_none (h : flattenOr l = none) : bool true ∈ l := by
  fun_induction flattenOr l with
  | case1 => cases h
  | case2 rest ih => exact List.mem_cons_of_mem _ (ih h)
  | case3 => exact List.mem_cons_self
  | case4 nested rest ih => exact List.mem_cons_of_mem _ (ih (Option.map_eq_none_iff.1 h))
  | case5 arg rest _ _ _ ih => exact List.mem_cons_of_mem _ (ih (Option.map_eq_none_iff.1 h))

theorem notAll_eq_map (l : List (Term ν)) : notAll l = l.map not := by
  induction l with
  | nil => rfl
  | cons t l ih => rw [notAll, ih, List.map_cons]

end Flatten

section Meaning

variable {K : Type} [Field K] [LinearOrder K] (v : Valuation K)

theorem holds_and (l : List (Term K)) : (and l).Holds v ↔ ∀ t ∈ l, t.Holds v := by
  have hflat {flat} (h : flattenAnd l = some flat) :=
    forall_mem_flattenAnd (P := Holds v) (by simp) (holds_andTerm v) h
  unfold and
  split
  case h_1 hnone =>
    simp only [holds_bool, Bool.false_eq_true, false_iff]
    exact fun hall => by simpa using hall _ (mem_of_flattenAnd_eq_none hnone)
  case h_2 hnil => simp [← hflat hnil]
  case h_3 arg hsingle => simp [← hflat hsingle]
  case h_4 flat _ _ hsome => rw [← hflat hsome, holds_andTerm]

theorem holds_or (l : List (Term K)) : (or l).Holds v ↔ ∃ t ∈ l, t.Holds v := by
  have hflat {flat} (h : flattenOr l = some flat) :=
    forall_mem_flattenOr (P := fun t => ¬ t.Holds v) (by simp) (by simp) h
  rw [← not_iff_not]
  push Not
  unfold or
  split
  case h_1 hnone =>
    simp only [holds_bool, not_true_eq_false, false_iff]
    exact fun hall => by simpa using hall _ (mem_of_flattenOr_eq_none hnone)
  case h_2 hnil => simp [← hflat hnil]
  case h_3 arg hsingle => simp [← hflat hsingle]
  case h_4 flat _ _ hsome => simp [← hflat hsome]

mutual

theorem holds_not : ∀ t : Term K, (not t).Holds v ↔ ¬ t.Holds v
  | bool b => by cases b <;> simp [not]
  | notTerm t => by rw [not, holds_notTerm, not_not]
  | compareTerm op a b => by rw [not, Holds, Holds, CompareOp.relates_negate]
  | andTerm l => by rw [not, holds_or, exists_holds_notAll l, holds_andTerm]
  | orTerm l => by rw [not, holds_and, forall_holds_notAll l, holds_orTerm]
  | number _ | boolVar _ | numVar _ | xorTerm .. | iffTerm .. | negTerm _ | arithTerm .. => by
    rw [not, holds_notTerm] <;> simp

theorem exists_holds_notAll :
    ∀ l : List (Term K), (∃ t ∈ notAll l, t.Holds v) ↔ ¬ ∀ t ∈ l, t.Holds v
  | [] => by simp [notAll]
  | t :: l => by
    simp only [notAll, List.mem_cons, exists_eq_or_imp, holds_not t, exists_holds_notAll l,
      forall_eq_or_imp, not_and_or]

theorem forall_holds_notAll :
    ∀ l : List (Term K), (∀ t ∈ notAll l, t.Holds v) ↔ ¬ ∃ t ∈ l, t.Holds v
  | [] => by simp [notAll]
  | t :: l => by
    simp only [notAll, List.mem_cons, forall_eq_or_imp, holds_not t, forall_holds_notAll l,
      exists_eq_or_imp, not_or]

end

theorem holds_xor (a b : Term K) : (xor a b).Holds v ↔ Xor (a.Holds v) (b.Holds v) := by
  unfold xor
  split
  · rename_i x y
    cases x <;> cases y <;> simp [Xor]
  · simp [Xor]
  · simp [Xor]
  · simp [Xor, holds_not]
  · simp [Xor, holds_not]
  · rw [Holds]

theorem holds_iff (a b : Term K) : (iff a b).Holds v ↔ (a.Holds v ↔ b.Holds v) := by
  unfold iff
  split <;> simp [Holds, holds_not]

/-! ## Numbers -/

theorem value_neg (t : Term K) : (neg t).value v = -t.value v := by
  unfold neg
  split <;> simp [value]

theorem value_arith (op : ArithOp) (a b : Term K) :
    (arith op a b).value v = v.apply op (a.value v) (b.value v) := by
  unfold arith
  split
  · split
    · rename_i c hc
      exact (v.apply_of_result? hc).symm
    · rfl
  · rfl

theorem holds_compare (op : CompareOp) (a b : Term K) :
    (compare op a b).Holds v ↔ op.Relates (a.value v) (b.value v) := by
  unfold compare
  split
  · rw [holds_bool, CompareOp.holds_iff_relates, value, value]
  · rw [Holds]

theorem holds_toBool_of_bool {t : Term K} (h : t.sort = .bool) : (toBool t).Holds v ↔ t.Holds v := by
  rw [toBool, h]

theorem holds_toBool_of_number {t : Term K} (h : t.sort = .number) :
    (toBool t).Holds v ↔ t.value v ≠ 0 := by
  rw [toBool, h, holds_compare]
  rfl

end Meaning

/-! ## Kinds -/

section Sorts

variable {ν : Type} {l : List (Term ν)} {a b t : Term ν} {s : TermSort}

theorem HasSort.sort_eq (h : t.HasSort s) : t.sort = s := by
  cases h <;> rfl

theorem hasSort_andTerm : (andTerm l).HasSort .bool ↔ ∀ t ∈ l, t.HasSort .bool :=
  ⟨fun h => by cases h; assumption, .andTerm⟩

theorem hasSort_orTerm : (orTerm l).HasSort .bool ↔ ∀ t ∈ l, t.HasSort .bool :=
  ⟨fun h => by cases h; assumption, .orTerm⟩

theorem hasSort_and (h : ∀ t ∈ l, t.HasSort .bool) : (and l).HasSort .bool := by
  have hflat {flat} (hsome : flattenAnd l = some flat) : ∀ t ∈ flat, t.HasSort .bool :=
    (forall_mem_flattenAnd (.bool true) (fun _ => hasSort_andTerm) hsome).2 h
  unfold and
  split
  case h_1 => exact .bool false
  case h_2 => exact .bool true
  case h_3 arg hsingle => exact hflat hsingle arg List.mem_cons_self
  case h_4 flat _ _ hsome => exact .andTerm (hflat hsome)

theorem hasSort_or (h : ∀ t ∈ l, t.HasSort .bool) : (or l).HasSort .bool := by
  have hflat {flat} (hsome : flattenOr l = some flat) : ∀ t ∈ flat, t.HasSort .bool :=
    (forall_mem_flattenOr (.bool false) (fun _ => hasSort_orTerm) hsome).2 h
  unfold or
  split
  case h_1 => exact .bool true
  case h_2 => exact .bool false
  case h_3 arg hsingle => exact hflat hsingle arg List.mem_cons_self
  case h_4 flat _ _ hsome => exact .orTerm (hflat hsome)

theorem hasSort_not (h : t.HasSort .bool) : (not t).HasSort .bool := by
  generalize hs : TermSort.bool = s at h
  induction h with
  | bool b => exact .bool !b
  | notTerm harg _ => exact harg
  | compareTerm op ha hb => exact .compareTerm op.negate ha hb
  | andTerm _ ih =>
    rw [not, notAll_eq_map]
    exact hasSort_or (List.forall_mem_map.2 fun arg harg => ih arg harg rfl)
  | orTerm _ ih =>
    rw [not, notAll_eq_map]
    exact hasSort_and (List.forall_mem_map.2 fun arg harg => ih arg harg rfl)
  | boolVar name => exact .notTerm (.boolVar name)
  | xorTerm ha hb => exact .notTerm (.xorTerm ha hb)
  | iffTerm ha hb => exact .notTerm (.iffTerm ha hb)
  | number | numVar | negTerm | arithTerm => cases hs

theorem hasSort_xor (ha : a.HasSort .bool) (hb : b.HasSort .bool) : (xor a b).HasSort .bool := by
  unfold xor
  split
  · exact .bool _
  · exact hb
  · exact ha
  · exact hasSort_not hb
  · exact hasSort_not ha
  · exact .xorTerm ha hb

theorem hasSort_iff (ha : a.HasSort .bool) (hb : b.HasSort .bool) : (iff a b).HasSort .bool := by
  unfold iff
  split
  · exact .bool _
  · exact hb
  · exact ha
  · exact hasSort_not hb
  · exact hasSort_not ha
  · exact .iffTerm ha hb

variable [Numeral ν]

theorem hasSort_neg (h : t.HasSort .number) : (neg t).HasSort .number := by
  unfold neg
  split
  · exact .number _
  · cases h; assumption
  · exact .negTerm h

theorem hasSort_arith (op : ArithOp) (ha : a.HasSort .number) (hb : b.HasSort .number) :
    (arith op a b).HasSort .number := by
  unfold arith
  split
  · split
    · exact .number _
    · exact .arithTerm op ha hb
  · exact .arithTerm op ha hb

theorem hasSort_compare (op : CompareOp) (ha : a.HasSort .number) (hb : b.HasSort .number) :
    (compare op a b).HasSort .bool := by
  unfold compare
  split
  · exact .bool _
  · exact .compareTerm op ha hb

theorem hasSort_toBool (h : t.HasSort s) : (toBool t).HasSort .bool := by
  rw [toBool, h.sort_eq]
  cases s with
  | bool => exact h
  | number => exact hasSort_compare .ne h (.number _)

end Sorts

/-- The functions that build terms keep them well-sorted and preserve their meaning. -/
theorem meaning_of_built {K : Type} [Field K] [LinearOrder K] (v : Valuation K) :
    (∀ t : Term K, t.HasSort .bool →
      (not t).HasSort .bool ∧ ((not t).Holds v ↔ ¬ t.Holds v)) ∧
    (∀ l : List (Term K), (∀ t ∈ l, t.HasSort .bool) →
      (and l).HasSort .bool ∧ ((and l).Holds v ↔ ∀ t ∈ l, t.Holds v)) ∧
    (∀ l : List (Term K), (∀ t ∈ l, t.HasSort .bool) →
      (or l).HasSort .bool ∧ ((or l).Holds v ↔ ∃ t ∈ l, t.Holds v)) ∧
    (∀ a b : Term K, a.HasSort .bool → b.HasSort .bool →
      (xor a b).HasSort .bool ∧ ((xor a b).Holds v ↔ Xor (a.Holds v) (b.Holds v))) ∧
    (∀ a b : Term K, a.HasSort .bool → b.HasSort .bool →
      (iff a b).HasSort .bool ∧ ((iff a b).Holds v ↔ (a.Holds v ↔ b.Holds v))) ∧
    (∀ t : Term K, t.HasSort .number →
      (neg t).HasSort .number ∧ (neg t).value v = -t.value v) ∧
    (∀ (op : ArithOp) (a b : Term K), a.HasSort .number → b.HasSort .number →
      (arith op a b).HasSort .number ∧
        (arith op a b).value v = v.apply op (a.value v) (b.value v)) ∧
    (∀ (op : CompareOp) (a b : Term K), a.HasSort .number → b.HasSort .number →
      (compare op a b).HasSort .bool ∧
        ((compare op a b).Holds v ↔ op.Relates (a.value v) (b.value v))) ∧
    (∀ t : Term K, t.HasSort .bool →
      (toBool t).HasSort .bool ∧ ((toBool t).Holds v ↔ t.Holds v)) ∧
    (∀ t : Term K, t.HasSort .number →
      (toBool t).HasSort .bool ∧ ((toBool t).Holds v ↔ t.value v ≠ 0)) :=
  ⟨fun t h => ⟨hasSort_not h, holds_not v t⟩,
    fun l h => ⟨hasSort_and h, holds_and v l⟩,
    fun l h => ⟨hasSort_or h, holds_or v l⟩,
    fun a b ha hb => ⟨hasSort_xor ha hb, holds_xor v a b⟩,
    fun a b ha hb => ⟨hasSort_iff ha hb, holds_iff v a b⟩,
    fun t h => ⟨hasSort_neg h, value_neg v t⟩,
    fun op a b ha hb => ⟨hasSort_arith op ha hb, value_arith v op a b⟩,
    fun op a b ha hb => ⟨hasSort_compare op ha hb, holds_compare v op a b⟩,
    fun _ h => ⟨hasSort_toBool h, holds_toBool_of_bool v h.sort_eq⟩,
    fun _ h => ⟨hasSort_toBool h, holds_toBool_of_number v h.sort_eq⟩⟩

/-- The negation of a conjunction in which another one is nested: with two for `x`, half of it is not
below one, so all parts hold and their negation does not. -/
theorem meaning_of_built_nested :
    let v : Valuation ℚ := ⟨fun name => name = "p", fun _ => 2, fun a => a⟩
    let small : Term ℚ := compare .lt (arith .div (numVar "x") (number 2)) (number 1)
    let t : Term ℚ := and [boolVar "p", and [boolVar "p", iff (bool false) small]]
    (not t).HasSort .bool ∧ ¬ (not t).Holds v := by
  intro v small t
  obtain ⟨hnot, hand, -, -, hiff, -, harith, hcompare, -⟩ := meaning_of_built v
  have hpair {a b : Term ℚ} (ha : a.HasSort .bool) (hb : b.HasSort .bool) :
      ∀ t ∈ [a, b], t.HasSort .bool :=
    List.forall_mem_cons.2 ⟨ha, List.forall_mem_singleton.2 hb⟩
  have hquotient := harith .div (numVar "x") (number 2) (.numVar _) (.number _)
  have hsmall := hcompare .lt _ (number 1) hquotient.1 (.number _)
  have hequal := hiff (bool false) small (.bool false) hsmall.1
  have hinner := hand _ (hpair (.boolVar "p") hequal.1)
  have houter := hand _ (hpair (.boolVar "p") hinner.1)
  have hnegated := hnot t houter.1
  refine ⟨hnegated.1, ?_⟩
  simp only [hnegated.2, t, houter.2, hinner.2, hequal.2, small, hsmall.2, hquotient.2,
    List.forall_mem_cons]
  simp [v, Holds, value, Valuation.apply, CompareOp.Relates]

end Term

end QueryTaint
