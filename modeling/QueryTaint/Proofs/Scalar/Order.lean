import QueryTaint.Proofs.Term.Meaning
import QueryTaint.Scalar.Basic

/-!
# The order of scalars and their equality

Over numbers that compare as those of a linear order, `Scalar.looseEq` does not depend on which
side a scalar stands (`looseEq_comm`), and neither does `Scalar.compare?`, turned round
(`compare?_swap`). The two agree on what is equal with one exception: null and the string `0` are
of one order, since neither counts as true, and not equal (`compare?_eq_iff`).
-/

namespace QueryTaint

/-- Numbers compare as those of a linear order. -/
structure Numeral.Linear (ν : Type) [Numeral ν] [LinearOrder ν] : Prop where
  eq_iff (a b : ν) : Numeral.eq a b = true ↔ a = b
  lt_iff (a b : ν) : Numeral.lt a b = true ↔ a < b

/-- The numbers of an ordered field do. -/
theorem Numeral.linear_field (K : Type) [Field K] [LinearOrder K] : Linear K :=
  ⟨fun _ _ => decide_eq_true_iff, fun _ _ => decide_eq_true_iff⟩

theorem Numeral.Linear.eq_comm {ν : Type} [Numeral ν] [LinearOrder ν] (h : Linear ν) (a b : ν) :
    Numeral.eq a b = Numeral.eq b a := by
  rw [Bool.eq_iff_iff, h.eq_iff, h.eq_iff]
  exact Eq.comm

theorem Numeral.Linear.order?_eq {ν : Type} [Numeral ν] [LinearOrder ν] (h : Linear ν) (a b : ν) :
    Numeral.order? a b = some (compare a b) := by
  simp only [order?, h.eq_iff, h.lt_iff]
  rcases lt_trichotomy a b with hlt | heq | hgt
  · rw [if_pos hlt, compare_lt_iff_lt.2 hlt]
  · rw [if_neg (not_lt_of_ge heq.ge), if_pos heq, compare_eq_iff_eq.2 heq]
  · rw [if_neg (not_lt_of_gt hgt), if_neg hgt.ne', if_pos hgt, compare_gt_iff_gt.2 hgt]

namespace Scalar

theorem orderTruth_swap (a b : Bool) : orderTruth b a = (orderTruth a b).swap := by
  cases a <;> cases b <;> rfl

theorem orderTruth_eq_iff (a b : Bool) : orderTruth a b = .eq ↔ (a == b) = true := by
  cases a <;> cases b <;> decide

/-- A string that does not count as true is empty, which null equals, or `0`, which it does not. -/
theorem orderTruth_stringTruthy_eq_iff (s : String) :
    orderTruth false (stringTruthy s) = .eq ↔ s.isEmpty = true ∨ s = "0" := by
  rw [orderTruth_eq_iff, stringTruthy]
  by_cases hempty : s.isEmpty = true
  · simp [hempty]
  · simp [hempty]

variable {ν : Type} [NumeralText ν]

/-- Null stands beside the string `0`. -/
def NullBesideZero : Scalar ν → Scalar ν → Prop
  | null, string s => s = "0"
  | string s, null => s = "0"
  | _, _ => False

variable [LinearOrder ν] (hν : Numeral.Linear ν)
include hν

theorem stringEqString_comm (s t : String) : stringEqString ν s t = stringEqString ν t s := by
  unfold stringEqString
  split
  · rename_i x y hx hy
    rw [hx, hy]
    exact hν.eq_comm x y
  · rename_i hnone
    split
    · rename_i y x hy hx
      exact absurd hy (hnone x y hx)
    · exact Bool.beq_comm

theorem looseEq_comm (a b : Scalar ν) : looseEq a b = looseEq b a := by
  cases a <;> cases b <;> try rfl
  case bool.bool a b => exact Bool.beq_comm
  case number.number x y => exact hν.eq_comm x y
  case string.string s t => exact stringEqString_comm hν s t

theorem compareNumbers?_swap (a b : Scalar ν) :
    compareNumbers? b a = (compareNumbers? a b).map Ordering.swap := by
  unfold compareNumbers?
  cases a.toNumber? with
  | none => cases b.toNumber? <;> rfl
  | some x =>
    cases b.toNumber? with
    | none => rfl
    | some y =>
      have hswap : compare y x = (compare x y).swap := Std.OrientedOrd.eq_swap
      simp only [hν.order?_eq, Option.map_some, hswap]

theorem compare?_swap (a b : Scalar ν) : compare? b a = (compare? a b).map Ordering.swap := by
  cases a <;> cases b
  case string.string s t =>
    have hswap : compare t s = (compare s t).swap := Std.OrientedOrd.eq_swap
    simp only [compare?, Bool.or_comm (NumeralText.read? (ν := ν) t).isNone]
    split
    · exact congrArg some hswap
    · exact compareNumbers?_swap hν _ _
  case number.number x y => exact compareNumbers?_swap hν (number x) (number y)
  case number.string x t => exact compareNumbers?_swap hν (number x) (string t)
  case string.number s y => exact compareNumbers?_swap hν (string s) (number y)
  all_goals exact congrArg some (orderTruth_swap _ _)

/-- Scalars that are ordered by their numbers are equal if the numbers are. -/
theorem compareNumbers?_eq_iff (a b : Scalar ν) {o : Ordering}
    (h : compareNumbers? a b = some o) :
    ∃ x y, a.toNumber? = some x ∧ b.toNumber? = some y ∧ (o = .eq ↔ Numeral.eq x y = true) := by
  unfold compareNumbers? at h
  split at h
  · rename_i x y hx hy
    rw [hν.order?_eq] at h
    refine ⟨x, y, hx, hy, ?_⟩
    rw [← Option.some.inj h, hν.eq_iff, compare_eq_iff_eq]
  · cases h

theorem compare?_string_eq_iff {s t : String} {o : Ordering}
    (h : compare? (string s : Scalar ν) (string t) = some o) :
    o = .eq ↔ stringEqString ν s t = true := by
  simp only [compare?] at h
  unfold stringEqString
  split at h
  · rename_i hnone
    split
    · rename_i x y hx hy
      rw [hx, hy] at hnone
      exact absurd hnone (by simp)
    · rw [← Option.some.inj h, Std.LawfulEqOrd.compare_eq_iff_eq, beq_iff_eq]
  · obtain ⟨x, y, hx, hy, heq⟩ := compareNumbers?_eq_iff hν (string s) (string t) h
    rw [show NumeralText.read? s = some x from hx, show NumeralText.read? t = some y from hy]
    exact heq

theorem compare?_number_string_eq_iff {x : ν} {t : String} {o : Ordering}
    (h : compare? (number x) (string t) = some o) :
    o = .eq ↔ looseEq (number x) (string t) = true := by
  obtain ⟨x', y, hx, hy, heq⟩ := compareNumbers?_eq_iff hν (number x) (string t) h
  rw [looseEq, numberEqString, show NumeralText.read? t = some y from hy, Option.some.inj hx]
  exact heq

/-- Two scalars agree in order and equality if they do the other way round. -/
theorem eq_iff_of_swap {a b : Scalar ν} {o : Ordering} (h : compare? a b = some o)
    (hswap : ∀ {o}, compare? b a = some o → (o = .eq ↔ looseEq b a = true ∨ NullBesideZero b a)) :
    o = .eq ↔ looseEq a b = true ∨ NullBesideZero a b := by
  have hexcept : NullBesideZero a b ↔ NullBesideZero b a := by cases a <;> cases b <;> rfl
  have hback : compare? b a = some o.swap := (compare?_swap hν a b).trans (congrArg _ h)
  rw [looseEq_comm hν, hexcept, ← hswap hback]
  cases o <;> decide

/-- Scalars of one order are equal, except null and the string `0`. -/
theorem compare?_eq_iff {a b : Scalar ν} {o : Ordering} (h : compare? a b = some o) :
    o = .eq ↔ looseEq a b = true ∨ NullBesideZero a b := by
  have htruth : ∀ t u, some (orderTruth t u) = some o → looseEq a b = (t == u) →
      ¬NullBesideZero a b → (o = .eq ↔ looseEq a b = true ∨ NullBesideZero a b) := by
    intro t u h hloose hexcept
    rw [← Option.some.inj h, orderTruth_eq_iff, hloose, or_iff_left hexcept]
  cases a with
  | null =>
    cases b with
    | null => exact htruth _ _ h rfl id
    | bool c => exact htruth _ _ h Bool.beq_comm id
    | number y => exact htruth _ _ h (Bool.false_beq _).symm id
    | string t => exact Option.some.inj h ▸ orderTruth_stringTruthy_eq_iff t
  | bool c => cases b <;> exact htruth _ _ h rfl id
  | number x =>
    cases b with
    | null => exact htruth _ _ h (by simp [looseEq]) id
    | bool c => exact htruth _ _ h Bool.beq_comm id
    | number y =>
      obtain ⟨x', y', hx, hy, heq⟩ := compareNumbers?_eq_iff hν (number x) (number y) h
      rw [← Option.some.inj hx, ← Option.some.inj hy] at heq
      exact heq.trans (or_iff_left id).symm
    | string t => exact (compare?_number_string_eq_iff hν h).trans (or_iff_left id).symm
  | string s =>
    cases b with
    | null =>
      exact eq_iff_of_swap hν h fun h => Option.some.inj h ▸ orderTruth_stringTruthy_eq_iff s
    | bool c => exact htruth _ _ h Bool.beq_comm id
    | number y =>
      exact eq_iff_of_swap hν h fun h =>
        (compare?_number_string_eq_iff hν h).trans (or_iff_left id).symm
    | string t => exact (compare?_string_eq_iff hν h).trans (or_iff_left id).symm

omit [LinearOrder ν] hν in
example : compare? (null : Scalar ν) (string "0") = some .eq ∧
    looseEq (null : Scalar ν) (string "0") = false := ⟨rfl, rfl⟩

end Scalar

end QueryTaint
