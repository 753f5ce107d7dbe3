import Mathlib.Algebra.Order.Field.Basic
import Mathlib.Order.Interval.Set.Infinite
import QueryTaint.Proofs.Term.Meaning
import QueryTaint.Term.Range

/-!
# The numbers in a range

`Range.Has` says which numbers of an ordered field lie in a range. Each comparison that a range is
restricted by leaves the numbers that compare as stated (`Range.has_restrict`), in whatever order the
comparisons come. A range is taken for empty exactly if no number lies in it (`Range.isEmpty_iff`):
between two different ends there are more numbers than are left out.
-/

namespace QueryTaint

/-! ## Ends -/

section Bounds

variable {K : Type} [LinearOrder K]

/-- Whether a number is on the inner side of a lower end. -/
def Bound.Below (l : Bound K) (x : K) : Prop := if l.closed then l.value ≤ x else l.value < x

/-- Whether a number is on the inner side of an upper end. -/
def Bound.Above (u : Bound K) (x : K) : Prop := if u.closed then x ≤ u.value else x < u.value

namespace Bound

variable {b : Bound K} {c x : K} {closed : Bool}

theorem below_of_lt (h : b.value < x) : b.Below x := by
  unfold Below
  split
  · exact h.le
  · exact h

theorem above_of_lt (h : x < b.value) : b.Above x := by
  unfold Above
  split
  · exact h.le
  · exact h

theorem Below.le (h : b.Below x) : b.value ≤ x := by
  unfold Below at h
  split at h
  · exact h
  · exact h.le

theorem Above.le (h : b.Above x) : x ≤ b.value := by
  unfold Above at h
  split at h
  · exact h
  · exact h.le

theorem Below.lt (h : b.Below x) (hopen : b.closed = false) : b.value < x := by
  rwa [Below, hopen, if_neg Bool.false_ne_true] at h

theorem Above.lt (h : b.Above x) (hopen : b.closed = false) : x < b.value := by
  rwa [Above, hopen, if_neg Bool.false_ne_true] at h

/-- A lower end that is further out, or as far and closed, says less. -/
theorem below_of_below (h : (⟨c, closed⟩ : Bound K).Below x)
    (hout : b.value ≤ c ∧ (b.value = c → b.closed = true)) : b.Below x := by
  rcases hout.1.lt_or_eq with hlt | heq
  · exact below_of_lt (hlt.trans_le h.le)
  · rw [Below, if_pos (hout.2 heq), heq]
    exact h.le

/-- An upper end that is further out, or as far and closed, says less. -/
theorem above_of_above (h : (⟨c, closed⟩ : Bound K).Above x)
    (hout : c ≤ b.value ∧ (b.value = c → b.closed = true)) : b.Above x := by
  rcases hout.1.lt_or_eq with hlt | heq
  · exact above_of_lt (lt_of_le_of_lt h.le hlt)
  · rw [Above, if_pos (hout.2 heq.symm), ← heq]
    exact h.le

end Bound

end Bounds

/-! ## Ranges -/

variable {K : Type} [Field K] [LinearOrder K]

/-- Whether a number lies in a range. -/
structure Range.Has (r : Range K) (x : K) : Prop where
  below : ∀ l ∈ r.lower, l.Below x
  above : ∀ u ∈ r.upper, u.Above x
  notMem : x ∉ r.excluded

namespace Range

variable {r : Range K} {x : K}

theorem excludes_iff : r.excludes x = true ↔ x ∈ r.excluded := by
  simp [excludes]

theorem contains_iff : r.contains x = true ↔ r.Has x := by
  have hparts : r.Has x ↔
      ((∀ l ∈ r.lower, l.Below x) ∧ ∀ u ∈ r.upper, u.Above x) ∧ x ∉ r.excluded :=
    ⟨fun h => ⟨⟨h.below, h.above⟩, h.notMem⟩, fun h => ⟨h.1.1, h.1.2, h.2⟩⟩
  rw [hparts, contains, Bool.and_eq_true, Bool.and_eq_true, Bool.not_eq_true',
    ← Bool.not_eq_true, excludes_iff]
  cases r.lower <;> cases r.upper <;> simp [Bound.Below, Bound.Above]

/-! ## Restrictions -/

theorem has_tightenLower {c : K} {closed : Bool} :
    (r.tightenLower c closed).Has x ↔ r.Has x ∧ (⟨c, closed⟩ : Bound K).Below x := by
  have hreplaced (hout : ∀ l ∈ r.lower, l.value ≤ c ∧ (l.value = c → l.closed = true)) :
      ({ r with lower := some ⟨c, closed⟩ } : Range K).Has x ↔
        r.Has x ∧ (⟨c, closed⟩ : Bound K).Below x :=
    ⟨fun h => ⟨⟨fun l hl => Bound.below_of_below (h.below _ rfl) (hout l hl), h.above, h.notMem⟩,
      h.below _ rfl⟩,
    fun ⟨h, hbelow⟩ => ⟨fun l hl => Option.some.inj hl ▸ hbelow, h.above, h.notMem⟩⟩
  unfold tightenLower
  split
  case h_2 hnone => exact hreplaced (by simp [hnone])
  case h_1 l hl =>
    split
    case isTrue hin =>
      simp only [Numeral.lt_field, Numeral.eq_field, Bool.or_eq_true, decide_eq_true_eq,
        Bool.and_eq_true, Bool.not_eq_true'] at hin
      refine ⟨fun h => ⟨h, Bound.below_of_lt ?_⟩, And.left⟩
      have hbelow := h.below l hl
      rcases hin with hlt | ⟨rfl, hopen⟩
      · exact hlt.trans_le hbelow.le
      · exact hbelow.lt hopen
    case isFalse hout =>
      simp only [Numeral.lt_field, Numeral.eq_field, Bool.or_eq_true, decide_eq_true_eq,
        Bool.and_eq_true, Bool.not_eq_true', not_or, not_lt, not_and, Bool.not_eq_false] at hout
      refine hreplaced fun l' hl' => ?_
      rw [hl] at hl'
      exact Option.some.inj hl' ▸ hout

theorem has_tightenUpper {c : K} {closed : Bool} :
    (r.tightenUpper c closed).Has x ↔ r.Has x ∧ (⟨c, closed⟩ : Bound K).Above x := by
  have hreplaced (hout : ∀ u ∈ r.upper, c ≤ u.value ∧ (u.value = c → u.closed = true)) :
      ({ r with upper := some ⟨c, closed⟩ } : Range K).Has x ↔
        r.Has x ∧ (⟨c, closed⟩ : Bound K).Above x :=
    ⟨fun h => ⟨⟨h.below, fun u hu => Bound.above_of_above (h.above _ rfl) (hout u hu), h.notMem⟩,
      h.above _ rfl⟩,
    fun ⟨h, habove⟩ => ⟨h.below, fun u hu => Option.some.inj hu ▸ habove, h.notMem⟩⟩
  unfold tightenUpper
  split
  case h_2 hnone => exact hreplaced (by simp [hnone])
  case h_1 u hu =>
    split
    case isTrue hin =>
      simp only [Numeral.lt_field, Numeral.eq_field, Bool.or_eq_true, decide_eq_true_eq,
        Bool.and_eq_true, Bool.not_eq_true'] at hin
      refine ⟨fun h => ⟨h, Bound.above_of_lt ?_⟩, And.left⟩
      have habove := h.above u hu
      rcases hin with hlt | ⟨rfl, hopen⟩
      · exact lt_of_le_of_lt habove.le hlt
      · exact habove.lt hopen
    case isFalse hout =>
      simp only [Numeral.lt_field, Numeral.eq_field, Bool.or_eq_true, decide_eq_true_eq,
        Bool.and_eq_true, Bool.not_eq_true', not_or, not_lt, not_and, Bool.not_eq_false] at hout
      refine hreplaced fun u' hu' => ?_
      rw [hu] at hu'
      exact Option.some.inj hu' ▸ hout

/-- A restriction by a comparison leaves the numbers that compare as stated. -/
theorem has_restrict (op : CompareOp) (c : K) :
    (r.restrict op c).Has x ↔ r.Has x ∧ op.Relates x c := by
  cases op with
  | eq =>
    rw [restrict, has_tightenUpper, has_tightenLower, and_assoc, CompareOp.Relates, le_antisymm_iff,
      and_comm (a := x ≤ c)]
    rfl
  | ne =>
    rw [restrict, CompareOp.Relates]
    refine ⟨fun h => ?_, fun h => ⟨h.1.below, h.1.above, ?_⟩⟩
    · have hnot := h.notMem
      rw [List.mem_append, List.mem_singleton, not_or] at hnot
      exact ⟨⟨h.below, h.above, hnot.1⟩, hnot.2⟩
    · rw [List.mem_append, List.mem_singleton, not_or]
      exact ⟨h.1.notMem, h.2⟩
  | lt | le => exact has_tightenUpper
  | gt | ge => exact has_tightenLower

omit [Field K] in
theorem has_full (x : K) : (full : Range K).Has x :=
  ⟨by simp [full], by simp [full], List.not_mem_nil⟩

/-! ## Members -/

theorem not_has_of_isEmpty (h : r.isEmpty = true) : ¬ r.Has x := by
  intro hx
  unfold isEmpty at h
  split at h
  case h_2 => cases h
  case h_1 l u hl hu =>
    have hbelow := hx.below l hl
    have habove := hx.above u hu
    have hends : l.value ≤ u.value := hbelow.le.trans habove.le
    simp only [Numeral.lt_field, Numeral.eq_field, Bool.or_eq_true, decide_eq_true_eq,
      Bool.and_eq_true, Bool.not_eq_true', Bool.and_eq_false_iff] at h
    rcases h with (hcross | ⟨heq, hopen⟩) | ⟨heq, hout⟩
    · exact hends.not_gt hcross
    · rcases hopen with hopen | hopen
      · exact (habove.le.trans heq.ge).not_gt (hbelow.lt hopen)
      · exact (heq.ge.trans hbelow.le).not_gt (habove.lt hopen)
    · have hsame : x = l.value := le_antisymm (habove.le.trans heq.ge) hbelow.le
      exact hx.notMem (hsame ▸ excludes_iff.1 hout)

omit [Field K] in
/-- Of infinitely many numbers between the ends, one is not left out. -/
theorem exists_has_of_infinite {between : Set K} (hinf : between.Infinite)
    (hbelow : ∀ x ∈ between, ∀ l ∈ r.lower, l.Below x)
    (habove : ∀ x ∈ between, ∀ u ∈ r.upper, u.Above x) : ∃ x, r.Has x := by
  obtain ⟨x, hx, hnot⟩ := hinf.exists_notMem_finset r.excluded.toFinset
  exact ⟨x, hbelow x hx, habove x hx, mt List.mem_toFinset.2 hnot⟩

variable [IsStrictOrderedRing K]

theorem exists_has_of_not_isEmpty (h : r.isEmpty = false) : ∃ x, r.Has x := by
  unfold isEmpty at h
  cases hl : r.lower with
  | none =>
    cases hu : r.upper with
    | none => exact exists_has_of_infinite Set.infinite_univ (by simp [hl]) (by simp [hu])
    | some u =>
      refine exists_has_of_infinite (Set.Iio_infinite u.value) (by simp [hl]) fun x hx u' hu' => ?_
      exact Option.some.inj (hu.symm.trans hu') ▸ Bound.above_of_lt hx
  | some l =>
    cases hu : r.upper with
    | none =>
      refine exists_has_of_infinite (Set.Ioi_infinite l.value) (fun x hx l' hl' => ?_) (by simp [hu])
      exact Option.some.inj (hl.symm.trans hl') ▸ Bound.below_of_lt hx
    | some u =>
      simp only [hl, hu, Numeral.lt_field, Numeral.eq_field, Bool.or_eq_false_iff,
        decide_eq_false_iff_not, not_lt, Bool.and_eq_false_iff, Bool.not_eq_false',
        Bool.and_eq_true] at h
      obtain ⟨⟨hends, hmeet⟩, hout⟩ := h
      rcases hends.lt_or_eq with hlt | heq
      · refine exists_has_of_infinite (Set.Ioo_infinite hlt) (fun x hx l' hl' => ?_)
          fun x hx u' hu' => ?_
        · exact Option.some.inj (hl.symm.trans hl') ▸ Bound.below_of_lt hx.1
        · exact Option.some.inj (hu.symm.trans hu') ▸ Bound.above_of_lt hx.2
      · -- the ends meet in one point, which belongs to both and is not left out
        obtain ⟨hlclosed, huclosed⟩ := hmeet.resolve_left (not_not.2 heq)
        refine ⟨l.value, fun l' hl' => ?_, fun u' hu' => ?_, fun hmem => ?_⟩
        · rw [← Option.some.inj (hl.symm.trans hl'), Bound.Below, if_pos hlclosed]
        · rw [← Option.some.inj (hu.symm.trans hu'), Bound.Above, if_pos huclosed, heq]
        · exact Bool.false_ne_true
            ((hout.resolve_left (not_not.2 heq)).symm.trans (excludes_iff.2 hmem))

/-- A range is taken for empty exactly if no number lies in it. -/
theorem isEmpty_iff : r.isEmpty = true ↔ ∀ x, ¬ r.Has x := by
  refine ⟨fun h x => not_has_of_isEmpty h, fun h => ?_⟩
  by_contra hne
  obtain ⟨x, hx⟩ := exists_has_of_not_isEmpty (Bool.eq_false_iff.2 hne)
  exact h x hx

omit [IsStrictOrderedRing K] in
/-- What is tried as a member and taken is a member. -/
theorem has_of_witness? (h : r.witness? = some x) : r.Has x :=
  contains_iff.1 (List.find?_some h)

end Range

end QueryTaint
