import Mathlib
import QueryTaint.Number.Binary64

/-!
# Rounding of natural numbers

A natural number from `2 ^ 52` on becomes the binary64 number that is nearest to it, of two equally
near ones the one with the even significand, and infinity from half a unit above the largest finite
number on (`Nearest`, `nearest_natural`, `nearest_decimal`). The bits are followed first: they are
what the number holds (`view_ofBits`), and they are made of a biased exponent and the lower bits of
a significand (`viewBits_normal`). Then the significand is the multiple of the unit that is nearest
to the number (`roundEven_nearest`), and no number of a smaller exponent reaches as near.
-/

namespace QueryTaint.Binary64

open Float.Model Float.Model.UnpackedFloat

/-! ## Bits -/

theorem toNat_unpackExponent (v : BitVec 64) :
    (@unpackExponent Format.binary64 v).toNat = v.toNat / 2 ^ 52 % 2 ^ 11 := by
  simp [unpackExponent, Nat.shiftRight_eq_div_pow]

theorem toNat_unpackMantissa (v : BitVec 64) :
    (@unpackMantissa Format.binary64 v).toNat = v.toNat % 2 ^ 52 := by
  simp [unpackMantissa]

/-- Bits up to those of infinity stand for a number. -/
theorem isNaNBits_of_le {v : BitVec 64} (h : v.toNat ≤ infinityBits) :
    @isNaNBits Format.binary64 v = false := by
  refine decide_eq_false fun ⟨hexponent, hmantissa⟩ => hmantissa ?_
  have hexponent : v.toNat / 2 ^ 52 % 2 ^ 11 = 2047 := by
    rw [← toNat_unpackExponent, hexponent]
    rfl
  refine BitVec.eq_of_toNat_eq ((toNat_unpackMantissa v).trans ?_)
  change v.toNat % 2 ^ 52 = 0
  rw [infinityBits] at h
  omega

/-- A number that is made from bits holds them. -/
theorem toBits_ofBits {b : UInt64} (h : b.toNat ≤ infinityBits) : (Float.ofBits b).toBits = b := by
  refine UInt64.toBitVec_inj.1 ((@pack_unpack Format.binary64 b.toBitVec (by decide)).trans ?_)
  rw [isNaNBits_of_le h]
  rfl

theorem view_ofBits {bits : Nat} (h : bits ≤ infinityBits) :
    view (Float.ofBits bits.toUInt64) = viewBits bits := by
  have hbits : bits.toUInt64.toNat = bits :=
    Nat.mod_eq_of_lt (Nat.lt_of_le_of_lt h (by decide))
  rw [view, toBits_ofBits (hbits.symm ▸ h), hbits]

/-- Bits are a biased exponent and the lower bits of a significand. -/
theorem viewBits_normal {biased fraction : Nat} (hlow : 1 ≤ biased) (hhigh : biased < 2047)
    (hfraction : fraction < 2 ^ 52) :
    viewBits (biased * 2 ^ 52 + fraction) = .finite false (fraction + 2 ^ 52) (biased - 1075) := by
  have hsign : (biased * 2 ^ 52 + fraction) / Nat.pow 2 63 % 2 = 0 := by
    rw [Nat.pow_eq]
    omega
  have hbiased : (biased * 2 ^ 52 + fraction) / Nat.pow 2 52 % Nat.pow 2 11 = biased := by
    rw [Nat.pow_eq, Nat.pow_eq]
    omega
  have hlower : (biased * 2 ^ 52 + fraction) % Nat.pow 2 52 = fraction := by
    rw [Nat.pow_eq]
    omega
  rw [viewBits, hsign, hbiased, hlower, if_neg (by omega), if_neg (by omega)]
  rfl

theorem viewBits_infinity : viewBits infinityBits = .infinite false := by
  decide

/-! ## Rounding to a multiple -/

/-- A multiple of a step is at most zero or at least the step, and further away if it is neither of
the two. -/
theorem multiple_apart {d : Int} (hd : 0 ≤ d) (t : Int) :
    t * d ≤ 0 ∧ (t ≠ 0 → t * d ≤ -d) ∨ d ≤ t * d ∧ (t ≠ 1 → 2 * d ≤ t * d) := by
  have hle : ∀ {x y : Int}, x ≤ y → x * d ≤ y * d := fun h => Int.mul_le_mul_of_nonneg_right h hd
  rcases Int.lt_or_le t 1 with h | h
  · refine .inl ⟨?_, fun hne => ?_⟩
    · exact (hle (Int.le_of_lt_add_one h)).trans_eq (Int.zero_mul d)
    · exact (hle (show t ≤ -1 by omega)).trans_eq (Int.neg_one_mul d)
  · refine .inr ⟨?_, fun hne => ?_⟩
    · exact (Int.one_mul d).symm.trans_le (hle h)
    · exact hle (show 2 ≤ t by omega)

/-- No multiple is nearer than the one that a quotient is rounded to, and where another one is as
near, that one is even. -/
theorem roundEven_nearest (a : Nat) {d : Nat} (hd : 0 < d) (j : Int) :
    (roundEven a d * d - a : Int).natAbs ≤ (j * d - a).natAbs ∧
      ((roundEven a d * d - a : Int).natAbs = (j * d - a).natAbs → j ≠ roundEven a d →
        roundEven a d % 2 = 0) := by
  obtain ⟨k, r, hk, hr, hlt, ha⟩ : ∃ k r, a / d = k ∧ a % d = r ∧ r < d ∧ a = k * d + r :=
    ⟨_, _, rfl, rfl, Nat.mod_lt _ hd, by rw [Nat.mul_comm]; exact (Nat.div_add_mod ..).symm⟩
  have hj : j * d - a = (j - k) * d - r := by
    rw [ha]
    push_cast
    ring
  have hmul := multiple_apart (Int.natCast_nonneg d) (j - k)
  rw [hj, roundEven, hk, hr]
  split
  · have hdown : (k : Int) * d - a = -r := by
      rw [ha]
      push_cast
      ring
    rw [hdown]
    generalize (j - k) * d = p at *
    omega
  · have hup : ((k + 1 : Nat) : Int) * d - a = d - r := by
      rw [ha]
      push_cast
      ring
    rw [hup]
    generalize (j - k) * d = p at *
    omega

theorem roundEven_bounds {a d k : Nat} (hd : 0 < d) (hlow : k * d ≤ a) (hhigh : a < 2 * k * d) :
    k ≤ roundEven a d ∧ roundEven a d ≤ 2 * k := by
  have hdiv : k ≤ a / d := (Nat.le_div_iff_mul_le hd).2 hlow
  have hlt : a / d < 2 * k := (Nat.div_lt_iff_lt_mul hd).2 hhigh
  rw [roundEven]
  split <;> omega

/-! ## Natural numbers -/

/-- The size of a finite number. -/
def size (mantissa : Nat) (exponent : Int) : Rat := mantissa * 2 ^ exponent

/-- The smallest size that is rounded to infinity, half a unit above the largest finite number,
which is `(2 ^ 53 - 1) * 2 ^ 971`. -/
def overflowSize : Nat := (2 ^ 54 - 1) * 2 ^ 970

/-- A number is what a natural number is rounded to: no number with a significand of 53 bits is
nearer, and where another one is as near, its significand is even. -/
inductive Nearest (n : Nat) : View → Prop
  | finite {mantissa : Nat} {exponent : Int} :
    (∀ m < 2 ^ 53, ∀ e : Int, |size mantissa exponent - n| ≤ |size m e - n| ∧
      (|size mantissa exponent - n| = |size m e - n| → size m e ≠ size mantissa exponent →
        mantissa % 2 = 0)) → Nearest n (.finite false mantissa exponent)
  | infinite : overflowSize ≤ n → Nearest n (.infinite false)

variable {n q : Nat}

/-- A number lies between two powers of two. -/
theorem log2_bounds (hq : n.log2 = 52 + q) : 2 ^ 52 * 2 ^ q ≤ n ∧ n < 2 * 2 ^ 52 * 2 ^ q := by
  have hn : n ≠ 0 := by
    rintro rfl
    rw [Nat.log2_zero] at hq
    omega
  refine ⟨?_, ?_⟩
  · rw [← Nat.pow_add, ← hq]
    exact Nat.log2_self_le hn
  · have hpow : 2 * 2 ^ 52 * 2 ^ q = 2 ^ (52 + q + 1) := by ring
    rw [hpow, ← hq]
    exact Nat.lt_log2_self

/-- The unit in the last place of a natural number. -/
theorem unitExponent_natural (hq : n.log2 = 52 + q) : unitExponent n 1 = q := by
  have hone : Nat.log2 1 = 0 := rfl
  have hle : 1 * Nat.pow 2 ((52 + q : Nat) - ((0 : Nat) : Int)).toNat ≤
      n * Nat.pow 2 (-((52 + q : Nat) - ((0 : Nat) : Int))).toNat := by
    have hup : ((52 + q : Nat) - ((0 : Nat) : Int)).toNat = 52 + q := by omega
    have hdown : (-((52 + q : Nat) - ((0 : Nat) : Int))).toNat = 0 := by omega
    rw [hup, hdown, Nat.pow_eq, Nat.pow_add, Nat.one_mul]
    exact (log2_bounds hq).1.trans_eq (Nat.mul_one n).symm
  simp only [unitExponent, hone, hq, if_pos hle]
  omega

theorem nearestBits_natural (hq : n.log2 = 52 + q) :
    nearestBits n 1 = min ((q + 1074) * 2 ^ 52 + roundEven n (2 ^ q)) infinityBits := by
  have hn : n ≠ 0 := by
    rintro rfl
    rw [Nat.log2_zero] at hq
    omega
  have hdown : (-(q : Int)).toNat = 0 := by omega
  have hbiased : ((q : Int) + 1074).toNat = q + 1074 := by omega
  rw [nearestBits, if_neg hn, unitExponent_natural hq]
  simp only [Int.toNat_natCast, hdown, hbiased, Nat.pow_eq, Nat.pow_zero, Nat.mul_one, Nat.one_mul]

/-- A number whose size is the nearest multiple of the unit is nearest among all numbers: those of
larger units are multiples, too, and those of smaller ones lie below all numbers that have this
unit. -/
theorem nearest_of_size {mantissa : Nat} {exponent : Int} (hq : n.log2 = 52 + q)
    (hsize : size mantissa exponent = (roundEven n (2 ^ q) : Int) * 2 ^ q)
    (heven : roundEven n (2 ^ q) % 2 = 0 → mantissa % 2 = 0) :
    Nearest n (.finite false mantissa exponent) := by
  have hunit : 0 < 2 ^ q := Nat.two_pow_pos q
  have hdistance : ∀ j : Int, |(j : Rat) * 2 ^ q - n| = (j * (2 ^ q : Nat) - n).natAbs := by
    intro j
    rw [Nat.cast_natAbs]
    push_cast
    rfl
  refine .finite fun m hm e => ?_
  rw [hsize, hdistance]
  rcases Int.lt_or_le e q with he | he
  · have hbelow : size m e < 2 ^ 52 * 2 ^ q := by
      have hm : (m : Rat) < 2 ^ 53 := by exact_mod_cast hm
      calc size m e < 2 ^ 53 * 2 ^ e := mul_lt_mul_of_pos_right hm (by positivity)
        _ ≤ 2 ^ 53 * 2 ^ ((q : Int) - 1) :=
          mul_le_mul_of_nonneg_left (zpow_le_zpow_right₀ one_le_two (by omega)) (by positivity)
        _ = 2 ^ 52 * 2 ^ q := by
          rw [zpow_sub₀ two_ne_zero, zpow_natCast]
          ring
    have hlow : (2 ^ 52 * 2 ^ q : Rat) ≤ n := by exact_mod_cast (log2_bounds hq).1
    have hnearest : ((roundEven n (2 ^ q) * (2 ^ q : Nat) - n : Int).natAbs : Rat) ≤
        n - 2 ^ 52 * 2 ^ q := by
      have hle := (roundEven_nearest n hunit (2 ^ 52)).1
      have heq : (((2 ^ 52 : Int) * (2 ^ q : Nat) - n).natAbs : Rat) = n - 2 ^ 52 * 2 ^ q := by
        rw [Nat.cast_natAbs]
        push_cast
        rw [abs_sub_comm, abs_of_nonneg (by linarith)]
        norm_num
      rw [← heq]
      exact_mod_cast hle
    have hfar : |size m e - n| = n - size m e := by
      rw [abs_sub_comm, abs_of_pos (by linarith)]
    rw [hfar]
    refine ⟨by linarith, fun heq => ?_⟩
    linarith
  · obtain ⟨k, hk⟩ := Int.le.dest he
    have hmultiple : size m e = ((m * 2 ^ k : Nat) : Int) * 2 ^ q := by
      rw [size, ← hk, zpow_add₀ two_ne_zero, zpow_natCast, zpow_natCast]
      push_cast
      ring
    obtain ⟨hle, htie⟩ := roundEven_nearest n hunit ((m * 2 ^ k : Nat) : Int)
    rw [hmultiple, hdistance]
    refine ⟨?_, fun heq hne => heven (htie ?_ ?_)⟩
    · exact_mod_cast hle
    · exact_mod_cast heq
    · rintro hj
      exact hne (by rw [hj])

/-- A number overflows from twice the unit of the last binade on, and in that binade when its
significand is rounded up to the next power of two. -/
theorem overflow_of_binade {k u : Nat} (hlow : 2 ^ 52 * (2 ^ (k + 1) * u) ≤ n)
    (hhigh : n < 2 * 2 ^ 52 * (2 ^ (k + 1) * u))
    (hround : k = 0 → roundEven n (2 ^ (k + 1) * u) = 2 ^ 53) : (2 ^ 54 - 1) * u ≤ n := by
  cases k with
  | zero =>
    have hnearest := (roundEven_nearest n (d := 2 ^ (0 + 1) * u) (by omega) (2 ^ 53 - 1)).1
    rw [hround rfl] at hnearest
    push_cast at hnearest
    omega
  | succ k =>
    have hunits : 2 * 2 * u ≤ 2 ^ (k + 1 + 1) * u :=
      Nat.mul_le_mul_right u (Nat.pow_le_pow_right Nat.two_pos (Nat.le_add_left 2 k))
    omega

/-- The bits of a significand between two powers of two are those of its size. At the upper end the
exponent takes the carry. -/
theorem viewBits_significand {significand : Nat} (hlow : 2 ^ 52 ≤ significand)
    (hhigh : significand ≤ 2 ^ 53) (hlt : (q + 1074) * 2 ^ 52 + significand < infinityBits) :
    ∃ mantissa exponent, viewBits ((q + 1074) * 2 ^ 52 + significand) =
        .finite false mantissa exponent ∧ size mantissa exponent = (significand : Int) * 2 ^ q ∧
      (significand % 2 = 0 → mantissa % 2 = 0) := by
  have hbiased : q + 1075 < 2047 ∧ (significand = 2 ^ 53 → q + 1076 < 2047) := by
    rw [infinityBits] at hlt
    omega
  rcases Nat.lt_or_eq_of_le hhigh with hless | rfl
  · obtain ⟨fraction, rfl⟩ := Nat.exists_eq_add_of_le' hlow
    have hfraction : fraction < 2 ^ 52 :=
      Nat.lt_of_add_lt_add_right (hless.trans_eq (show 2 ^ 53 = 2 ^ 52 + 2 ^ 52 by norm_num))
    have hparts : (q + 1074) * 2 ^ 52 + (fraction + 2 ^ 52) = (q + 1075) * 2 ^ 52 + fraction := by
      ring
    refine ⟨fraction + 2 ^ 52, (q + 1075 : Nat) - 1075, ?_, ?_, id⟩
    · rw [hparts]
      exact viewBits_normal (Nat.le_add_left _ _) hbiased.1 hfraction
    · have hq : ((q + 1075 : Nat) : Int) - 1075 = q := by omega
      rw [hq, size, zpow_natCast, Int.cast_natCast]
  · have hparts : (q + 1074) * 2 ^ 52 + 2 ^ 53 = (q + 1076) * 2 ^ 52 + 0 := by ring
    refine ⟨2 ^ 52, (q + 1076 : Nat) - 1075, ?_, ?_, fun _ => ?_⟩
    · rw [hparts, viewBits_normal (Nat.le_add_left _ _) (hbiased.2 rfl) (Nat.two_pow_pos 52),
        Nat.zero_add]
    · have hq : ((q + 1076 : Nat) : Int) - 1075 = (q + 1 : Nat) := by omega
      rw [hq, size, zpow_natCast, Int.cast_natCast]
      push_cast
      ring
    · norm_num

theorem view_nearest (hq : n.log2 = 52 + q) : view (nearest false n 1) =
    viewBits (min ((q + 1074) * 2 ^ 52 + roundEven n (2 ^ q)) infinityBits) := by
  rw [nearest, if_neg Bool.false_ne_true, Nat.add_zero, nearestBits_natural hq]
  exact view_ofBits (Nat.min_le_right _ _)

/-- A natural number from `2 ^ 52` on is rounded to the nearest number. -/
theorem nearest_natural (hn : 2 ^ 52 ≤ n) : Nearest n (view (nearest false n 1)) := by
  have hlog : 52 ≤ n.log2 := (Nat.le_log2 (by omega)).2 hn
  obtain ⟨q, hq⟩ := Nat.exists_eq_add_of_le hlog
  obtain ⟨hlow, hhigh⟩ := log2_bounds hq
  obtain ⟨hfirst, hlast⟩ := roundEven_bounds (Nat.two_pow_pos q) hlow hhigh
  rw [view_nearest hq]
  rcases Nat.lt_or_ge ((q + 1074) * 2 ^ 52 + roundEven n (2 ^ q)) infinityBits with hlt | hge
  · rw [Nat.min_eq_left (Nat.le_of_lt hlt)]
    obtain ⟨mantissa, exponent, hbits, hsize, heven⟩ := viewBits_significand hfirst hlast hlt
    rw [hbits]
    exact nearest_of_size hq hsize heven
  · rw [Nat.min_eq_right hge, viewBits_infinity]
    have hbinade : 971 ≤ q ∧ (q = 971 → roundEven n (2 ^ q) = 2 ^ 53) := by
      rw [infinityBits] at hge
      omega
    obtain ⟨k, rfl⟩ : ∃ k, q = k + 1 + 970 := ⟨q - 971, by omega⟩
    have hround : k = 0 → roundEven n (2 ^ (k + 1 + 970)) = 2 ^ 53 := fun hk =>
      hbinade.2 (by omega)
    rw [pow_add] at hlow hhigh hround
    exact .infinite (overflow_of_binade hlow hhigh hround)

/-- More than four hundred digits overflow. -/
theorem overflowSize_le_of_digits (h : 400 < (Nat.toDigits 10 n).length) : overflowSize ≤ n := by
  have hdigits := mt (Nat.length_toDigits_le_iff (by decide) (by decide)).2 (Nat.not_le.2 h)
  exact Nat.le_trans (by decide +kernel) (Nat.le_of_not_lt hdigits)

/-- So is a decimal without an exponent, also where its digits are so many that they are cut
off. -/
theorem nearest_decimal (hn : 2 ^ 52 ≤ n) : Nearest n (view (ofDecimal false n 0)) := by
  have hne : n ≠ 0 := by
    rintro rfl
    exact absurd hn (by decide)
  rw [ofDecimal, if_neg hne]
  dsimp only
  split
  · rename_i hlong
    obtain ⟨q, hq, hlarge⟩ : ∃ q, 2000 = 52 + q ∧ 972 ≤ q := ⟨1948, rfl, by decide⟩
    have hinfinite : infinityBits ≤ (q + 1074) * 2 ^ 52 := by
      rw [infinityBits]
      omega
    rw [hq, view_nearest (n := Nat.pow 2 (52 + q)) Nat.log2_two_pow,
      Nat.min_eq_right (hinfinite.trans (Nat.le_add_right _ _)), viewBits_infinity]
    exact .infinite (overflowSize_le_of_digits (by omega))
  · rw [if_neg (by omega)]
    have hone : n * Nat.pow 10 (0 : Int).toNat = n := Nat.mul_one n
    rw [hone]
    exact nearest_natural hn

end QueryTaint.Binary64
