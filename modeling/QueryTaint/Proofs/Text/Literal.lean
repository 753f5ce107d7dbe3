import Mathlib.Data.List.Forall2
import Mathlib.Data.List.TakeWhile
import QueryTaint.Concrete.Literal
import QueryTaint.Proofs.Number.Nearest

/-!
# Literals

An integer literal is written in base ten, or in base sixteen, two or eight after a prefix, or in
base eight after a leading zero; single separators may stand between its digits (`Denotes`). Below
`2 ^ 63` the literal is read as the integer that it denotes, in every notation
(`intLiteral_eq_int`). From there on it is a float, but the digits are then read as a decimal number
whatever the notation: that is the number nearest to what a decimal literal denotes
(`intLiteral_decimal`), zero after a prefix (`intLiteral_prefixed`), and the number that the same
digits denote in base ten after a leading zero (`intLiteral_leadingZero`).

A text is written as a single-quoted literal with a backslash before each backslash and each quote
(`escapeSingle`), and is read back from it. A backslash before any other character stands for itself
(`unescapeSingle_append_backslash`).
-/

namespace QueryTaint.Concrete

/-! ## Digits -/

/-- A character is the digit of a number in some base, as a letter of either case. -/
def IsDigit (base : Nat) (c : Char) (n : Nat) : Prop :=
  n < base ∧ (c = n.digitChar ∨ c = n.digitChar.toUpper)

/-- Digits of a base with single separators between them write a number. -/
inductive Writes (base : Nat) : List Char → Nat → Prop
  | digit {c : Char} {n : Nat} : IsDigit base c n → Writes base [c] n
  | next {cs : List Char} {c : Char} {v n : Nat} : Writes base cs v → IsDigit base c n →
    Writes base (cs ++ [c]) (v * base + n)
  | separated {cs : List Char} {c : Char} {v n : Nat} : Writes base cs v → IsDigit base c n →
    Writes base (cs ++ ['_', c]) (v * base + n)

/-- The letters after the first zero that announce a base. -/
def prefixes : List (Char × Nat) :=
  [('x', 16), ('X', 16), ('b', 2), ('B', 2), ('o', 8), ('O', 8)]

/-- How integer literals are written: in base ten, in the base that a prefix announces, or in base
eight after a leading zero. -/
inductive Spelling where
  | decimal | prefixed | leadingZero
deriving DecidableEq, Repr

/-- A text is an integer literal that denotes a number. -/
inductive Denotes : Spelling → List Char → Nat → Prop
  | decimal {c : Char} {cs : List Char} {v : Nat} : c ≠ '0' → Writes 10 (c :: cs) v →
    Denotes .decimal (c :: cs) v
  | prefixed {x : Char} {base : Nat} {cs : List Char} {v : Nat} : (x, base) ∈ prefixes →
    Writes base cs v → Denotes .prefixed ('0' :: x :: cs) v
  | leadingZero {cs : List Char} {v : Nat} : Writes 8 ('0' :: cs) v →
    Denotes .leadingZero ('0' :: cs) v

variable {base v n : Nat} {c : Char} {cs : List Char}

/-! ## Reading digits -/

/-- The digits among the characters of a literal. -/
def digitsOf (cs : List Char) : List Char := cs.filter (· ≠ '_')

/-- What follows a number when one more digit is read. -/
def readDigit? (base n : Nat) (c : Char) : Option Nat := (digitValue? base c).map (n * base + ·)

/-- Every digit of a base has its value there, as a letter of either case. -/
theorem digitValue?_digitChar : ∀ base ≤ 16, ∀ n < base,
    digitValue? base n.digitChar.toLower = some n ∧
      digitValue? base n.digitChar.toUpper.toLower = some n := by
  decide

/-- No digit is a separator. -/
theorem digitChar_ne_separator : ∀ n < 16, n.digitChar ≠ '_' ∧ n.digitChar.toUpper ≠ '_' := by
  decide

/-- A digit of base ten has no case, and is a decimal digit by its code. -/
theorem digitChar_decimal : ∀ n < 10, n.digitChar.toUpper = n.digitChar ∧
    n.digitChar.toLower = n.digitChar ∧ n.digitChar.isDigit = true ∧
      n.digitChar.toNat - '0'.toNat = n := by
  decide

theorem IsDigit.value (h : IsDigit base c n) (hbase : base ≤ 16) :
    digitValue? base c.toLower = some n := by
  obtain ⟨hlt, rfl | rfl⟩ := h
  · exact (digitValue?_digitChar base hbase n hlt).1
  · exact (digitValue?_digitChar base hbase n hlt).2

theorem IsDigit.ne_separator (h : IsDigit base c n) (hbase : base ≤ 16) : c ≠ '_' := by
  obtain ⟨hlt, rfl | rfl⟩ := h
  · exact (digitChar_ne_separator n (Nat.lt_of_lt_of_le hlt hbase)).1
  · exact (digitChar_ne_separator n (Nat.lt_of_lt_of_le hlt hbase)).2

/-- A digit of a base up to ten is a decimal digit. -/
theorem IsDigit.decimal (h : IsDigit base c n) (hbase : base ≤ 10) :
    c.toLower = c ∧ c.isDigit = true ∧ c.toNat - '0'.toNat = n := by
  obtain ⟨hlt, hc⟩ := h
  obtain ⟨hupper, hdigit⟩ := digitChar_decimal n (Nat.lt_of_lt_of_le hlt hbase)
  rw [hupper, or_self] at hc
  exact hc ▸ hdigit

/-- The number that digits make in a base, after those of `v`. -/
def continued (base v : Nat) (ns : List Nat) : Nat := ns.foldl (fun v n => v * base + n) v

theorem digitsOf_cons (hc : c ≠ '_') (cs : List Char) : digitsOf (c :: cs) = c :: digitsOf cs :=
  List.filter_cons_of_pos (decide_eq_true hc)

/-- What writes a number is digits, with separators that are left out. -/
theorem Writes.digits (h : Writes base cs v) (hbase : base ≤ 16) :
    ∃ ns, List.Forall₂ (IsDigit base) (digitsOf cs) ns ∧ ns ≠ [] ∧ continued base 0 ns = v := by
  -- A digit is added at the end, and a separator before it makes no difference.
  have hadd : ∀ {cs c v n} (between : List Char), IsDigit base c n →
      digitsOf (cs ++ between) = digitsOf cs →
      (∃ ns, List.Forall₂ (IsDigit base) (digitsOf cs) ns ∧ ns ≠ [] ∧ continued base 0 ns = v) →
      ∃ ns, List.Forall₂ (IsDigit base) (digitsOf (cs ++ between ++ [c])) ns ∧ ns ≠ [] ∧
        continued base 0 ns = v * base + n := by
    rintro cs c v n between hc hbetween ⟨ns, hns, -, rfl⟩
    refine ⟨ns ++ [n], ?_, List.append_ne_nil_of_right_ne_nil _ (List.cons_ne_nil _ _), ?_⟩
    · have hdigits : digitsOf (cs ++ between ++ [c]) = digitsOf cs ++ [c] := by
        rw [digitsOf, List.filter_append]
        exact congrArg₂ (· ++ ·) hbetween (digitsOf_cons (hc.ne_separator hbase) [])
      rw [hdigits]
      exact List.rel_append hns (.cons hc .nil)
    · exact List.foldl_append ..
  induction h with
  | @digit c n hc =>
    refine ⟨[n], ?_, List.cons_ne_nil _ _, ?_⟩
    · rw [digitsOf_cons (hc.ne_separator hbase)]
      exact .cons hc .nil
    · exact (congrArg (· + n) (Nat.zero_mul base)).trans (Nat.zero_add n)
  | @next cs c v n _ hc ih => simpa using hadd [] hc (by rw [List.append_nil]) ih
  | @separated cs c v n _ hc ih =>
    simpa using hadd ['_'] hc (by simp [Concrete.digitsOf]) ih

/-- Digits are read as the number that they make. -/
theorem foldlM_readDigit? {ds : List Char} {ns : List Nat}
    (h : List.Forall₂ (IsDigit base) ds ns) (hbase : base ≤ 16) (v : Nat) :
    (ds.map Char.toLower).foldlM (readDigit? base) v = some (continued base v ns) := by
  induction h generalizing v with
  | nil => rfl
  | cons hc _ ih =>
    rw [List.map_cons, List.foldlM_cons, readDigit?, hc.value hbase]
    exact ih _

/-- Digits of a base up to ten are decimal digits. -/
theorem digitsValue_of_digits {ds : List Char} {ns : List Nat}
    (h : List.Forall₂ (IsDigit base) ds ns) (hbase : base ≤ 10) :
    (∀ c ∈ ds, c.isDigit = true) ∧ digitsValue ds = continued 10 0 ns := by
  have hfold : ∀ v, ds.foldl (fun v c => v * 10 + (c.toNat - '0'.toNat)) v = continued 10 v ns := by
    induction h with
    | nil => exact fun _ => rfl
    | cons hc _ ih =>
      intro v
      rw [List.foldl_cons, ih, (hc.decimal hbase).2.2]
      rfl
  refine ⟨?_, hfold 0⟩
  clear hfold
  induction h with
  | nil => exact nofun
  | cons hc _ ih => exact List.forall_mem_cons.2 ⟨(hc.decimal hbase).2.1, ih⟩

/-- A number begins with a digit. -/
theorem Writes.head (h : Writes base cs v) : ∃ c n rest, cs = c :: rest ∧ IsDigit base c n := by
  induction h with
  | @digit c n hc => exact ⟨c, n, [], rfl, hc⟩
  | next _ _ ih | separated _ _ ih =>
    obtain ⟨c, n, rest, rfl, hc⟩ := ih
    exact ⟨c, n, _, rfl, hc⟩

theorem readBase?_of_digits {ds : List Char} {ns : List Nat}
    (h : List.Forall₂ (IsDigit base) ds ns) (hne : ns ≠ []) (hbase : base ≤ 16) :
    readBase? base (ds.map Char.toLower) = some (continued base 0 ns) := by
  cases h with
  | nil => exact absurd rfl hne
  | cons hc hcs => exact foldlM_readDigit? (.cons hc hcs) hbase 0

/-! ## Literals -/

/-- What announces a base is a letter, and none that a decimal number may hold. -/
theorem prefixes_letters : ∀ p ∈ prefixes, p.2 ≤ 16 ∧ p.1 ≠ '_' ∧ p.1.isDigit = false ∧
    p.1 ∉ ['.', 'e', 'E'] := by
  decide

theorem announcedBase_prefixed {x : Char} (h : (x, base) ∈ prefixes) (ds : List Char) :
    announcedBase ('0' :: x.toLower :: ds) = (base, ds) := by
  simp only [prefixes, List.mem_cons, Prod.mk.injEq, List.not_mem_nil, or_false] at h
  rcases h with h | h | h | h | h | h <;> obtain ⟨rfl, rfl⟩ := h <;> rfl

theorem announcedBase_of_ne_zero (hc : c ≠ '0') (ds : List Char) :
    announcedBase (c :: ds) = (10, c :: ds) := by
  unfold announcedBase
  split <;> simp_all

theorem announcedBase_zero (hc : c.isDigit = true) (ds : List Char) :
    announcedBase ('0' :: c :: ds) = (8, c :: ds) := by
  have hletter : ∀ x ∈ ['x', 'b', 'o'], c ≠ x := by
    rintro x hx rfl
    have hnone : ∀ x ∈ ['x', 'b', 'o'], x.isDigit = false := by simp
    exact absurd hc (by rw [hnone _ hx]; exact Bool.false_ne_true)
  simp only [List.forall_mem_cons] at hletter
  unfold announcedBase
  split <;> simp_all

/-- The first characters of a literal announce a base in which the rest reads as the number that
the literal denotes. -/
theorem Denotes.announced {s : Spelling} (h : Denotes s cs v) :
    ∃ base ds, announcedBase ((digitsOf cs).map Char.toLower) = (base, ds) ∧
      readBase? base ds = some v := by
  cases h with
  | @decimal c cs v hc hcs =>
    obtain ⟨ns, hns, hne, rfl⟩ := hcs.digits (by decide)
    refine ⟨10, _, ?_, readBase?_of_digits hns hne (by decide)⟩
    obtain ⟨_, n, _, ⟨⟩, hdigit⟩ := hcs.head
    rw [digitsOf_cons (hdigit.ne_separator (by decide)), List.map_cons,
      (hdigit.decimal (by decide)).1]
    exact announcedBase_of_ne_zero hc _
  | @prefixed x base cs v hx hcs =>
    obtain ⟨hbase, hseparator, -, -⟩ := prefixes_letters _ hx
    obtain ⟨ns, hns, hne, rfl⟩ := hcs.digits hbase
    rw [digitsOf_cons (by decide), digitsOf_cons hseparator]
    exact ⟨base, _, announcedBase_prefixed hx _, readBase?_of_digits hns hne hbase⟩
  | @leadingZero cs v hcs =>
    obtain ⟨ns, hns, -, rfl⟩ := hcs.digits (by decide)
    rw [digitsOf_cons (by decide)] at hns ⊢
    -- The zero is a digit, too, but adds nothing.
    obtain ⟨n, rest, hzero, hrest, rfl⟩ := List.forall₂_cons_left_iff.1 hns
    obtain rfl : 0 = n := Option.some.inj (hzero.value (by decide))
    generalize digitsOf cs = digits at hrest ⊢
    cases hrest with
    | nil => exact ⟨10, ['0'], rfl, rfl⟩
    | @cons d m ds ns hd hds =>
      have hread := readBase?_of_digits (.cons hd hds) (List.cons_ne_nil m ns) (by decide)
      refine ⟨8, _, ?_, hread⟩
      have hdecimal := hd.decimal (by decide)
      rw [List.map_cons, List.map_cons, hdecimal.1]
      exact announcedBase_zero hdecimal.2.1 _

/-- A literal is read in the base that it announces, or else as a decimal number. -/
theorem intLiteral_of_denotes {s : Spelling} (h : Denotes s cs v) :
    intLiteral (String.ofList cs) = if v < 2 ^ 63 then .int (Int64.ofNat v)
      else .float (floatValue (String.ofList (digitsOf cs))) := by
  obtain ⟨base, ds, hannounced, hread⟩ := h.announced
  have hclean : withoutSeparators (String.ofList cs) = String.ofList (digitsOf cs) := by
    rw [withoutSeparators, String.toList_ofList]
    rfl
  have hlower : (lowerAscii (String.ofList (digitsOf cs))).toList =
      (digitsOf cs).map Char.toLower := by
    rw [lowerAscii, String.toList_map, String.toList_ofList]
  simp only [intLiteral, hclean, hlower, hannounced, hread, Nat.pow_eq]

/-- Below `2 ^ 63` a literal is the integer that it denotes. -/
theorem intLiteral_eq_int {s : Spelling} (h : Denotes s cs v) (hv : v < 2 ^ 63) :
    ∃ n : Int64, intLiteral (String.ofList cs) = .int n ∧ n.toInt = v := by
  refine ⟨Int64.ofNat v, ?_, ?_⟩
  · rw [intLiteral_of_denotes h, if_pos hv]
  · exact Int64.toInt_ofNat_of_lt hv

/-! ## Literals that are too large -/

/-- A digit is no sign. -/
theorem readSign_of_isDigit (hc : c.isDigit = true) (cs : List Char) :
    readSign (c :: cs) = (false, c :: cs) := by
  unfold readSign
  split
  · rename_i heq
    obtain ⟨rfl, -⟩ := List.cons.inj heq
    exact absurd hc (by decide)
  · rename_i heq
    obtain ⟨rfl, -⟩ := List.cons.inj heq
    exact absurd hc (by decide)
  · rfl

/-- Digits are a float by the number that they make in base ten. -/
theorem floatValue_of_digits {ds : List Char} {ns : List Nat}
    (h : List.Forall₂ (IsDigit base) ds ns) (hne : ns ≠ []) (hbase : base ≤ 10) :
    floatValue (String.ofList ds) = Binary64.ofDecimal false (continued 10 0 ns) 0 := by
  obtain ⟨hdigits, hvalue⟩ := digitsValue_of_digits h hbase
  have hspan : spanDigits ds = (ds, []) := by
    rw [spanDigits, List.takeWhile_eq_self_iff.2 hdigits, List.dropWhile_eq_nil_iff.2 hdigits]
  obtain ⟨c, rest, rfl⟩ : ∃ c rest, ds = c :: rest := by
    cases h with
    | nil => exact absurd rfl hne
    | cons => exact ⟨_, _, rfl⟩
  simp only [floatValue, readDecimal?, String.toList_ofList, hspan,
    readSign_of_isDigit (hdigits c List.mem_cons_self), List.isEmpty_cons, Bool.false_and,
    readExponent?, Option.map_some, List.append_nil, hvalue]
  rfl

/-- From `2 ^ 63` on, a literal in base ten is the number nearest to what it denotes. -/
theorem intLiteral_decimal (h : Denotes .decimal cs v) (hv : 2 ^ 63 ≤ v) :
    ∃ x, intLiteral (String.ofList cs) = .float x ∧ Binary64.Nearest v (Binary64.view x) := by
  refine ⟨Binary64.ofDecimal false v 0, ?_, Binary64.nearest_decimal (by omega)⟩
  rw [intLiteral_of_denotes h, if_neg (Nat.not_lt.2 hv)]
  cases h with
  | decimal _ hcs =>
    obtain ⟨ns, hns, hne, rfl⟩ := hcs.digits (by decide)
    rw [floatValue_of_digits hns hne le_rfl]

/-- From `2 ^ 63` on, a literal after a prefix is zero. -/
theorem intLiteral_prefixed (h : Denotes .prefixed cs v) (hv : 2 ^ 63 ≤ v) :
    intLiteral (String.ofList cs) = .float 0.0 := by
  rw [intLiteral_of_denotes h, if_neg (Nat.not_lt.2 hv)]
  cases h with
  | @prefixed x base cs _ hx hcs =>
    obtain ⟨-, hseparator, hdigit, hletter⟩ := prefixes_letters _ hx
    simp only [List.mem_cons, List.not_mem_nil, or_false, not_or] at hletter
    have hspan : spanDigits ('0' :: x :: digitsOf cs) = (['0'], x :: digitsOf cs) := by
      simp [spanDigits, hdigit]
    rw [digitsOf_cons (by decide), digitsOf_cons hseparator]
    have hzero : '0'.isDigit = true := rfl
    -- The decimal number would end at the letter, where neither a point nor an exponent is.
    have hnone : readDecimal? (String.ofList ('0' :: x :: digitsOf cs)) = none := by
      simp only [readDecimal?, String.toList_ofList, readSign_of_isDigit hzero, hspan,
        List.isEmpty_cons, Bool.false_and]
      simp [readExponent?, hletter]
    rw [floatValue, hnone, Option.getD_none]

/-- What digits write in base eight is at most what the same digits write in base ten. -/
theorem Writes.exists_decimal (h : Writes 8 cs v) : ∃ w, Writes 10 cs w ∧ v ≤ w := by
  have hdigit : ∀ {c n}, IsDigit 8 c n → IsDigit 10 c n := fun hc => ⟨by have := hc.1; omega, hc.2⟩
  induction h with
  | digit hc => exact ⟨_, .digit (hdigit hc), le_rfl⟩
  | next _ hc ih =>
    obtain ⟨w, hw, hle⟩ := ih
    exact ⟨_, .next hw (hdigit hc), by omega⟩
  | separated _ hc ih =>
    obtain ⟨w, hw, hle⟩ := ih
    exact ⟨_, .separated hw (hdigit hc), by omega⟩

/-- From `2 ^ 63` on, a literal with a leading zero is the number nearest to what the same digits
write in base ten. -/
theorem intLiteral_leadingZero (h : Denotes .leadingZero cs v) (hv : 2 ^ 63 ≤ v) :
    ∃ w x, Writes 10 cs w ∧ intLiteral (String.ofList cs) = .float x ∧
      Binary64.Nearest w (Binary64.view x) := by
  have hliteral := intLiteral_of_denotes h
  cases h with
  | leadingZero hcs =>
    obtain ⟨w, hw, hle⟩ := hcs.exists_decimal
    obtain ⟨ns, hns, hne, hvalue⟩ := hw.digits (by decide)
    refine ⟨w, Binary64.ofDecimal false w 0, hw, ?_, Binary64.nearest_decimal (by omega)⟩
    rw [hliteral, if_neg (Nat.not_lt.2 hv), floatValue_of_digits hns hne le_rfl, hvalue]

/-! ## Single-quoted literals -/

/-- A character that a backslash escapes between single quotes. -/
def IsEscapable (c : Char) : Prop := c = '\\' ∨ c = '\''

instance (c : Char) : Decidable (IsEscapable c) := inferInstanceAs (Decidable (_ ∨ _))

/-- How a character is written between single quotes. -/
def escapeChar (c : Char) : List Char := if IsEscapable c then ['\\', c] else [c]

/-- How characters are written between single quotes: after a backslash where they are escapable. -/
def escapeSingle (cs : List Char) : List Char := cs.flatMap escapeChar

/-- The literal with the given body. -/
def singleQuoted (body : List Char) : String := String.ofList ('\'' :: (body ++ ['\'']))

theorem unescapeSingle_escaped (hc : IsEscapable c) (rest : List Char) :
    unescapeSingle ('\\' :: c :: rest) = c :: unescapeSingle rest := by
  rcases hc with rfl | rfl <;> rfl

/-- A character that begins no escape is kept. -/
theorem unescapeSingle_kept {rest : List Char} (h : c = '\\' → ∀ d ∈ rest.head?, ¬IsEscapable d) :
    unescapeSingle (c :: rest) = c :: unescapeSingle rest := by
  conv => lhs; unfold unescapeSingle
  split
  case h_1 heq =>
    cases heq
    exact absurd (.inl rfl) (h rfl _ rfl)
  case h_2 heq =>
    cases heq
    exact absurd (.inr rfl) (h rfl _ rfl)
  case h_3 heq =>
    cases heq
    rfl
  case h_4 heq => cases heq

theorem unescapeSingle_plain (hc : ¬IsEscapable c) (rest : List Char) :
    unescapeSingle (c :: rest) = c :: unescapeSingle rest :=
  unescapeSingle_kept fun heq => absurd (.inl heq) hc

theorem unescapeSingle_backslash (hc : ¬IsEscapable c) (rest : List Char) :
    unescapeSingle ('\\' :: c :: rest) = '\\' :: c :: unescapeSingle rest := by
  rw [unescapeSingle_kept, unescapeSingle_plain hc]
  rintro - _ ⟨⟩
  exact hc

theorem unescapeSingle_escapeSingle (cs : List Char) : unescapeSingle (escapeSingle cs) = cs := by
  induction cs with
  | nil => rfl
  | cons c cs ih =>
    rw [escapeSingle, List.flatMap_cons, escapeChar]
    by_cases hc : IsEscapable c
    · rw [if_pos hc]
      exact (unescapeSingle_escaped hc _).trans (congrArg (c :: ·) ih)
    · rw [if_neg hc]
      exact (unescapeSingle_plain hc _).trans (congrArg (c :: ·) ih)

/-- A backslash before a character that it cannot escape ends up where it would at the end of the
body, as the second one of an escape or as itself. The character and the rest follow. -/
theorem unescapeSingle_append_backslash (before : List Char) :
    ∃ kept, unescapeSingle (before ++ ['\\']) = kept ++ ['\\'] ∧
      ∀ {c : Char}, ¬IsEscapable c → ∀ after : List Char,
        unescapeSingle (before ++ '\\' :: c :: after) =
          kept ++ '\\' :: c :: unescapeSingle after := by
  fun_induction unescapeSingle before with
  | case1 rest ih =>
    obtain ⟨kept, hend, hpair⟩ := ih
    exact ⟨'\\' :: kept, congrArg ('\\' :: ·) hend, fun hc after =>
      congrArg ('\\' :: ·) (hpair hc after)⟩
  | case2 rest ih =>
    obtain ⟨kept, hend, hpair⟩ := ih
    exact ⟨'\'' :: kept, congrArg ('\'' :: ·) hend, fun hc after =>
      congrArg ('\'' :: ·) (hpair hc after)⟩
  | case3 d rest hbackslash hquote ih =>
    by_cases hlast : d = '\\' ∧ rest = []
    · -- The two backslashes are one escape.
      obtain ⟨rfl, rfl⟩ := hlast
      exact ⟨[], rfl, fun hc after => congrArg ('\\' :: ·) (unescapeSingle_plain hc after)⟩
    · obtain ⟨kept, hend, hpair⟩ := ih
      have hkept (tail : List Char) :
          unescapeSingle (d :: rest ++ tail) = d :: unescapeSingle (rest ++ tail) := by
        refine unescapeSingle_kept ?_
        rintro rfl c hc
        obtain ⟨e, rest, rfl⟩ := List.exists_cons_of_ne_nil fun hnil => hlast ⟨rfl, hnil⟩
        obtain rfl : e = c := Option.some.inj hc
        rintro (rfl | rfl)
        · exact hbackslash _ rfl rfl
        · exact hquote _ rfl rfl
      refine ⟨d :: kept, ?_, fun hc after => ?_⟩
      · rw [hkept, hend, List.cons_append]
      · rw [hkept, hpair hc, List.cons_append]
  | case4 => exact ⟨[], rfl, unescapeSingle_backslash⟩

theorem betweenQuotes_quoted (body : List Char) :
    betweenQuotes ('\'' :: (body ++ ['\''])) = body := by
  simp [betweenQuotes]

theorem unquoteSingle_singleQuoted (body : List Char) :
    unquoteSingle (singleQuoted body) = String.ofList (unescapeSingle body) := by
  rw [unquoteSingle, singleQuoted, String.toList_ofList]
  exact congrArg (fun cs => String.ofList (unescapeSingle cs)) (betweenQuotes_quoted body)

/-- Reading a literal undoes the escapes of a text. In any body, a backslash that escapes nothing is
kept together with the character after it, and what follows is read on its own. -/
theorem unquoteSingle_escapes :
    (∀ s : String, unquoteSingle (singleQuoted (escapeSingle s.toList)) = s) ∧
      ∀ before : List Char, ∃ kept : String,
        unquoteSingle (singleQuoted (before ++ ['\\'])) = kept ++ "\\" ∧
          ∀ {c : Char}, ¬IsEscapable c → ∀ after : List Char,
            unquoteSingle (singleQuoted (before ++ '\\' :: c :: after)) =
              kept ++ String.ofList ['\\', c] ++ unquoteSingle (singleQuoted after) := by
  simp only [unquoteSingle_singleQuoted]
  refine ⟨fun s => ?_, fun before => ?_⟩
  · rw [unescapeSingle_escapeSingle, String.ofList_toList]
  · obtain ⟨kept, hend, hpair⟩ := unescapeSingle_append_backslash before
    refine ⟨String.ofList kept, ?_, fun hc after => ?_⟩
    · rw [hend, String.ofList_append]
    · rw [hpair hc, ← String.ofList_append, ← String.ofList_append, List.append_assoc]
      rfl

/-- In three backslashes before a letter, the first escapes the second and the third is kept. -/
theorem unquoteSingle_escapes_runs :
    unquoteSingle (singleQuoted (escapeSingle "\\\\'\\".toList)) = "\\\\'\\" ∧
      ¬IsEscapable 'n' ∧ ∃ kept : String, unquoteSingle "'\\\\\\'" = kept ++ "\\" ∧
        unquoteSingle "'\\\\\\n\\''" = kept ++ "\\n" ++ "'" := by
  have hletter : ¬IsEscapable 'n' := by decide
  obtain ⟨kept, hend, hpair⟩ := unquoteSingle_escapes.2 ['\\', '\\']
  have hquote : unquoteSingle (singleQuoted ['\\', '\'']) = "'" := rfl
  refine ⟨unquoteSingle_escapes.1 _, hletter, kept, hend, ?_⟩
  rw [← hquote]
  exact hpair hletter ['\\', '\'']

end QueryTaint.Concrete
