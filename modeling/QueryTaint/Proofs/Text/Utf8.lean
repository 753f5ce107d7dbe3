import Mathlib.Data.List.Infix
import QueryTaint.Text.Utf8

/-!
# Bytes read in place

A byte string divides in one way into characters and malformed sequences (`firstPiece_cases`). A
malformed sequence (`Malformed`) starts where no character does: it is as long a start of some
character as stands there, or one byte if no character starts with that. The pieces of a byte string
are these, so every byte of a malformed sequence is read as the stand-in and all others as they are
(`ReadsInPlace`). The length stays, the bytes up to U+007F stay where they are, and the text that is
read is read as itself again (`decodeInPlace_preserves`).
-/

namespace QueryTaint.Utf8

open String (utf8EncodeChar)

/-! ## Characters and their bytes -/

theorem ofNat_of_eq_toNat {n : Nat} {b : UInt8} (h : n = b.toNat) : UInt8.ofNat n = b := by
  subst h
  exact UInt8.ofNat_toNat

theorem toNat_ofNat_of_lt {n : Nat} (h : n < 256) : (UInt8.ofNat n).toNat = n := by
  rw [UInt8.toNat_ofNat', Nat.mod_eq_of_lt h]

/-- The encoding of the character of a code point, by how large this is. -/
theorem utf8EncodeChar_ofNat {n : Nat} (h : n.isValidChar) : utf8EncodeChar (Char.ofNat n) =
    if n ≤ 0x7F then [UInt8.ofNat n]
    else if n ≤ 0x7FF then [UInt8.ofNat (n / 64 % 0x20 + 0xC0), UInt8.ofNat (n % 0x40 + 0x80)]
    else if n ≤ 0xFFFF then
      [UInt8.ofNat (n / 4096 % 0x10 + 0xE0), UInt8.ofNat (n / 64 % 0x40 + 0x80),
        UInt8.ofNat (n % 0x40 + 0x80)]
    else
      [UInt8.ofNat (n / 262144 % 0x08 + 0xF0), UInt8.ofNat (n / 4096 % 0x40 + 0x80),
        UInt8.ofNat (n / 64 % 0x40 + 0x80), UInt8.ofNat (n % 0x40 + 0x80)] := by
  have hval : (Char.ofNat n).val.toNat = n := by
    rw [Char.ofNat, dif_pos h]
    rfl
  unfold utf8EncodeChar
  dsimp only
  rw [hval]

theorem utf8EncodeChar_ne_nil (c : Char) : utf8EncodeChar c ≠ [] := by
  refine List.ne_nil_of_length_pos ?_
  rw [String.length_utf8EncodeChar]
  exact c.utf8Size_pos

/-- A character up to U+007F is encoded by its code point. -/
theorem utf8EncodeChar_of_small {c : Char} (h : c.toNat < 0x80) :
    utf8EncodeChar c = [UInt8.ofNat c.toNat] := by
  have hcode := utf8EncodeChar_ofNat (n := c.toNat) c.valid
  rwa [if_pos (by omega), Char.ofNat_toNat] at hcode

/-- Continuation bytes, the first within bounds of its own. -/
def Continues : Nat → Nat → List UInt8 → Prop
  | _, _, [] => True
  | low, high, byte :: conts => (low ≤ byte.toNat ∧ byte.toNat ≤ high) ∧ Continues 0x80 0xBF conts

/-- The code point with what continuation bytes add to it. -/
def joined (code : Nat) (conts : List UInt8) : Nat :=
  conts.foldl (fun code byte => code * 64 + (byte.toNat - 0x80)) code

theorem joined_nil (code : Nat) : joined code [] = code := rfl

theorem joined_cons (code : Nat) (byte : UInt8) (conts : List UInt8) :
    joined code (byte :: conts) = joined (code * 64 + (byte.toNat - 0x80)) conts := by
  rw [joined, List.foldl_cons, joined]

theorem Lead.of?_two {byte : Nat} (h : 0xC2 ≤ byte ∧ byte < 0xE0) :
    Lead.of? byte = some ⟨0x80, 0xBF, 0, byte - 0xC0⟩ := by
  rw [Lead.of?, if_neg (by omega), if_pos h.2]

theorem Lead.of?_three {byte : Nat} (h : 0xE0 ≤ byte ∧ byte < 0xF0) : Lead.of? byte =
    some ⟨if byte = 0xE0 then 0xA0 else 0x80, if byte = 0xED then 0x9F else 0xBF, 1,
      byte - 0xE0⟩ := by
  rw [Lead.of?, if_neg (by omega), if_neg (by omega), if_pos h.2]

theorem Lead.of?_four {byte : Nat} (h : 0xF0 ≤ byte ∧ byte < 0xF5) : Lead.of? byte =
    some ⟨if byte = 0xF0 then 0x90 else 0x80, if byte = 0xF4 then 0x8F else 0xBF, 2,
      byte - 0xF0⟩ := by
  rw [Lead.of?, if_neg (by omega), if_neg (by omega), if_neg (by omega), if_pos h.2]

theorem Lead.of?_none {byte : Nat} (h : byte < 0xC2 ∨ 0xF5 ≤ byte) : Lead.of? byte = none := by
  unfold Lead.of?
  split
  · rfl
  · rw [if_neg (by omega), if_neg (by omega), if_neg (by omega)]

/-- A first byte with as many continuation bytes as it asks for encodes a character. -/
theorem utf8EncodeChar_of_lead {byte : UInt8} {lead : Lead} {conts : List UInt8}
    (hlead : Lead.of? byte.toNat = some lead) (hconts : Continues lead.low lead.high conts)
    (hlength : conts.length = lead.more + 1) :
    utf8EncodeChar (Char.ofNat (joined lead.bits conts)) = byte :: conts := by
  rcases Nat.lt_or_ge byte.toNat 0xC2 with hbyte | hbyte
  · rw [Lead.of?_none (.inl hbyte)] at hlead
    cases hlead
  rcases Nat.lt_or_ge byte.toNat 0xE0 with htwo | htwo
  · obtain rfl := Option.some.inj ((Lead.of?_two ⟨hbyte, htwo⟩).symm.trans hlead)
    obtain ⟨first, rfl⟩ := List.length_eq_one_iff.1 hlength
    obtain ⟨hfirst, -⟩ := hconts
    dsimp only at hfirst ⊢
    rw [joined_cons, joined_nil, utf8EncodeChar_ofNat (.inl (by omega)), if_neg (by omega),
      if_pos (by omega), ofNat_of_eq_toNat (b := byte) (by omega),
      ofNat_of_eq_toNat (b := first) (by omega)]
  rcases Nat.lt_or_ge byte.toNat 0xF0 with hthree | hthree
  · obtain rfl := Option.some.inj ((Lead.of?_three ⟨htwo, hthree⟩).symm.trans hlead)
    obtain ⟨first, second, rfl⟩ := List.length_eq_two.1 hlength
    obtain ⟨hfirst, hsecond, -⟩ := hconts
    dsimp only at hfirst
    have hvalid : (((byte.toNat - 0xE0) * 64 + (first.toNat - 0x80)) * 64 +
        (second.toNat - 0x80)).isValidChar := by
      unfold Nat.isValidChar
      split at hfirst <;> split at hfirst <;> omega
    have hlarge : 0x7FF < ((byte.toNat - 0xE0) * 64 + (first.toNat - 0x80)) * 64 := by
      split at hfirst <;> omega
    have hfirst : 0x80 ≤ first.toNat ∧ first.toNat ≤ 0xBF := by
      split at hfirst <;> split at hfirst <;> omega
    rw [joined_cons, joined_cons, joined_nil, utf8EncodeChar_ofNat hvalid, if_neg (by omega),
      if_neg (by omega), if_pos (by omega), ofNat_of_eq_toNat (b := byte) (by omega),
      ofNat_of_eq_toNat (b := first) (by omega), ofNat_of_eq_toNat (b := second) (by omega)]
  · have hfour : byte.toNat < 0xF5 := by
      by_contra hbyte
      rw [Lead.of?_none (.inr (by omega))] at hlead
      cases hlead
    obtain rfl := Option.some.inj ((Lead.of?_four ⟨hthree, hfour⟩).symm.trans hlead)
    obtain ⟨first, second, third, rfl⟩ := List.length_eq_three.1 hlength
    obtain ⟨hfirst, hsecond, hthird, -⟩ := hconts
    dsimp only at hfirst
    have hvalid : ((((byte.toNat - 0xF0) * 64 + (first.toNat - 0x80)) * 64 +
        (second.toNat - 0x80)) * 64 + (third.toNat - 0x80)).isValidChar := by
      unfold Nat.isValidChar
      split at hfirst <;> split at hfirst <;> omega
    have hlarge : 0xFFFF <
        (((byte.toNat - 0xF0) * 64 + (first.toNat - 0x80)) * 64 + (second.toNat - 0x80)) * 64 := by
      split at hfirst <;> omega
    have hfirst : 0x80 ≤ first.toNat ∧ first.toNat ≤ 0xBF := by
      split at hfirst <;> split at hfirst <;> omega
    rw [joined_cons, joined_cons, joined_cons, joined_nil, utf8EncodeChar_ofNat hvalid,
      if_neg (by omega), if_neg (by omega), if_neg (by omega),
      ofNat_of_eq_toNat (b := byte) (by omega),
      ofNat_of_eq_toNat (b := first) (by omega), ofNat_of_eq_toNat (b := second) (by omega),
      ofNat_of_eq_toNat (b := third) (by omega)]

/-- A character above U+007F is encoded by a first byte and the continuation bytes that it asks
for. -/
theorem lead_of_utf8EncodeChar {c : Char} (h : 0x80 ≤ c.toNat) :
    ∃ byte conts lead, utf8EncodeChar c = byte :: conts ∧ Lead.of? byte.toNat = some lead ∧
      Continues lead.low lead.high conts ∧ conts.length = lead.more + 1 ∧
      joined lead.bits conts = c.toNat := by
  have hvalid : c.toNat.isValidChar := c.valid
  rw [← Char.ofNat_toNat c, utf8EncodeChar_ofNat hvalid, Char.ofNat_toNat]
  generalize c.toNat = n at h hvalid ⊢
  have hlast : (UInt8.ofNat (n % 0x40 + 0x80)).toNat = n % 0x40 + 0x80 :=
    toNat_ofNat_of_lt (by omega)
  have hsecond : (UInt8.ofNat (n / 64 % 0x40 + 0x80)).toNat = n / 64 % 0x40 + 0x80 :=
    toNat_ofNat_of_lt (by omega)
  have hthird : (UInt8.ofNat (n / 4096 % 0x40 + 0x80)).toNat = n / 4096 % 0x40 + 0x80 :=
    toNat_ofNat_of_lt (by omega)
  unfold Nat.isValidChar at hvalid
  rw [if_neg (by omega)]
  split
  · have hbyte : (UInt8.ofNat (n / 64 % 0x20 + 0xC0)).toNat = n / 64 % 0x20 + 0xC0 :=
      toNat_ofNat_of_lt (by omega)
    refine ⟨_, _, _, rfl, Lead.of?_two (by omega), ⟨?_, trivial⟩, rfl, ?_⟩
    · dsimp only
      omega
    · rw [joined_cons, joined_nil]
      dsimp only
      omega
  split
  · have hbyte : (UInt8.ofNat (n / 4096 % 0x10 + 0xE0)).toNat = n / 4096 % 0x10 + 0xE0 :=
      toNat_ofNat_of_lt (by omega)
    refine ⟨_, _, _, rfl, Lead.of?_three (by omega), ⟨?_, ?_, trivial⟩, rfl, ?_⟩
    · dsimp only
      split <;> split <;> omega
    · omega
    · rw [joined_cons, joined_cons, joined_nil]
      dsimp only
      omega
  · have hbyte : (UInt8.ofNat (n / 262144 % 0x08 + 0xF0)).toNat = n / 262144 % 0x08 + 0xF0 :=
      toNat_ofNat_of_lt (by omega)
    refine ⟨_, _, _, rfl, Lead.of?_four (by omega), ⟨?_, ?_, ?_, trivial⟩, rfl, ?_⟩
    · dsimp only
      split <;> split <;> omega
    · omega
    · omega
    · rw [joined_cons, joined_cons, joined_cons, joined_nil]
      dsimp only
      omega

/-! ## Reading continuation bytes -/

theorem Continues.of_append {low high : Nat} {a b : List UInt8} (h : Continues low high (a ++ b)) :
    Continues low high a := by
  induction a generalizing low high with
  | nil => trivial
  | cons byte a ih => exact ⟨h.1, ih h.2⟩

/-- As many continuation bytes as are asked for are read as a character, whatever follows. -/
theorem continuation_of_continues {low high more code taken : Nat} {conts : List UInt8}
    (h : Continues low high conts) (hlength : conts.length = more + 1) (rest : List UInt8) :
    continuation low high more code taken (conts ++ rest) =
      (.char (Char.ofNat (joined code conts)), taken + conts.length) := by
  induction conts generalizing low high more code taken with
  | nil => cases hlength
  | cons byte conts ih =>
    rw [List.cons_append, continuation, if_pos h.1, joined_cons]
    cases more with
    | zero =>
      obtain rfl := List.length_eq_zero_iff.1 (Nat.succ.inj hlength)
      rw [joined_nil]
      rfl
    | succ more =>
      dsimp only
      rw [ih h.2 (Nat.succ.inj hlength), List.length_cons, Nat.add_assoc, Nat.add_comm 1]

/-- Where fewer continuation bytes can be read, the sequence ends before the first that cannot. -/
theorem continuation_of_not_continues {low high more code taken : Nat} {conts rest : List UInt8}
    (h : Continues low high conts) (hlength : conts.length ≤ more)
    (hstop : ∀ byte tail, rest = byte :: tail → ¬ Continues low high (conts ++ [byte])) :
    continuation low high more code taken (conts ++ rest) =
      (.invalid (taken + conts.length), taken + conts.length) := by
  induction conts generalizing low high more code taken with
  | nil =>
    rw [List.nil_append]
    cases rest with
    | nil =>
      rw [continuation]
      rfl
    | cons byte tail =>
      rw [continuation, if_neg fun hbyte => hstop byte tail rfl ⟨hbyte, trivial⟩]
      rfl
  | cons byte conts ih =>
    obtain ⟨more, rfl⟩ := Nat.exists_eq_add_one_of_ne_zero (by grind : more ≠ 0)
    rw [List.cons_append, continuation, if_pos h.1]
    dsimp only
    rw [ih h.2 (Nat.le_of_succ_le_succ hlength) fun next tail hrest hnext =>
      hstop next tail hrest ⟨h.1, hnext⟩, List.length_cons, Nat.add_assoc, Nat.add_comm 1]

/-- The continuation bytes at the start of a byte string, up to a number of them. -/
theorem exists_continues (low high limit : Nat) (bytes : List UInt8) :
    ∃ conts rest, bytes = conts ++ rest ∧ Continues low high conts ∧
      (conts.length = limit ∨ conts.length < limit ∧
        ∀ byte tail, rest = byte :: tail → ¬ Continues low high (conts ++ [byte])) := by
  induction limit generalizing low high bytes with
  | zero => exact ⟨[], bytes, rfl, trivial, .inl rfl⟩
  | succ limit ih =>
    cases bytes with
    | nil => exact ⟨[], [], rfl, trivial, .inr ⟨Nat.succ_pos _, fun _ _ h => nomatch h⟩⟩
    | cons byte bytes =>
      by_cases hbyte : low ≤ byte.toNat ∧ byte.toNat ≤ high
      · obtain ⟨conts, rest, rfl, hconts, hstop⟩ := ih 0x80 0xBF bytes
        refine ⟨byte :: conts, rest, rfl, ⟨hbyte, hconts⟩, ?_⟩
        rcases hstop with hlength | ⟨hlength, hstop⟩
        · exact .inl (congrArg Nat.succ hlength)
        · exact .inr ⟨Nat.succ_lt_succ hlength, fun next tail hrest hnext =>
            hstop next tail hrest hnext.2⟩
      · refine ⟨[], byte :: bytes, rfl, trivial, .inr ⟨Nat.succ_pos _, ?_⟩⟩
        rintro _ _ h hnext
        cases h
        exact hbyte hnext.1

/-! ## Malformed sequences -/

/-- A malformed sequence `bad` at the start of `bad ++ rest`, where no character starts. It is the
longest one: with the next byte it would not be the start of a character. -/
structure Malformed (bad rest : List UInt8) : Prop where
  ne_nil : bad ≠ []
  no_char (c : Char) : ¬ utf8EncodeChar c <+: bad ++ rest
  begins : bad.length = 1 ∨ ∃ c, bad <+: utf8EncodeChar c
  longest {byte : UInt8} {tail : List UInt8} (h : rest = byte :: tail) (c : Char) :
    ¬ bad ++ [byte] <+: utf8EncodeChar c

/-- What follows the first byte of a character are continuation bytes that this asks for. -/
theorem continues_of_prefix {byte : UInt8} {conts : List UInt8} {c : Char} (hne : conts ≠ [])
    (h : byte :: conts <+: utf8EncodeChar c) :
    ∃ lead, Lead.of? byte.toNat = some lead ∧ Continues lead.low lead.high conts := by
  rcases Nat.lt_or_ge c.toNat 0x80 with hsmall | hlarge
  · rw [utf8EncodeChar_of_small hsmall] at h
    have hlength := h.length_le
    rw [List.length_cons, List.length_singleton] at hlength
    exact absurd (List.length_eq_zero_iff.1 (by omega)) hne
  · obtain ⟨first, all, lead, hcode, hlead, hall, -⟩ := lead_of_utf8EncodeChar hlarge
    rw [hcode, List.cons_prefix_cons] at h
    obtain ⟨rfl, rest, rfl⟩ := h
    exact ⟨lead, hlead, hall.of_append⟩

/-- Continuation bytes can be followed by more. -/
theorem Continues.append_replicate {low high : Nat} {conts : List UInt8}
    (h : Continues low high conts) (hne : conts ≠ []) (n : Nat) :
    Continues low high (conts ++ List.replicate n 0x80) := by
  have hfill : Continues 0x80 0xBF (List.replicate n 0x80) := by
    induction n with
    | zero => trivial
    | succ n ih => exact ⟨by decide, ih⟩
  induction conts generalizing low high with
  | nil => exact absurd rfl hne
  | cons byte conts ih =>
    refine ⟨h.1, ?_⟩
    by_cases hconts : conts = []
    · rw [hconts]
      exact hfill
    · exact ih h.2 hconts

/-- A first byte with continuation bytes begins a character. -/
theorem exists_prefix_of_continues {byte : UInt8} {lead : Lead} {conts : List UInt8}
    (hlead : Lead.of? byte.toNat = some lead) (hconts : Continues lead.low lead.high conts)
    (hne : conts ≠ []) (hlength : conts.length ≤ lead.more) :
    ∃ c, byte :: conts <+: utf8EncodeChar c := by
  obtain ⟨fill, hall, hfull⟩ : ∃ fill, Continues lead.low lead.high (conts ++ fill) ∧
      (conts ++ fill).length = lead.more + 1 := by
    refine ⟨_, hconts.append_replicate hne (lead.more + 1 - conts.length), ?_⟩
    rw [List.length_append, List.length_replicate]
    omega
  refine ⟨Char.ofNat (joined lead.bits (conts ++ fill)), ?_⟩
  rw [utf8EncodeChar_of_lead hlead hall hfull]
  exact List.cons_prefix_cons.2 ⟨rfl, List.prefix_append _ _⟩

theorem Lead.le_of_of? {byte : Nat} {lead : Lead} (h : Lead.of? byte = some lead) :
    0xC2 ≤ byte ∧ 0x80 ≤ lead.low := by
  unfold Lead.of? at h
  split at h
  · cases h
  refine ⟨by omega, ?_⟩
  split at h
  · obtain rfl := Option.some.inj h
    exact Nat.le_refl _
  split at h
  · obtain rfl := Option.some.inj h
    dsimp only
    split <;> omega
  split at h
  · obtain rfl := Option.some.inj h
    dsimp only
    split <;> omega
  · cases h

theorem Continues.large {low high : Nat} {conts : List UInt8} (h : Continues low high conts)
    (hlow : 0x80 ≤ low) : ∀ byte ∈ conts, 0x80 ≤ byte.toNat := by
  induction conts generalizing low high with
  | nil => exact List.forall_mem_nil _
  | cons byte conts ih =>
    exact List.forall_mem_cons.2 ⟨Nat.le_trans hlow h.1.1, ih h.2 (Nat.le_refl _)⟩

/-- No byte up to U+007F is part of a malformed sequence. -/
theorem Malformed.large {bad rest : List UInt8} (h : Malformed bad rest) :
    ∀ byte ∈ bad, 0x80 ≤ byte.toNat := by
  obtain ⟨byte, conts, rfl⟩ := List.exists_cons_of_ne_nil h.ne_nil
  by_cases hconts : conts = []
  · subst hconts
    refine List.forall_mem_singleton.2 (Nat.le_of_not_lt fun hsmall => ?_)
    refine h.no_char (Char.ofNat byte.toNat) ?_
    rw [utf8EncodeChar_ofNat (.inl (by omega)), if_pos (by omega), ofNat_of_eq_toNat rfl]
    exact List.prefix_append _ _
  · rcases h.begins with hlength | ⟨c, hprefix⟩
    · exact absurd (List.length_eq_zero_iff.1 (Nat.succ.inj hlength)) hconts
    · obtain ⟨lead, hlead, hall⟩ := continues_of_prefix hconts hprefix
      obtain ⟨hbyte, hlow⟩ := Lead.le_of_of? hlead
      exact List.forall_mem_cons.2 ⟨by omega, hall.large hlow⟩

/-! ## Pieces -/

/-- A first byte with as many continuation bytes as it asks for is read as a character. -/
theorem firstPiece_of_continues {byte : UInt8} {lead : Lead} {conts : List UInt8}
    (hlead : Lead.of? byte.toNat = some lead) (hconts : Continues lead.low lead.high conts)
    (hlength : conts.length = lead.more + 1) (rest : List UInt8) :
    firstPiece byte (conts ++ rest) =
      (.char (Char.ofNat (joined lead.bits conts)), conts.length + 1) := by
  have hbyte := (Lead.le_of_of? hlead).1
  rw [firstPiece, if_neg (by omega), hlead]
  dsimp only
  rw [continuation_of_continues hconts hlength, Nat.add_comm]

/-- The encoding of a character is read as the character, whatever follows. -/
theorem firstPiece_of_utf8EncodeChar {c : Char} {byte : UInt8} {rest tail : List UInt8}
    (h : byte :: rest = utf8EncodeChar c ++ tail) :
    firstPiece byte rest = (.char c, (utf8EncodeChar c).length) := by
  rcases Nat.lt_or_ge c.toNat 0x80 with hsmall | hlarge
  · rw [utf8EncodeChar_of_small hsmall] at h ⊢
    obtain ⟨rfl, rfl⟩ := List.cons.inj h
    rw [firstPiece, toNat_ofNat_of_lt (by omega), if_pos hsmall, Char.ofNat_toNat]
    rfl
  · obtain ⟨first, conts, lead, hcode, hlead, hconts, hlength, hjoined⟩ :=
      lead_of_utf8EncodeChar hlarge
    rw [hcode] at h ⊢
    obtain ⟨rfl, hrest⟩ := List.cons.inj h
    have hrest : rest = conts ++ tail := hrest
    rw [hrest, firstPiece_of_continues hlead hconts hlength, hjoined, Char.ofNat_toNat]
    rfl

/-- Bytes start with a character or with a malformed sequence, and that is what is read first. -/
theorem firstPiece_cases (byte : UInt8) (rest : List UInt8) :
    (∃ c tail, byte :: rest = utf8EncodeChar c ++ tail ∧
      firstPiece byte rest = (.char c, (utf8EncodeChar c).length)) ∨
    ∃ bad tail, byte :: rest = bad ++ tail ∧ Malformed bad tail ∧
      firstPiece byte rest = (.invalid bad.length, bad.length) := by
  by_cases hchar : ∃ c, utf8EncodeChar c <+: byte :: rest
  · obtain ⟨c, tail, htail⟩ := hchar
    exact .inl ⟨c, tail, htail.symm, firstPiece_of_utf8EncodeChar htail.symm⟩
  · have hlarge : ¬ byte.toNat < 0x80 := by
      intro hsmall
      refine hchar ⟨Char.ofNat byte.toNat, ?_⟩
      rw [utf8EncodeChar_ofNat (.inl (by omega)), if_pos (by omega), ofNat_of_eq_toNat rfl]
      exact List.prefix_append [byte] rest
    refine .inr ?_
    cases hlead : Lead.of? byte.toNat with
    | none =>
      refine ⟨[byte], rest, rfl, ⟨List.cons_ne_nil _ _, fun c h => hchar ⟨c, h⟩, .inl rfl, ?_⟩, ?_⟩
      · rintro next tail rfl c hprefix
        obtain ⟨lead, hsome, -⟩ := continues_of_prefix (List.cons_ne_nil _ _) hprefix
        cases hlead.symm.trans hsome
      · rw [firstPiece, if_neg hlarge, hlead]
        rfl
    | some lead =>
      obtain ⟨conts, tail, rfl, hconts, hlength | ⟨hlength, hstop⟩⟩ :=
        exists_continues lead.low lead.high (lead.more + 1) rest
      · have hcode := utf8EncodeChar_of_lead hlead hconts hlength
        exact absurd ⟨Char.ofNat (joined lead.bits conts), hcode ▸ ⟨tail, rfl⟩⟩ hchar
      · refine ⟨byte :: conts, tail, rfl,
          ⟨List.cons_ne_nil _ _, fun c h => hchar ⟨c, h⟩, ?_, ?_⟩, ?_⟩
        · by_cases hne : conts = []
          · exact .inl (by rw [hne]; rfl)
          · exact .inr (exists_prefix_of_continues hlead hconts hne (Nat.le_of_lt_succ hlength))
        · intro next after htail c hprefix
          have hne : conts ++ [next] ≠ [] := List.append_ne_nil_of_right_ne_nil _ (by simp)
          obtain ⟨lead', hlead', hnext⟩ := continues_of_prefix hne hprefix
          obtain rfl := Option.some.inj (hlead.symm.trans hlead')
          exact hstop next after htail hnext
        · rw [firstPiece, if_neg hlarge, hlead]
          dsimp only
          rw [continuation_of_not_continues hconts (Nat.le_of_lt_succ hlength) hstop,
            List.length_cons, Nat.add_comm]

/-! ## Reading in place -/

/-- How bytes are read in place: characters stand for themselves, and each byte of a malformed
sequence becomes the stand-in. -/
inductive ReadsInPlace : List UInt8 → List UInt8 → Prop
  | nil : ReadsInPlace [] []
  | char (c : Char) {bytes read : List UInt8} :
    ReadsInPlace bytes read → ReadsInPlace (utf8EncodeChar c ++ bytes) (utf8EncodeChar c ++ read)
  | malformed {bad bytes read : List UInt8} : Malformed bad bytes → ReadsInPlace bytes read →
    ReadsInPlace (bad ++ bytes) (List.replicate bad.length standIn.toUInt8 ++ read)

namespace ReadsInPlace

variable {bytes read : List UInt8}

theorem length_eq (h : ReadsInPlace bytes read) : read.length = bytes.length := by
  induction h with
  | nil => rfl
  | char c _ ih => rw [List.length_append, List.length_append, ih]
  | malformed _ _ ih => rw [List.length_append, List.length_append, ih, List.length_replicate]

/-- A byte up to U+007F stays where it is. -/
theorem getElem?_of_small (h : ReadsInPlace bytes read) {i : Nat} {byte : UInt8}
    (hbyte : bytes[i]? = some byte) (hsmall : byte.toNat < 0x80) : read[i]? = some byte := by
  induction h generalizing i with
  | nil => exact hbyte
  | @char c bytes read _ ih =>
    rcases Nat.lt_or_ge i (utf8EncodeChar c).length with hi | hi
    · rw [List.getElem?_append_left hi] at hbyte ⊢
      exact hbyte
    · rw [List.getElem?_append_right hi] at hbyte ⊢
      exact ih hbyte
  | @malformed bad bytes read hbad _ ih =>
    rcases Nat.lt_or_ge i bad.length with hi | hi
    · rw [List.getElem?_append_left hi] at hbyte
      exact absurd (hbad.large byte (List.mem_of_getElem? hbyte)) (Nat.not_le_of_lt hsmall)
    · rw [List.getElem?_append_right hi] at hbyte
      rw [List.getElem?_append_right (by rwa [List.length_replicate]), List.length_replicate]
      exact ih hbyte

/-- Characters alone are kept. -/
theorem of_chars (l : List Char) :
    ReadsInPlace (l.flatMap utf8EncodeChar) (l.flatMap utf8EncodeChar) := by
  induction l with
  | nil => exact .nil
  | cons c l ih => exact .char c ih

theorem flatMap_replicate_standIn (n : Nat) :
    (List.replicate n standIn).flatMap utf8EncodeChar = List.replicate n standIn.toUInt8 := by
  induction n with
  | zero => rfl
  | succ n ih =>
    rw [List.replicate_succ, List.flatMap_cons, ih]
    rfl

/-- The pieces of a byte string are its characters and its malformed sequences. -/
theorem of_pieces (bytes : List UInt8) :
    ReadsInPlace bytes (((pieces bytes).flatMap Piece.inPlace).flatMap utf8EncodeChar) := by
  fun_induction pieces bytes with
  | case1 => exact .nil
  | case2 byte rest piece size hfirst ih =>
    have hdrop {front tail : List UInt8} (h : byte :: rest = front ++ tail)
        (hsize : size = front.length) (hne : front ≠ []) : rest.drop (size - 1) = tail := by
      obtain ⟨first, front, rfl⟩ := List.exists_cons_of_ne_nil hne
      obtain ⟨-, hrest⟩ := List.cons.inj h
      have hrest : rest = front ++ tail := hrest
      rw [hsize, hrest, List.length_cons, Nat.add_sub_cancel, List.drop_left]
    rcases firstPiece_cases byte rest with
      ⟨c, tail, hbytes, hpiece⟩ | ⟨bad, tail, hbytes, hbad, hpiece⟩
    · obtain ⟨rfl, rfl⟩ := Prod.mk.inj (hfirst.symm.trans hpiece)
      rw [hdrop hbytes rfl (utf8EncodeChar_ne_nil c)] at ih ⊢
      rw [hbytes]
      exact .char c ih
    · obtain ⟨rfl, rfl⟩ := Prod.mk.inj (hfirst.symm.trans hpiece)
      rw [hdrop hbytes rfl hbad.ne_nil] at ih ⊢
      have hread : (((Piece.invalid bad.length) :: pieces tail).flatMap Piece.inPlace).flatMap
          utf8EncodeChar = List.replicate bad.length standIn.toUInt8 ++
            ((pieces tail).flatMap Piece.inPlace).flatMap utf8EncodeChar := by
        rw [List.flatMap_cons, List.flatMap_append, Piece.inPlace, flatMap_replicate_standIn]
      rw [hbytes, hread]
      exact .malformed hbad ih

end ReadsInPlace

/-- Bytes start with one character at most. -/
theorem char_unique {c d : Char} {a b : List UInt8}
    (h : utf8EncodeChar c ++ a = utf8EncodeChar d ++ b) : c = d ∧ a = b := by
  obtain ⟨byte, rest, hcons⟩ := List.exists_cons_of_ne_nil
    (List.append_ne_nil_of_left_ne_nil (utf8EncodeChar_ne_nil c) a)
  have hfirst := (firstPiece_of_utf8EncodeChar hcons.symm).symm.trans
    (firstPiece_of_utf8EncodeChar (hcons.symm.trans h))
  obtain rfl := Piece.char.inj (Prod.mk.inj hfirst).1
  exact ⟨rfl, List.append_cancel_left h⟩

/-- Of two malformed sequences at the start of the same bytes none is longer. -/
theorem Malformed.length_le {bad rest bad' rest' : List UInt8} (h : Malformed bad rest)
    (h' : Malformed bad' rest') (heq : bad ++ rest = bad' ++ rest') : bad'.length ≤ bad.length := by
  rcases List.append_eq_append_iff.1 heq with ⟨more, rfl, hrest⟩ | ⟨more, rfl, -⟩
  · cases more with
    | nil => rw [List.append_nil]
    | cons byte more =>
      have hpart : bad ++ [byte] <+: bad ++ byte :: more := ⟨more, by simp⟩
      rcases h'.begins with hlength | ⟨c, hprefix⟩
      · rw [List.length_append, List.length_cons] at hlength
        exact absurd (List.length_eq_zero_iff.1 (by omega)) h.ne_nil
      · exact absurd (hpart.trans hprefix) (h.longest hrest c)
  · rw [List.length_append]
    exact Nat.le_add_right _ _

namespace ReadsInPlace

variable {bytes read : List UInt8}

/-- There is one way to read bytes in place. -/
theorem unique {read' : List UInt8} (h : ReadsInPlace bytes read) (h' : ReadsInPlace bytes read') :
    read = read' := by
  induction h generalizing read' with
  | nil =>
    exact (List.length_eq_zero_iff.1 h'.length_eq).symm
  | @char c bytes read _ ih =>
    generalize hall : utf8EncodeChar c ++ bytes = all at h'
    cases h' with
    | nil => exact absurd (List.append_eq_nil_iff.1 hall).1 (utf8EncodeChar_ne_nil c)
    | char d hrest =>
      obtain ⟨rfl, rfl⟩ := char_unique hall
      rw [ih hrest]
    | malformed hbad _ => exact absurd (hall ▸ List.prefix_append _ _) (hbad.no_char c)
  | @malformed bad bytes read hbad _ ih =>
    generalize hall : bad ++ bytes = all at h'
    cases h' with
    | nil => exact absurd (List.append_eq_nil_iff.1 hall).1 hbad.ne_nil
    | char d _ => exact absurd (hall ▸ List.prefix_append _ _) (hbad.no_char d)
    | malformed hbad' hrest =>
      have hlength := Nat.le_antisymm (hbad'.length_le hbad hall.symm) (hbad.length_le hbad' hall)
      obtain ⟨rfl, rfl⟩ := List.append_inj hall hlength
      rw [ih hrest]

end ReadsInPlace

/-! ## Byte strings -/

/-- Going through the bytes from some place on, with those before it in hand, gives all of them. -/
theorem toList_loop (bytes : ByteArray) (i : Nat) :
    ByteArray.toList.loop bytes i (bytes.data.toList.take i).reverse = bytes.data.toList := by
  rw [ByteArray.toList.loop]
  split
  · rename_i hlt
    have hget : bytes.data.toList[i]? = some (bytes.get! i) := by simp [ByteArray.get!, hlt]
    have hnext := toList_loop bytes (i + 1)
    rwa [List.take_add_one, hget, Option.toList_some, List.reverse_append] at hnext
  · rename_i hge
    have hall : bytes.data.toList.length ≤ i := Nat.le_of_not_lt hge
    rw [List.reverse_reverse, List.take_of_length_le hall]
termination_by bytes.size - i

theorem toList_eq (bytes : ByteArray) : bytes.toList = bytes.data.toList :=
  toList_loop bytes 0

/-- The bytes of a text are those of its characters. -/
theorem toList_toByteArray (l : List Char) :
    (String.ofList l).toByteArray.toList = l.flatMap utf8EncodeChar := by
  rw [toList_eq, String.toByteArray_ofList, List.utf8Encode, List.toList_data_toByteArray]

theorem length_toList (bytes : ByteArray) : bytes.toList.length = bytes.size := by
  rw [toList_eq]
  rfl

/-- There are no more pieces than bytes. -/
theorem length_pieces_le (bytes : List UInt8) : (pieces bytes).length ≤ bytes.length := by
  fun_induction pieces bytes with
  | case1 => exact Nat.le_refl _
  | case2 byte rest piece size _ ih =>
    rw [List.length_drop] at ih
    rw [List.length_cons, List.length_cons]
    omega

theorem decodeInPlace_of_valid {bytes : ByteArray} (h : bytes.IsValidUTF8) :
    decodeInPlace bytes = ⟨String.fromUTF8 bytes h, true⟩ := by
  rw [decodeInPlace, String.fromUTF8?, dif_pos h]

theorem decodeInPlace_of_not_valid {bytes : ByteArray} (h : ¬ bytes.IsValidUTF8) :
    decodeInPlace bytes =
      ⟨String.ofList ((pieces bytes.toList).flatMap Piece.inPlace), false⟩ := by
  rw [decodeInPlace, String.fromUTF8?, dif_neg h]

theorem readsInPlace_decodeInPlace (bytes : ByteArray) :
    ReadsInPlace bytes.toList (decodeInPlace bytes).text.toByteArray.toList := by
  by_cases h : bytes.IsValidUTF8
  · have hchars : ReadsInPlace bytes.toList bytes.toList := by
      obtain ⟨l, rfl⟩ := h
      rw [← String.toByteArray_ofList, toList_toByteArray]
      exact .of_chars l
    rw [decodeInPlace_of_valid h]
    exact hchars
  · rw [decodeInPlace_of_not_valid h, toList_toByteArray]
    exact .of_pieces _

/-- Reading bytes in place gives a text of as many bytes. It is the bytes themselves if they are
UTF-8; else each character stands for itself and each byte of a malformed sequence becomes the
stand-in. So no byte up to U+007F changes or moves, and reading the text again changes nothing. -/
theorem decodeInPlace_preserves (bytes : ByteArray) :
    (pieces bytes.toList).length ≤ bytes.size ∧
      let decoded := decodeInPlace bytes
      decoded.text.toByteArray.IsValidUTF8 ∧ decoded.text.toByteArray.size = bytes.size ∧
      (bytes.IsValidUTF8 → decoded.text.toByteArray = bytes) ∧
      (∀ read, ReadsInPlace bytes.toList read ↔ read = decoded.text.toByteArray.toList) ∧
      (∀ (i : Nat) (byte : UInt8), bytes.toList[i]? = some byte → byte.toNat < 0x80 →
        decoded.text.toByteArray.toList[i]? = some byte) ∧
      decodeInPlace decoded.text.toByteArray = ⟨decoded.text, true⟩ := by
  refine ⟨length_toList bytes ▸ length_pieces_le bytes.toList, ?_⟩
  intro decoded
  have hreads : ReadsInPlace bytes.toList decoded.text.toByteArray.toList :=
    readsInPlace_decodeInPlace bytes
  refine ⟨decoded.text.isValidUTF8, ?_, ?_, ?_, ?_, ?_⟩
  · rw [← length_toList, ← length_toList]
    exact hreads.length_eq
  · intro hvalid
    have hdecoded : decoded = ⟨String.fromUTF8 bytes hvalid, true⟩ := decodeInPlace_of_valid hvalid
    rw [hdecoded]
    rfl
  · exact fun read => ⟨fun h => h.unique hreads, fun h => h ▸ hreads⟩
  · exact fun i byte hbyte hsmall => hreads.getElem?_of_small hbyte hsmall
  · rw [decodeInPlace_of_valid decoded.text.isValidUTF8]
    rfl

example : (decodeInPlace ⟨#[0x61, 0xE2, 0x82, 0x41, 0xFF]⟩).text = "a__A_" := by cbv

end QueryTaint.Utf8
