import Mathlib.Data.String.Basic

/-!
# Dividing texts at a character

`String.splitOn` reads positions of the text. At a separator of one character it divides the text
as `List.splitOn` divides the list of its characters (`splitOn_singleton`), so the segments
determine the text and the other way round.
-/

namespace QueryTaint

open String (splitOnAux splitAux)

/-! ## The segments are those of the list of characters -/

theorem get_singleton (c : Char) : (0 : String.Pos.Raw).get (String.singleton c) = c := by
  rw [String.singleton_eq_ofList]
  exact String.get_of_valid [] [c]

theorem next_singleton (c : Char) :
    (0 : String.Pos.Raw).next (String.singleton c) = (String.singleton c).rawEndPos := by
  rw [String.singleton_eq_ofList, String.rawEndPos_ofList, String.utf8Len_cons, String.utf8Len_nil,
    Nat.zero_add]
  exact (String.next_of_valid [] c []).trans (by rw [String.utf8Len_nil, Nat.zero_add])

/-- Looking for a separator of one character is looking for the character: a match starts and ends
with it, so nothing is ever read again. -/
theorem splitOnAux_singleton (s : String) (c : Char) (b i : String.Pos.Raw) (r : List String) :
    splitOnAux s (String.singleton c) b i 0 r = splitAux s (· == c) b i r := by
  fun_induction splitAux s (· == c) b i r with
  | case1 b i r hend => rw [splitOnAux, if_pos hend]
  | case2 b i r hend _ hsep after ih =>
    have hback : (i.next s).unoffsetBy (String.singleton c).rawEndPos = i := by
      have hget : i.get s = c := by simpa using hsep
      simp [String.Pos.Raw.next, String.Pos.Raw.unoffsetBy, hget]
    rw [splitOnAux, if_neg hend, get_singleton, if_pos hsep]
    simp only [next_singleton, hback]
    rw [if_pos (by simp), ih]
  | case3 b i r hend _ hsep ih =>
    rw [splitOnAux, if_neg hend, get_singleton, if_neg hsep]
    exact ih

/-- A text is divided at a character as the list of its characters is. -/
theorem splitOn_singleton (s : String) (c : Char) :
    s.splitOn (String.singleton c) = (s.toList.splitOn c).map String.ofList := by
  rw [String.splitOn, if_neg (by simp), splitOnAux_singleton, ← String.splitToList,
    String.splitToList_of_valid, List.splitOn_eq_splitOnP]

/-! ## Segments and the text -/

variable {c : Char} {s t : String}

theorem splitOn_ne_nil : s.splitOn (String.singleton c) ≠ [] := by
  simp [splitOn_singleton]

theorem notMem_of_mem_list_splitOn {α : Type} [BEq α] [LawfulBEq α] {a : α} {l : List α} :
    ∀ {xs : List α}, l ∈ xs.splitOn a → a ∉ l := by
  intro xs
  induction xs generalizing l with
  | nil =>
    intro h
    rw [List.mem_singleton.1 h]
    exact List.not_mem_nil
  | cons x xs ih =>
    intro h
    rw [List.splitOn_cons_eq_if_modifyHead] at h
    split at h
    · rcases List.mem_cons.1 h with rfl | h
      · exact List.not_mem_nil
      · exact ih h
    · rename_i hx
      obtain ⟨first, rest, hsplit⟩ := List.exists_cons_of_ne_nil (List.splitOn_ne_nil a xs)
      rw [hsplit, List.modifyHead_cons] at h
      rcases List.mem_cons.1 h with rfl | h
      · intro ha
        rcases List.mem_cons.1 ha with rfl | ha
        · exact hx BEq.rfl
        · exact ih (hsplit ▸ List.mem_cons_self) ha
      · exact ih (hsplit ▸ List.mem_cons_of_mem _ h)

/-- No segment has the separator in it. -/
theorem notMem_of_mem_splitOn (h : t ∈ s.splitOn (String.singleton c)) : c ∉ t.toList := by
  rw [splitOn_singleton] at h
  obtain ⟨l, hl, rfl⟩ := List.mem_map.1 h
  rw [String.toList_ofList]
  exact notMem_of_mem_list_splitOn hl

theorem splitOn_of_notMem (h : c ∉ s.toList) : s.splitOn (String.singleton c) = [s] := by
  rw [splitOn_singleton, List.splitOn_eq_singleton h, List.map_singleton, String.ofList_toList]

/-- The segments of two texts with a separator between them. -/
theorem splitOn_append_separator :
    (s ++ String.singleton c ++ t).splitOn (String.singleton c)
      = s.splitOn (String.singleton c) ++ t.splitOn (String.singleton c) := by
  simp only [splitOn_singleton, String.toList_append, String.toList_singleton, List.append_assoc,
    List.singleton_append, List.splitOn_append_cons_self, List.map_append]

/-- Segments are those of the text that they make up. -/
theorem splitOn_intercalate {l : List String} (hne : l ≠ []) (h : ∀ t ∈ l, c ∉ t.toList) :
    ((String.singleton c).intercalate l).splitOn (String.singleton c) = l := by
  rw [splitOn_singleton, String.toList_intercalate, String.toList_singleton,
    List.splitOn_intercalate]
  · simp
  · simpa using h
  · simpa using hne

/-- A text is made up of its segments. -/
theorem intercalate_splitOn :
    (String.singleton c).intercalate (s.splitOn (String.singleton c)) = s := by
  refine String.toList_inj.1 ?_
  rw [splitOn_singleton, String.toList_intercalate, String.toList_singleton, List.map_map]
  simp [Function.comp_def]

/-- A text starts with the separator when its first segment is empty and not its only one. -/
theorem startsWith_singleton_iff :
    s.startsWith (String.singleton c) = true ↔
      ∃ rest, rest ≠ [] ∧ s.splitOn (String.singleton c) = "" :: rest := by
  rw [String.startsWith_string_iff, String.toList_singleton, splitOn_singleton]
  cases hs : s.toList with
  | nil => simp
  | cons x xs =>
    rw [List.cons_prefix_cons, List.splitOn_cons_eq_if_modifyHead]
    by_cases hx : x = c
    · simp [hx]
    · obtain ⟨first, rest, hsplit⟩ := List.exists_cons_of_ne_nil (List.splitOn_ne_nil c xs)
      simp [hx, Ne.symm hx, hsplit]

/-- A text ends in another one that stands after something in it. -/
theorem endsWith_iff_exists : s.endsWith t = true ↔ ∃ front, s = front ++ t := by
  rw [← String.endsWith_toSlice, String.Slice.endsWith_string_iff, String.copy_toSlice]
  constructor
  · rintro ⟨front, hfront⟩
    exact ⟨String.ofList front, String.toList_inj.1 (by simp [hfront])⟩
  · rintro ⟨front, rfl⟩
    exact ⟨front.toList, String.toList_append.symm⟩

end QueryTaint
