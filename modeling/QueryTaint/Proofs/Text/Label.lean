import Mathlib.Data.List.Nodup
import QueryTaint.Text.Label

/-!
# Generated labels

The labels of one generator are numbered from where it stands. They differ from one another
(`Labels.nodup_names`) and all start with the stem (`Labels.stem_isPrefix_name`).
-/

namespace QueryTaint

theorem natText_injective : Function.Injective fun n : Nat => toString n := by
  intro i j h
  simp only [Nat.toString_eq_ofList_toDigits, String.ofList_inj] at h
  rw [← Nat.ofDigitChars_ten_toDigits (n := i), h, Nat.ofDigitChars_ten_toDigits]

namespace Labels

/-- A generated label, by its number. -/
def name (l : Labels) (i : Nat) : String := labelStem ++ l.scope ++ "_" ++ toString i

/-- The labels after some more are made. -/
def advance (l : Labels) (count : Nat) : Labels := { l with labels := l.labels + count }

/-- The next labels. -/
def names (l : Labels) (count : Nat) : List String := (List.range' l.labels count).map l.name

theorem advance_advance (l : Labels) (m n : Nat) : (l.advance m).advance n = l.advance (m + n) := by
  simp only [advance, Nat.add_assoc]

theorem names_add (l : Labels) (m n : Nat) : l.names (m + n) = l.names m ++ (l.advance m).names n := by
  simp only [names, advance, ← List.range'_append_1, List.map_append]
  rfl

theorem names_zero (l : Labels) : l.names 0 = [] := rfl

theorem names_one (l : Labels) : l.names 1 = [l.name l.labels] := rfl

theorem names_two (l : Labels) : l.names 2 = [l.name l.labels, l.name (l.labels + 1)] := rfl

theorem name_injective (l : Labels) : Function.Injective l.name := fun _ _ h =>
  natText_injective ((String.append_right_inj _).1 h)

theorem nodup_names (l : Labels) (count : Nat) : (l.names count).Nodup :=
  List.Nodup.map l.name_injective List.nodup_range'

theorem stem_isPrefix_name (l : Labels) (i : Nat) : labelStem.toList <+: (l.name i).toList := by
  simp only [name, String.toList_append, List.append_assoc]
  exact List.prefix_append ..

end Labels

end QueryTaint
