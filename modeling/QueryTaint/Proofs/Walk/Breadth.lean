import Mathlib.Data.List.Nodup
import QueryTaint.Proofs.Walk.Visible

/-!
# The order of visible scripts

Scripts are searched round by round: first the script itself, then those that it includes, then
those that these include, and so on, each where it is met first. `visibleFrom_eq_met` says that the
queue of `reach` goes through these rounds, and that as many rounds as there are scripts meet all of
them.
-/

namespace QueryTaint

/-- The numbers of a list that are not met yet, each where it comes first. -/
def unmet (met : List Nat) : List Nat → List Nat
  | [] => []
  | i :: rest => if i ∈ met then unmet met rest else i :: unmet (met ++ [i]) rest

/-- A search in rounds: all numbers met so far, and those that were met in the last round. -/
structure Search where
  met : List Nat
  last : List Nat

/-- The search from a number after some rounds. A round meets the numbers that come next after
those of the round before. -/
def Search.after (next : Nat → List Nat) (i : Nat) : Nat → Search
  | 0 => ⟨[i], [i]⟩
  | n + 1 =>
    let s := Search.after next i n
    let new := unmet s.met (s.last.flatMap next)
    ⟨s.met ++ new, new⟩

section Rounds

variable {bound : Nat} {next : Nat → List Nat} {met l : List Nat} {i j : Nat}

theorem mem_of_mem_unmet (h : j ∈ unmet met l) : j ∈ l := by
  fun_induction unmet met l with
  | case1 => exact h
  | case2 met i rest _ ih => exact List.mem_cons_of_mem i (ih h)
  | case3 met i rest _ ih =>
    rcases List.mem_cons.1 h with rfl | h
    · exact List.mem_cons_self
    · exact List.mem_cons_of_mem i (ih h)

theorem nodup_append_unmet (h : met.Nodup) : (met ++ unmet met l).Nodup := by
  fun_induction unmet met l with
  | case1 => simpa using h
  | case2 met i rest _ ih => exact ih h
  | case3 met i rest hnew ih =>
    have hmet : (met ++ [i]).Nodup := by simpa using h.concat hnew
    simpa using ih hmet

/-- The queue of a round is worked off before what the round puts behind it. -/
theorem reach_append (next : Nat → List Nat) (met later : List Nat) (hl : ∀ j ∈ l, j < bound) :
    reach bound next met (l ++ later)
      = reach bound next (met ++ unmet met l) (later ++ (unmet met l).flatMap next) := by
  fun_induction unmet met l generalizing later with
  | case1 => simp
  | case2 met i rest hold ih =>
    rw [List.cons_append, reach, dif_neg fun h => h.2 hold]
    exact ih later fun j hj => hl j (List.mem_cons_of_mem i hj)
  | case3 met i rest hnew ih =>
    have hround := ih (later ++ next i) fun j hj => hl j (List.mem_cons_of_mem i hj)
    rw [List.cons_append, reach, dif_pos ⟨hl i List.mem_cons_self, hnew⟩, List.append_assoc, hround]
    simp

variable (hnext : ∀ i, ∀ j ∈ next i, j < bound)
include hnext

theorem reach_eq_reach_after (hi : i < bound) (n : Nat) :
    reach bound next [] [i]
      = reach bound next (Search.after next i n).met
          ((Search.after next i n).last.flatMap next) := by
  induction n with
  | zero =>
    have hqueue : ∀ j ∈ [i], j < bound := by simpa using hi
    have hround := reach_append next [] [] hqueue
    simpa [Search.after, unmet] using hround
  | succ n ih =>
    have hqueue : ∀ j ∈ (Search.after next i n).last.flatMap next, j < bound := by
      intro j hj
      obtain ⟨k, -, hj⟩ := List.mem_flatMap.1 hj
      exact hnext k j hj
    have hround := reach_append next (Search.after next i n).met [] hqueue
    rw [ih]
    simpa [Search.after] using hround

omit hnext in
theorem nodup_met (n : Nat) : (Search.after next i n).met.Nodup := by
  induction n with
  | zero => exact List.nodup_singleton i
  | succ n ih => exact nodup_append_unmet ih

theorem lt_of_mem_met (hi : i < bound) {n : Nat} (h : j ∈ (Search.after next i n).met) :
    j < bound := by
  induction n with
  | zero => exact List.mem_singleton.1 h ▸ hi
  | succ n ih =>
    rcases List.mem_append.1 h with h | h
    · exact ih h
    · obtain ⟨k, -, hj⟩ := List.mem_flatMap.1 (mem_of_mem_unmet h)
      exact hnext k j hj

omit hnext in
/-- A round that still meets something new has at least one new number for each round before. -/
theorem lt_length_met {n : Nat} (h : (Search.after next i n).last ≠ []) :
    n < (Search.after next i n).met.length := by
  induction n with
  | zero => exact Nat.zero_lt_one
  | succ n ih =>
    have hbefore : (Search.after next i n).last ≠ [] := by
      intro hnil
      refine h ?_
      simp [Search.after, hnil, unmet]
    have hnew := List.length_pos_iff.2 h
    have hlength : (Search.after next i (n + 1)).met.length
        = (Search.after next i n).met.length + (Search.after next i (n + 1)).last.length :=
      List.length_append
    have := ih hbefore
    omega

/-- After as many rounds as there are numbers, nothing new is met. -/
theorem last_eq_nil (hi : i < bound) {n : Nat} (hn : bound ≤ n) :
    (Search.after next i n).last = [] := by
  refine Classical.byContradiction fun hne => ?_
  have hrange : (Search.after next i n).met ⊆ List.range bound := by
    intro j hj
    exact List.mem_range.2 (lt_of_mem_met hnext hi hj)
  have hlength := (nodup_met n).length_le_of_subset hrange
  rw [List.length_range] at hlength
  have := lt_length_met hne
  omega

end Rounds

/-! ## Scripts and their inclusions -/

section Order

variable {α : Type} {r : α → α → Prop} {p : α → Bool} {l : List α} {e : α}

/-- Of an ordered list, what is found first comes before all else that could be. -/
theorem find?_iff_of_pairwise (hr : ∀ x y, r x y → ¬r y x) (h : l.Pairwise r) :
    l.find? p = some e ↔ e ∈ l ∧ p e = true ∧ ∀ x ∈ l, p x = true → x = e ∨ r e x := by
  rw [List.find?_eq_some_iff_append]
  constructor
  · rintro ⟨hp, before, after, rfl, hbefore⟩
    refine ⟨List.mem_append_right _ List.mem_cons_self, hp, fun x hx hpx => ?_⟩
    rcases List.mem_append.1 hx with hx | hx
    · exact absurd hpx (by simpa using hbefore x hx)
    · rcases List.mem_cons.1 hx with rfl | hx
      · exact .inl rfl
      · exact .inr (List.rel_of_pairwise_cons (List.pairwise_append.1 h).2.1 hx)
  · rintro ⟨hmem, hp, hfirst⟩
    obtain ⟨before, after, rfl⟩ := List.append_of_mem hmem
    refine ⟨hp, before, after, rfl, fun x hx => ?_⟩
    have hlt : r x e := (List.pairwise_append.1 h).2.2 x hx e List.mem_cons_self
    rw [Bool.not_eq_true', Bool.eq_false_iff]
    intro hpx
    rcases hfirst x (List.mem_append_left _ hx) hpx with rfl | hgt
    · exact hr x x hlt hlt
    · exact hr x e hlt hgt

/-- Of an ordered list, what is found last comes after all else that could be. -/
theorem getLast?_filter_iff_of_pairwise (hr : ∀ x y, r x y → ¬r y x) (h : l.Pairwise r) :
    (l.filter p).getLast? = some e ↔
      e ∈ l ∧ p e = true ∧ ∀ x ∈ l, p x = true → x = e ∨ r x e := by
  rw [List.getLast?_filter,
    find?_iff_of_pairwise (r := fun x y => r y x) (fun x y => hr y x) (List.pairwise_reverse.2 h)]
  simp only [List.mem_reverse]

end Order

variable {scripts : List Script} {i j : Nat}

/-- A script includes the last script of a path that it includes. -/
def Includes (scripts : List Script) (i j : Nat) : Prop :=
  ∃ s t, scripts[i]? = some s ∧ scripts[j]? = some t ∧ t.path ∈ s.includes ∧
    ∀ k u, scripts[k]? = some u → u.path = t.path → k ≤ j

theorem scriptAt?_eq_some_iff {path : String} : scriptAt? scripts path = some j ↔
    ∃ t, scripts[j]? = some t ∧ t.path = path ∧
      ∀ k u, scripts[k]? = some u → u.path = path → k ≤ j := by
  have hsorted : scripts.zipIdx.Pairwise fun x y => x.2 < y.2 := by
    rw [← List.pairwise_map, List.zipIdx_map_snd]
    exact List.pairwise_lt_range'
  have hfound : ∀ t, (scripts.zipIdx.filter fun x => x.1.path == path).getLast? = some (t, j) ↔
      scripts[j]? = some t ∧ t.path = path ∧
        ∀ k u, scripts[k]? = some u → u.path = path → k ≤ j := by
    intro t
    rw [getLast?_filter_iff_of_pairwise (fun x y => Nat.lt_asymm) hsorted,
      List.mem_zipIdx_iff_getElem?, beq_iff_eq]
    refine and_congr_right fun ht => and_congr_right fun _ => ⟨fun h k u hu hpath => ?_, ?_⟩
    · rcases h (u, k) (List.mem_zipIdx_iff_getElem?.2 hu) (beq_iff_eq.2 hpath) with h | h
      · exact Nat.le_of_eq (congrArg Prod.snd h)
      · exact Nat.le_of_lt h
    · rintro h ⟨u, k⟩ hu hpath
      rw [List.mem_zipIdx_iff_getElem?] at hu
      rcases Nat.lt_or_eq_of_le (h k u hu (beq_iff_eq.1 hpath)) with hlt | rfl
      · exact .inr hlt
      · have hut : u = t := Option.some.inj (hu.symm.trans ht)
        exact .inl (by rw [hut])
  rw [scriptAt?, Option.map_eq_some_iff]
  constructor
  · rintro ⟨⟨t, _⟩, ht, rfl⟩
    exact ⟨t, (hfound t).1 ht⟩
  · rintro ⟨t, ht⟩
    exact ⟨(t, j), (hfound t).2 ht, rfl⟩

theorem mem_includedScripts_iff : j ∈ includedScripts scripts i ↔ Includes scripts i j := by
  rw [includedScripts]
  cases hs : scripts[i]? with
  | none =>
    refine ⟨fun h => absurd h List.not_mem_nil, ?_⟩
    rintro ⟨s, -, hs', -⟩
    cases hs.symm.trans hs'
  | some s =>
    simp only [List.mem_filterMap, scriptAt?_eq_some_iff]
    constructor
    · rintro ⟨_, hpath, t, ht, rfl, hlast⟩
      exact ⟨s, t, hs, ht, hpath, hlast⟩
    · rintro ⟨s', t, hs', ht, hpath, hlast⟩
      cases hs.symm.trans hs'
      exact ⟨t.path, hpath, t, ht, rfl, hlast⟩

theorem lt_of_mem_includedScripts (h : j ∈ includedScripts scripts i) : j < scripts.length := by
  obtain ⟨_, t, -, ht, -⟩ := mem_includedScripts_iff.1 h
  exact (List.getElem?_eq_some_iff.1 ht).1

/-- The visible scripts are those that the search meets, round by round. -/
theorem visibleFrom_eq_met (hi : i < scripts.length) {n : Nat} (hn : scripts.length ≤ n) :
    visibleFrom scripts i = (Search.after (includedScripts scripts) i n).met := by
  have hnext : ∀ i, ∀ j ∈ includedScripts scripts i, j < scripts.length :=
    fun i j => lt_of_mem_includedScripts
  rw [visibleFrom, reach_eq_reach_after hnext hi n, last_eq_nil hnext hi hn, List.flatMap_nil,
    reach]

theorem nodup_visibleFrom (hi : i < scripts.length) : (visibleFrom scripts i).Nodup :=
  visibleFrom_eq_met hi (Nat.le_refl _) ▸ nodup_met _

theorem head?_visibleFrom (hi : i < scripts.length) : (visibleFrom scripts i).head? = some i := by
  have hhead : ∀ n, (Search.after (includedScripts scripts) i n).met.head? = some i := by
    intro n
    induction n with
    | zero => rfl
    | succ n ih => exact List.head?_append.trans (by rw [ih]; rfl)
  exact visibleFrom_eq_met hi (Nat.le_refl _) ▸ hhead _

theorem mem_visibleFrom_iff_includes (hi : i < scripts.length) :
    j ∈ visibleFrom scripts i ↔ Relation.ReflTransGen (Includes scripts) i j := by
  have hleads : Leads scripts.length (includedScripts scripts) = Includes scripts := by
    funext k l
    refine propext ⟨fun h => mem_includedScripts_iff.1 h.1, fun h => ?_⟩
    have hmem := mem_includedScripts_iff.2 h
    exact ⟨hmem, lt_of_mem_includedScripts hmem⟩
  rw [mem_visibleFrom_iff, hleads, and_iff_right hi]

end QueryTaint
