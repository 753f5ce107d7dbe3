import Mathlib.Logic.Relation
import QueryTaint.Walk.Callee

/-!
# Visible scripts and their functions

The scripts that are searched from a script are those that inclusions lead to
(`mem_visibleFrom_iff`); so what is visible from a visible script is visible. The tables by which
calls are resolved hold functions of the scripts only (`Resolver.function_of_namesOf`,
`Resolver.function_of_scriptOf?`).
-/

namespace QueryTaint

/-! ## Visibility -/

section Reach

variable {bound : Nat} {next : Nat → List Nat}

/-- A number leads to the next ones below the bound. -/
def Leads (bound : Nat) (next : Nat → List Nat) (i j : Nat) : Prop := j ∈ next i ∧ j < bound

/-- What a listed number leads to is listed, or a number of the queue leads to it. -/
theorem listed_or_queued {listed queue : List Nat}
    (hlisted : ∀ i ∈ listed, ∀ j, Leads bound next i j → j ∈ listed ∨ j ∈ queue) {i k : Nat}
    (hi : i ∈ listed) (h : Relation.ReflTransGen (Leads bound next) i k) :
    k ∈ listed ∨ ∃ q ∈ queue, q < bound ∧ Relation.ReflTransGen (Leads bound next) q k := by
  induction h with
  | refl => exact .inl hi
  | tail _ hstep ih =>
    rcases ih with hmem | ⟨q, hq, hlt, hreach⟩
    · rcases hlisted _ hmem _ hstep with hmem | hmem
      · exact .inl hmem
      · exact .inr ⟨_, hmem, hstep.2, .refl⟩
    · exact .inr ⟨q, hq, hlt, hreach.tail hstep⟩

/-- What numbers of a queue lead to is reached, if what the listed ones lead to is listed or in the
queue. -/
theorem mem_reach_iff {listed queue : List Nat}
    (hlisted : ∀ i ∈ listed, ∀ j, Leads bound next i j → j ∈ listed ∨ j ∈ queue) {k : Nat} :
    k ∈ reach bound next listed queue ↔
      k ∈ listed ∨ ∃ i ∈ queue, i < bound ∧ Relation.ReflTransGen (Leads bound next) i k := by
  fun_induction reach bound next listed queue with
  | case1 listed => simp
  | case2 listed i rest h ih =>
    rw [ih ?listed]
    case listed =>
      intro x hx j hj
      rcases List.mem_append.1 hx with hx | hx
      · rcases hlisted x hx j hj with hj | hj
        · exact .inl (List.mem_append_left _ hj)
        · rcases List.mem_cons.1 hj with rfl | hj
          · exact .inl (by simp)
          · exact .inr (List.mem_append_left _ hj)
      · obtain rfl := List.mem_singleton.1 hx
        exact .inr (List.mem_append_right _ hj.1)
    constructor
    · rintro (hk | ⟨j, hj, hlt, hreach⟩)
      · rcases List.mem_append.1 hk with hk | hk
        · exact .inl hk
        · exact .inr ⟨i, List.mem_cons_self, h.1, List.mem_singleton.1 hk ▸ .refl⟩
      · rcases List.mem_append.1 hj with hj | hj
        · exact .inr ⟨j, List.mem_cons_of_mem _ hj, hlt, hreach⟩
        · exact .inr ⟨i, List.mem_cons_self, h.1, .head ⟨hj, hlt⟩ hreach⟩
    · rintro (hk | ⟨j, hj, hlt, hreach⟩)
      · exact .inl (List.mem_append_left _ hk)
      · rcases List.mem_cons.1 hj with rfl | hj
        · rcases Relation.ReflTransGen.cases_head hreach with rfl | ⟨c, hc, hreach⟩
          · exact .inl (by simp)
          · exact .inr ⟨c, List.mem_append_right _ hc.1, hc.2, hreach⟩
        · exact .inr ⟨j, List.mem_append_left _ hj, hlt, hreach⟩
  | case3 listed i rest h ih =>
    have hskip : ∀ x ∈ listed, ∀ j, Leads bound next x j → j ∈ listed ∨ j ∈ rest := by
      intro x hx j hj
      rcases hlisted x hx j hj with hmem | hmem
      · exact .inl hmem
      · rcases List.mem_cons.1 hmem with rfl | hmem
        · exact .inl (Classical.byContradiction fun hnew => h ⟨hj.2, hnew⟩)
        · exact .inr hmem
    rw [ih hskip]
    constructor
    · rintro (hk | ⟨j, hj, hreach⟩)
      · exact .inl hk
      · exact .inr ⟨j, List.mem_cons_of_mem _ hj, hreach⟩
    · rintro (hk | ⟨j, hj, hlt, hreach⟩)
      · exact .inl hk
      · rcases List.mem_cons.1 hj with rfl | hj
        · have hold : j ∈ listed := Classical.byContradiction fun hnew => h ⟨hlt, hnew⟩
          exact listed_or_queued hskip hold hreach
        · exact .inr ⟨j, hj, hlt, hreach⟩

end Reach

variable {scripts : List Script} {i j k : Nat}

/-- The scripts that are searched from a script are those that inclusions lead to. -/
theorem mem_visibleFrom_iff : j ∈ visibleFrom scripts i ↔
    i < scripts.length ∧
      Relation.ReflTransGen (Leads scripts.length (includedScripts scripts)) i j := by
  rw [visibleFrom, mem_reach_iff (by simp)]
  simp

theorem self_mem_visibleFrom (h : i < scripts.length) : i ∈ visibleFrom scripts i :=
  mem_visibleFrom_iff.2 ⟨h, .refl⟩

theorem visibleFrom_trans (hj : j ∈ visibleFrom scripts i) (hk : k ∈ visibleFrom scripts j) :
    k ∈ visibleFrom scripts i := by
  obtain ⟨hi, hj⟩ := mem_visibleFrom_iff.1 hj
  exact mem_visibleFrom_iff.2 ⟨hi, hj.trans (mem_visibleFrom_iff.1 hk).2⟩

theorem lt_of_mem_visibleFrom (h : j ∈ visibleFrom scripts i) : j < scripts.length := by
  obtain ⟨hi, hreach⟩ := mem_visibleFrom_iff.1 h
  rcases Relation.ReflTransGen.cases_tail hreach with rfl | ⟨_, -, hlast⟩
  · exact hi
  · exact hlast.2

namespace Resolver

variable {a : Arena}

theorem visibleOf_ofScripts (h : i < scripts.length) :
    (ofScripts a scripts).visibleOf i = visibleFrom scripts i := by
  simp [visibleOf, ofScripts, h]

theorem namesOf_ofScripts (a : Arena) (scripts : List Script) (i : Nat) :
    (ofScripts a scripts).namesOf i = (scripts[i]?.map nameTable).getD {} := by
  simp [namesOf, ofScripts]

theorem namesOf_eq_nameTable {s : Script} (h : scripts[i]? = some s) :
    (ofScripts a scripts).namesOf i = nameTable s := by
  rw [namesOf_ofScripts, h]
  rfl

/-! ## Tables -/

/-- What a map holds after insertions was there before or was inserted. -/
theorem of_get?_foldl_insert {α β γ : Type} [Ord α] [Std.TransOrd α] [Std.LawfulEqOrd α]
    {f : Std.TreeMap α β → γ → Std.TreeMap α β} {key : γ → α} {value : γ → β}
    (hf : ∀ m e, f m e = m.insert (key e) (value e)) {l : List γ} {m : Std.TreeMap α β} {x : α}
    {y : β} (h : (l.foldl f m).get? x = some y) :
    m.get? x = some y ∨ ∃ e ∈ l, key e = x ∧ value e = y := by
  induction l generalizing m with
  | nil => exact .inl h
  | cons e l ih =>
    rcases ih h with h | ⟨e', he', h⟩
    · rw [hf, Std.TreeMap.get?_eq_getElem?, Std.TreeMap.getElem?_insert] at h
      split at h
      · rename_i heq
        exact .inr ⟨e, List.mem_cons_self, Std.LawfulEqCmp.eq_of_compare heq, Option.some.inj h⟩
      · exact .inl h
    · exact .inr ⟨e', List.mem_cons_of_mem _ he', h⟩

theorem get?_empty {α β : Type} [Ord α] [Std.TransOrd α] (x : α) :
    ({} : Std.TreeMap α β).get? x = none := Std.TreeMap.getElem?_emptyc

/-- The names of a script stand for its functions. -/
theorem function_of_nameTable {s : Script} {name : String} {g : FuncId}
    (h : (nameTable s).get? name = some g) : ∃ full, s.functions.get? full = some g := by
  rcases of_get?_foldl_insert (fun _ _ => rfl) h with h | ⟨⟨full, f⟩, hmem, -, rfl⟩
  · cases (get?_empty name).symm.trans h
  · exact ⟨full, Std.TreeMap.mem_toList_iff_getElem?_eq_some.1 hmem⟩

theorem function_of_namesOf {name : String} {g : FuncId}
    (h : ((ofScripts a scripts).namesOf k).get? name = some g) :
    ∃ s, scripts[k]? = some s ∧ ∃ full, s.functions.get? full = some g := by
  cases hs : scripts[k]? with
  | none =>
    rw [namesOf_ofScripts, hs] at h
    cases (get?_empty name).symm.trans h
  | some s =>
    exact ⟨s, rfl, function_of_nameTable (namesOf_eq_nameTable hs ▸ h)⟩

/-- The script that a function belongs to has the function. -/
theorem function_of_scriptOf? {f : FuncId} (h : (ofScripts a scripts).scriptOf? f = some k) :
    ∃ s, scripts[k]? = some s ∧ ∃ full, s.functions.get? full = some f := by
  have key : ∀ (l : List (Script × Nat)) (owners : Std.TreeMap Nat Nat),
      (l.foldl (fun owners e => e.1.functions.toList.foldl (fun owners g =>
        owners.insert g.2.index e.2) owners) owners).get? f.index = some k →
      owners.get? f.index = some k ∨
        ∃ e ∈ l, e.2 = k ∧ ∃ full, e.1.functions.get? full = some f := by
    intro l
    induction l with
    | nil => exact fun owners h => .inl h
    | cons e l ih =>
      intro owners h
      rcases ih _ h with h | ⟨e', he', h⟩
      · rcases of_get?_foldl_insert (fun _ _ => rfl) h with h | ⟨⟨full, g⟩, hmem, hindex, hk⟩
        · exact .inl h
        · have hg : g = f := by
            cases g
            cases f
            exact congrArg FuncId.mk hindex
          exact .inr ⟨e, List.mem_cons_self, hk, full,
            hg ▸ Std.TreeMap.mem_toList_iff_getElem?_eq_some.1 hmem⟩
      · exact .inr ⟨e', List.mem_cons_of_mem _ he', h⟩
  rcases key _ _ h with h | ⟨⟨s, i⟩, hmem, rfl, hs⟩
  · cases (get?_empty f.index).symm.trans h
  · exact ⟨s, List.mem_zipIdx_iff_getElem?.1 hmem, hs⟩

end Resolver

end QueryTaint
