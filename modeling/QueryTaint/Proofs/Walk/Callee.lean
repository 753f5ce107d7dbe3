import QueryTaint.Proofs.Text.Segment
import QueryTaint.Proofs.Walk.Breadth

/-!
# Which function a name stands for

What a call by name is answered with, in terms of the functions that the visible scripts have and
not of the tables in which they are looked up: first the function of the very name, then one whose
name ends in the same way, then a method that no other visible one shares its name with. Each stage
says which function it is (`Earliest`, `Script.Least`, `Sole`), and the first stage that has one
answers (`Answer`).
-/

namespace QueryTaint

/-! ## Names -/

section Names

variable {name leaf : String}

theorem backslash : "\\" = String.singleton '\\' := rfl

/-- The leaf of a name is what stands after its last separator. -/
theorem leafOf_eq_iff : leafOf name = leaf ↔
    '\\' ∉ leaf.toList ∧ (name = leaf ∨ ∃ front, name = front ++ "\\" ++ leaf) := by
  rw [leafOf, backslash]
  constructor
  · rintro rfl
    obtain ⟨front, last, h⟩ :
        ∃ front last, name.splitOn (String.singleton '\\') = front ++ [last] := by
      rcases List.eq_nil_or_concat (name.splitOn (String.singleton '\\')) with h | ⟨front, last, h⟩
      · exact absurd h splitOn_ne_nil
      · exact ⟨front, last, h.trans List.concat_eq_append⟩
    have hname := intercalate_splitOn (s := name) (c := '\\')
    have hlast : '\\' ∉ last.toList := by
      refine notMem_of_mem_splitOn (s := name) ?_
      rw [h]
      exact List.mem_append_right _ List.mem_cons_self
    rw [h] at hname ⊢
    rw [List.getLast?_concat, Option.getD_some]
    refine ⟨hlast, ?_⟩
    by_cases hfront : front = []
    · left
      rw [← hname, hfront, List.nil_append, String.intercalate_singleton]
    · right
      refine ⟨(String.singleton '\\').intercalate front, ?_⟩
      rw [← hname, String.intercalate_append_of_ne_nil hfront (List.cons_ne_nil _ _),
        String.intercalate_singleton]
  · rintro ⟨hleaf, rfl | ⟨front, rfl⟩⟩
    · rw [splitOn_of_notMem hleaf]
      rfl
    · rw [splitOn_append_separator, splitOn_of_notMem hleaf, List.getLast?_concat,
        Option.getD_some]

theorem leafOf_dropSeparators (name : String) : leafOf (dropSeparators name) = leafOf name := by
  obtain ⟨hleaf, hshape⟩ := leafOf_eq_iff.1 (Eq.refl (leafOf (dropSeparators name)))
  generalize leafOf (dropSeparators name) = leaf at hleaf hshape ⊢
  obtain ⟨seps, hseps, hname⟩ : ∃ seps : List Char, (∀ c ∈ seps, c = '\\') ∧
      name = String.ofList seps ++ dropSeparators name := by
    refine ⟨name.toList.takeWhile (· = '\\'), fun c hc => ?_, ?_⟩
    · simpa using List.all_eq_true.1 List.all_takeWhile c hc
    · rw [dropSeparators, ← String.ofList_append, List.takeWhile_append_dropWhile,
        String.ofList_toList]
  refine (leafOf_eq_iff.2 ⟨hleaf, ?_⟩).symm
  rcases hshape with hshape | ⟨front, hshape⟩
  · rw [hshape] at hname
    rcases List.eq_nil_or_concat seps with rfl | ⟨seps, last, rfl⟩
    · exact .inl (hname.trans String.empty_append)
    · have hlast : last = '\\' := hseps last (by simp)
      refine .inr ⟨String.ofList seps, hname.trans ?_⟩
      rw [hlast, List.concat_eq_append, String.ofList_append]
  · rw [hshape] at hname
    exact .inr ⟨String.ofList seps ++ front, hname.trans (by simp only [String.append_assoc])⟩

theorem dropEnd?_eq_some_iff {text ending front : String} :
    Resolver.dropEnd? text ending = some front ↔ text = front ++ ending := by
  have htake : ∀ front : String, String.ofList ((front ++ ending).toList.take
      ((front ++ ending).length - ending.length)) = front := by
    intro front
    rw [String.length_append, Nat.add_sub_cancel, String.toList_append, ← String.length_toList,
      List.take_left, String.ofList_toList]
  rw [Resolver.dropEnd?]
  constructor
  · intro h
    split at h
    · rename_i hends
      obtain ⟨front', rfl⟩ := endsWith_iff_exists.1 hends
      rw [htake] at h
      rw [Option.some.inj h]
    · cases h
  · rintro rfl
    rw [if_pos (endsWith_iff_exists.2 ⟨front, rfl⟩), htake]

theorem toLower_toLower (c : Char) : c.toLower.toLower = c.toLower := by
  by_cases hupper : c.val ≥ 'A'.val ∧ c.val ≤ 'Z'.val
  · have hval : c.toLower.val.toNat = c.val.toNat + 32 := by
      have hle := UInt32.le_iff_toNat_le.1 hupper.2
      have hraised : c.toLower.val = c.val + ('a'.val - 'A'.val) :=
        congrArg Char.val (dif_pos hupper)
      rw [hraised, UInt32.toNat_add]
      refine Nat.mod_eq_of_lt ?_
      have : 'Z'.val.toNat = 90 := rfl
      have : ('a'.val - 'A'.val).toNat = 32 := rfl
      omega
    refine dif_neg fun hlower => ?_
    have hge := UInt32.le_iff_toNat_le.1 hupper.1
    have hle := UInt32.le_iff_toNat_le.1 hlower.2
    have : 'A'.val.toNat = 65 := rfl
    have : 'Z'.val.toNat = 90 := rfl
    omega
  · have hsame : c.toLower = c := dif_neg hupper
    rw [hsame, hsame]

theorem lowerAscii_lowerAscii (s : String) : lowerAscii (lowerAscii s) = lowerAscii s := by
  refine String.toList_inj.1 ?_
  simp only [lowerAscii, String.toList_map, List.map_map]
  exact List.map_congr_left fun c _ => toLower_toLower c

theorem lowerAscii_append (s t : String) :
    lowerAscii (s ++ t) = lowerAscii s ++ lowerAscii t := by
  refine String.toList_inj.1 ?_
  simp [lowerAscii]

theorem dropSeparators_method (cls method : String) :
    dropSeparators (cls ++ "::" ++ method) = dropSeparators cls ++ "::" ++ method := by
  refine String.toList_inj.1 ?_
  simp only [dropSeparators, String.toList_append, String.toList_ofList, List.append_assoc,
    List.dropWhile_append]
  split
  · rename_i hall
    rw [List.isEmpty_iff.1 hall]
    rfl
  · rfl

end Names

/-! ## What scripts offer -/

/-- The key that a function is called by. -/
def callKey (name : String) : String := lowerAscii (dropSeparators name)

/-- What a script has under a key: of its functions whose names have the key, the one whose name is
the greatest. -/
def Script.Offers (s : Script) (key : String) (f : FuncId) : Prop :=
  ∃ name, s.functions.get? name = some f ∧ callKey name = key ∧
    ∀ other g, s.functions.get? other = some g → callKey other = key → (compare other name).isLE

/-- What a script has under the least of the keys that fit. -/
def Script.Least (s : Script) (fits : String → Prop) (f : FuncId) : Prop :=
  ∃ key, fits key ∧ s.Offers key f ∧
    ∀ other g, fits other → s.Offers other g → (compare key other).isLE

/-- What the first script has that has any. -/
def Earliest (visible : List Script) (has : Script → FuncId → Prop) (f : FuncId) : Prop :=
  ∃ before s after, visible = before ++ s :: after ∧ has s f ∧ ∀ t ∈ before, ∀ g, ¬has t g

/-- What scripts have under keys that fit, if it is only one function. -/
def Sole (visible : List Script) (fits : String → Prop) (f : FuncId) : Prop :=
  (∃ s ∈ visible, ∃ key, fits key ∧ s.Offers key f) ∧
    ∀ s ∈ visible, ∀ key g, fits key → s.Offers key g → g = f

/-- What the first stage says that says anything. -/
def Answer : List (FuncId → Prop) → Option FuncId → Prop
  | [], answer => answer = none
  | stage :: rest, answer =>
    (∃ f, stage f ∧ answer = some f) ∨ (∀ f, ¬stage f) ∧ Answer rest answer

/-! ## Name tables -/

section Table

variable {β : Type} {m : Std.TreeMap String β} {e x : String × β}

theorem compare_lt_asymm (x y : String × β) (h : compare x.1 y.1 = .lt) :
    ¬compare y.1 x.1 = .lt := by
  rw [Std.OrientedCmp.gt_of_lt h]
  decide

theorem mem_toList_iff_get? : e ∈ m.toList ↔ m.get? e.1 = some e.2 :=
  Std.TreeMap.mem_toList_iff_getElem?_eq_some

/-- Only one entry of a map has a given key. -/
theorem eq_or_lt_iff_isLE (hx : x ∈ m.toList) (he : e ∈ m.toList) :
    x = e ∨ compare x.1 e.1 = .lt ↔ (compare x.1 e.1).isLE = true := by
  constructor
  · rintro (rfl | hlt)
    · exact Ordering.isLE_of_eq_eq Std.ReflCmp.compare_self
    · exact Ordering.isLE_of_eq_lt hlt
  · intro hle
    rcases Ordering.isLE_iff_eq_lt_or_eq_eq.1 hle with hlt | heq
    · exact .inr hlt
    · have hkey : x.1 = e.1 := Std.LawfulEqCmp.eq_of_compare heq
      have hvalue := mem_toList_iff_get?.1 hx
      rw [hkey, mem_toList_iff_get?.1 he] at hvalue
      exact .inl (Prod.ext hkey (Option.some.inj hvalue).symm)

/-- Reading a map in the order of its keys finds the least of those that could be found. -/
theorem find?_toList_iff {p : String × β → Bool} : m.toList.find? p = some e ↔
    e ∈ m.toList ∧ p e = true ∧
      ∀ x ∈ m.toList, p x = true → (compare e.1 x.1).isLE = true := by
  rw [find?_iff_of_pairwise compare_lt_asymm Std.TreeMap.ordered_keys_toList]
  refine and_congr_right fun he => and_congr_right fun _ => forall₂_congr fun x hx => ?_
  rw [← eq_or_lt_iff_isLE he hx, @eq_comm _ x e]

/-- What stands last in the order of the keys has the greatest one. -/
theorem getLast?_filter_toList_iff {p : String × β → Bool} :
    (m.toList.filter p).getLast? = some e ↔
      e ∈ m.toList ∧ p e = true ∧
        ∀ x ∈ m.toList, p x = true → (compare x.1 e.1).isLE = true := by
  rw [getLast?_filter_iff_of_pairwise compare_lt_asymm Std.TreeMap.ordered_keys_toList]
  refine and_congr_right fun he => and_congr_right fun _ => forall₂_congr fun x hx => ?_
  rw [eq_or_lt_iff_isLE hx he]

/-- After insertions a map holds under a key what was inserted last. -/
theorem get?_foldl_insert {γ : Type} (key : γ → String) (value : γ → β) (l : List γ)
    (m : Std.TreeMap String β) (x : String) :
    (l.foldl (fun m e => m.insert (key e) (value e)) m).get? x
      = (((l.filter fun e => key e = x).getLast?).map value).or (m.get? x) := by
  induction l generalizing m with
  | nil => rfl
  | cons e l ih =>
    rw [List.foldl_cons, ih, Std.TreeMap.get?_eq_getElem?, Std.TreeMap.getElem?_insert]
    by_cases hkey : key e = x
    · rw [List.filter_cons_of_pos (by simpa using hkey), List.getLast?_cons,
        if_pos (by simp [hkey])]
      cases (l.filter fun e => key e = x).getLast? <;> rfl
    · have hne : compare (key e) x ≠ .eq := fun h => hkey (Std.LawfulEqCmp.eq_of_compare h)
      rw [List.filter_cons_of_neg (by simpa using hkey), if_neg hne]
      rfl

end Table

/-- The table of a script holds what the script offers. -/
theorem get?_nameTable {s : Script} {key : String} {f : FuncId} :
    (nameTable s).get? key = some f ↔ s.Offers key f := by
  have htable : (nameTable s).get? key
      = ((s.functions.toList.filter fun e => callKey e.1 = key).getLast?).map (·.2) := by
    refine (get?_foldl_insert (fun e : String × FuncId => callKey e.1) (·.2) s.functions.toList {}
      key).trans ?_
    rw [Resolver.get?_empty, Option.or_none]
  simp only [htable, Option.map_eq_some_iff, getLast?_filter_toList_iff, mem_toList_iff_get?,
    decide_eq_true_iff, Prod.exists, exists_eq_right, Prod.forall, Script.Offers]

theorem mem_toList_nameTable {s : Script} {key : String} {f : FuncId} :
    (key, f) ∈ (nameTable s).toList ↔ s.Offers key f :=
  mem_toList_iff_get?.trans get?_nameTable

/-- Searching the table of a script finds the least of the keys that fit. -/
theorem find?_nameTable {s : Script} {p : String → Bool} {fits : String → Prop}
    (hp : ∀ key, p key = true ↔ fits key) {f : FuncId} :
    ((nameTable s).toList.find? fun e => p e.1).map (·.2) = some f ↔ s.Least fits f := by
  simp only [Option.map_eq_some_iff, find?_toList_iff, Prod.exists, exists_eq_right, Prod.forall,
    mem_toList_nameTable, hp, Script.Least]
  constructor
  · rintro ⟨key, hoffers, hfits, hleast⟩
    exact ⟨key, hfits, hoffers, fun other g hother hg => hleast other g hg hother⟩
  · rintro ⟨key, hfits, hoffers, hleast⟩
    exact ⟨key, hoffers, hfits, fun other g hg hother => hleast other g hother hg⟩

/-! ## Stages -/

theorem findSome?_eq_some_iff_earliest {visible : List Script} {g : Script → Option FuncId}
    {has : Script → FuncId → Prop} (hg : ∀ s f, g s = some f ↔ has s f) {f : FuncId} :
    visible.findSome? g = some f ↔ Earliest visible has f := by
  simp only [List.findSome?_eq_some_iff, Earliest, hg, Option.eq_none_iff_forall_ne_some, ne_eq]

/-- Stages that give an answer are asked one after the other. -/
structure Answers (stages : List (FuncId → Prop)) (found : Option FuncId) : Prop where
  iff : ∀ answer, found = answer ↔ Answer stages answer

theorem Answers.nil : Answers [] none := ⟨fun _ => eq_comm⟩

theorem Answers.cons {stage : FuncId → Prop} {stages : List (FuncId → Prop)}
    {first rest : Option FuncId} (hfirst : ∀ f, first = some f ↔ stage f)
    (hrest : Answers stages rest) : Answers (stage :: stages) (first.or rest) := by
  refine ⟨fun answer => ?_⟩
  simp only [Answer, ← hfirst, ← hrest.iff]
  cases first with
  | none => simp
  | some f => simp [eq_comm]

theorem Answers.single {stage : FuncId → Prop} {found : Option FuncId}
    (h : ∀ f, found = some f ↔ stage f) : Answers [stage] found :=
  Option.or_none (o := found) ▸ Answers.cons h .nil

/-! ## Resolving -/

/-- The scripts that are searched from a script, in order. -/
def visibleScripts (scripts : List Script) (i : Nat) : List Script :=
  (visibleFrom scripts i).filterMap (scripts[·]?)

namespace Resolver

variable {a : Arena} {scripts : List Script} {i j : Nat}

theorem findSome?_visible (hi : i < scripts.length)
    (g : Std.TreeMap String FuncId → Option FuncId) :
    ((ofScripts a scripts).visibleOf i).findSome? (fun j => g ((ofScripts a scripts).namesOf j))
      = (visibleScripts scripts i).findSome? fun s => g (nameTable s) := by
  rw [visibleOf_ofScripts hi, visibleScripts]
  have hlt : ∀ j ∈ visibleFrom scripts i, j < scripts.length := fun j => lt_of_mem_visibleFrom
  generalize visibleFrom scripts i = visible at hlt ⊢
  induction visible with
  | nil => rfl
  | cons j visible ih =>
    have hj : scripts[j]? = some _ := List.getElem?_eq_getElem (hlt j List.mem_cons_self)
    rw [List.filterMap_cons_some hj, List.findSome?_cons, List.findSome?_cons,
      namesOf_eq_nameTable hj, ih fun k hk => hlt k (List.mem_cons_of_mem j hk)]

theorem lookup?_eq_some_iff (hi : i < scripts.length) (name : String) (f : FuncId) :
    (ofScripts a scripts).lookup? i name = some f ↔
      Earliest (visibleScripts scripts i) (·.Offers (lowerAscii name)) f := by
  rw [lookup?, findSome?_visible hi fun names => names.get? (lowerAscii name)]
  exact findSome?_eq_some_iff_earliest fun s f => get?_nameTable

theorem search?_eq_some_iff (hi : i < scripts.length) {p : String → Bool} {fits : String → Prop}
    (hp : ∀ key, p key = true ↔ fits key) (f : FuncId) :
    (ofScripts a scripts).search? i p = some f ↔
      Earliest (visibleScripts scripts i) (·.Least fits) f := by
  rw [search?, findSome?_visible hi fun names => (names.toList.find? fun e => p e.1).map (·.2)]
  exact findSome?_eq_some_iff_earliest fun s f => find?_nameTable hp

theorem mem_visible_iff (hi : i < scripts.length) {key : String} {f : FuncId} :
    (∃ j ∈ (ofScripts a scripts).visibleOf i, (key, f) ∈ ((ofScripts a scripts).namesOf j).toList) ↔
      ∃ s ∈ visibleScripts scripts i, s.Offers key f := by
  simp only [visibleOf_ofScripts hi, visibleScripts, List.mem_filterMap]
  constructor
  · rintro ⟨j, hj, hmem⟩
    have hs : scripts[j]? = some _ := List.getElem?_eq_getElem (lt_of_mem_visibleFrom hj)
    exact ⟨_, ⟨j, hj, hs⟩, mem_toList_nameTable.1 (namesOf_eq_nameTable (a := a) hs ▸ hmem)⟩
  · rintro ⟨s, ⟨j, hj, hs⟩, hoffers⟩
    exact ⟨j, hj, namesOf_eq_nameTable (a := a) hs ▸ mem_toList_nameTable.2 hoffers⟩

/-- All that is found is one function. -/
theorem all_eq_some_iff {found : List FuncId} {f : FuncId} :
    (match found with
      | [] => none
      | func :: rest => if rest.all (· = func) then some func else none) = some f ↔
      f ∈ found ∧ ∀ g ∈ found, g = f := by
  cases found with
  | nil => simp
  | cons func rest =>
    simp only [List.all_eq_true, decide_eq_true_iff, Option.ite_none_right_eq_some,
      Option.some.injEq, List.mem_cons, forall_eq_or_imp]
    constructor
    · rintro ⟨hall, rfl⟩
      exact ⟨.inl rfl, rfl, hall⟩
    · rintro ⟨-, rfl, hall⟩
      exact ⟨hall, rfl⟩

/-- The visible methods of a name. -/
def methods (r : Resolver) (script : Nat) (method : String) : List FuncId :=
  (r.visibleOf script).flatMap fun j =>
    ((r.namesOf j).toList.filter fun e => e.1.endsWith ("::" ++ method)).map (·.2)

theorem uniqueMethod?_eq_some_iff {r : Resolver} {script : Nat} {method : String} {f : FuncId} :
    r.uniqueMethod? script method = some f ↔
      f ∈ r.methods script method ∧ ∀ g ∈ r.methods script method, g = f := by
  rw [uniqueMethod?]
  exact all_eq_some_iff

theorem uniqueMethod?_eq_some_iff_sole (hi : i < scripts.length) (method : String) (f : FuncId) :
    (ofScripts a scripts).uniqueMethod? i method = some f ↔
      Sole (visibleScripts scripts i) (fun key => ∃ owner, key = owner ++ "::" ++ method) f := by
  have hfound : ∀ g, g ∈ (ofScripts a scripts).methods i method ↔
      ∃ s ∈ visibleScripts scripts i, ∃ key, (∃ owner, key = owner ++ "::" ++ method) ∧
        s.Offers key g := by
    intro g
    simp only [methods, List.mem_flatMap, List.mem_map, List.mem_filter, endsWith_iff_exists,
      Prod.exists, exists_eq_right, String.append_assoc]
    constructor
    · rintro ⟨j, hj, key, hmem, howner⟩
      obtain ⟨s, hs, hoffers⟩ := (mem_visible_iff hi).1 ⟨j, hj, hmem⟩
      exact ⟨s, hs, key, howner, hoffers⟩
    · rintro ⟨s, hs, key, howner, hoffers⟩
      obtain ⟨j, hj, hmem⟩ := (mem_visible_iff (a := a) hi).2 ⟨s, hs, hoffers⟩
      exact ⟨j, hj, key, hmem, howner⟩
  rw [uniqueMethod?_eq_some_iff, hfound]
  refine and_congr_right fun _ => ?_
  simp only [hfound]
  constructor
  · rintro h s hs key g hfits hoffers
    exact h g ⟨s, hs, key, hfits, hoffers⟩
  · rintro h g ⟨s, hs, key, hfits, hoffers⟩
    exact h s hs key g hfits hoffers

end Resolver

/-! ## Calls by name -/

/-- A name that is called: of a function, or of a class and a method in it. -/
inductive Called where
  | function (name : String)
  | method (cls name : String)

/-- The stages in which a called name is looked for among visible scripts. -/
def Called.stages (visible : List Script) : Called → List (FuncId → Prop)
  | function name => [
      Earliest visible (·.Offers (callKey name)),
      Earliest visible (·.Least fun key =>
        ¬key.contains "::" = true ∧ leafOf key = lowerAscii (leafOf name))]
  | method cls name => [
      Earliest visible (·.Offers (callKey (cls ++ "::" ++ name))),
      Earliest visible (·.Least fun key => ∃ owner, key = owner ++ "::" ++ lowerAscii name ∧
        leafOf owner = lowerAscii (leafOf cls)),
      Sole visible fun key => ∃ owner, key = owner ++ "::" ++ lowerAscii name]

/-- A call calls a name: a function by a name that is a text, or a method of a class that is named
and not by one of the words that stand for a class. -/
def Arena.Calls (a : Arena) (call : OpId) : Called → Prop
  | .function name => ∃ callee args result,
      (a.op call).kind = .functionCall callee args result ∧ a.stringOf? callee = some name
  | .method cls name => ∃ owner callee args result,
      (a.op call).kind = .staticCall owner callee args result ∧ a.stringOf? owner = some cls ∧
        lowerAscii cls ∉ ["self", "static", "parent"] ∧ a.stringOf? callee = some name

namespace Resolver

variable {a : Arena} {scripts : List Script} {i : Nat}

theorem function?_answers (hi : i < scripts.length) (name : String) :
    Answers ((Called.function name).stages (visibleScripts scripts i))
      ((ofScripts a scripts).function? i name) := by
  have hfits : ∀ key : String,
      (!key.contains "::" && leafOf key == lowerAscii (leafOf (dropSeparators name))) = true ↔
        ¬key.contains "::" = true ∧ leafOf key = lowerAscii (leafOf name) := by
    intro key
    rw [Bool.and_eq_true, Bool.not_eq_true', Bool.not_eq_true, beq_iff_eq,
      leafOf_dropSeparators]
  exact .cons (lookup?_eq_some_iff hi (dropSeparators name))
    (.single (search?_eq_some_iff hi hfits))

theorem method?_answers (hi : i < scripts.length) (cls name : String) :
    Answers ((Called.method cls name).stages (visibleScripts scripts i))
      ((ofScripts a scripts).method? i (some cls) name) := by
  have hkey : callKey (cls ++ "::" ++ name)
      = lowerAscii (dropSeparators cls ++ "::" ++ lowerAscii name) := by
    rw [callKey, dropSeparators_method, lowerAscii_append, lowerAscii_append _ (lowerAscii name),
      lowerAscii_lowerAscii]
  have hmethod : (ofScripts a scripts).method? i (some cls) name
      = ((ofScripts a scripts).lookup? i (dropSeparators cls ++ "::" ++ lowerAscii name)).or
          (((ofScripts a scripts).search? i _).or
            ((ofScripts a scripts).uniqueMethod? i (lowerAscii name))) := Option.or_assoc
  rw [hmethod, Called.stages, hkey]
  refine .cons (lookup?_eq_some_iff hi _) (.cons (search?_eq_some_iff hi fun key => ?_)
    (.single (uniqueMethod?_eq_some_iff_sole hi _)))
  simp only [String.append_assoc, ← dropEnd?_eq_some_iff]
  rw [leafOf_dropSeparators]
  cases dropEnd? key ("::" ++ lowerAscii name) with
  | none => simp
  | some owner => simp

/-- A call by name is answered by the first stage that has an answer. -/
theorem resolve?_answers (hi : i < scripts.length) {call : OpId} {called : Called}
    (h : a.Calls call called) (caller : FuncId) (overrides : Overrides) :
    Answers (called.stages (visibleScripts scripts i))
      ((ofScripts a scripts).resolve? i caller call overrides) := by
  cases called with
  | function name =>
    obtain ⟨callee, args, result, hkind, hname⟩ := h
    have hresolve : (ofScripts a scripts).resolve? i caller call overrides
        = (ofScripts a scripts).function? i name := by
      simp only [resolve?, ofScripts, hkind, hname]
    exact hresolve ▸ function?_answers hi name
  | method cls name =>
    obtain ⟨owner, callee, args, result, hkind, hcls, hword, hname⟩ := h
    have hnamed : (ofScripts a scripts).namedClass? owner caller = some cls := by
      simp only [namedClass?, ofScripts, hcls, Option.bind_eq_bind, Option.bind_some]
      split <;> simp_all
    have hresolve : (ofScripts a scripts).resolve? i caller call overrides
        = (ofScripts a scripts).method? i (some cls) name := by
      have harena : (ofScripts a scripts).arena = a := rfl
      simp only [resolve?, harena, hkind, hname, hnamed, Option.bind_eq_bind, Option.bind_some]
    exact hresolve ▸ method?_answers hi cls name

/-! ## Tables read in any order -/

/-- An order in which the entries of each name table are read. -/
structure Listing (r : Resolver) where
  entries : Nat → List (String × FuncId)
  perm : ∀ j, (entries j).Perm (r.namesOf j).toList

namespace Listing

variable {r : Resolver}

/-- Searches tables as they are listed: those entries of a table that fit are sorted by their keys,
and the first one counts. -/
def search? (l : r.Listing) (script : Nat) (fits : String → Bool) : Option FuncId :=
  (r.visibleOf script).findSome? fun j =>
    (((l.entries j).filter fun e => fits e.1).mergeSort fun x y =>
      (compare x.1 y.1).isLE).head?.map (·.2)

/-- Goes through functions with the one found so far, and gives up when another one comes. -/
def onlyOne? (found : Option FuncId) : List FuncId → Option FuncId
  | [] => found
  | f :: rest => if found.any (· ≠ f) then none else onlyOne? (some f) rest

/-- Looks for the only method of a name in tables as they are listed. -/
def uniqueMethod? (l : r.Listing) (script : Nat) (method : String) : Option FuncId :=
  onlyOne? none ((r.visibleOf script).flatMap fun j =>
    ((l.entries j).filter fun e => e.1.endsWith ("::" ++ method)).map (·.2))

theorem sorted_eq_filter (l : r.Listing) (j : Nat) (fits : String → Bool) :
    (((l.entries j).filter fun e => fits e.1).mergeSort fun x y => (compare x.1 y.1).isLE)
      = (r.namesOf j).toList.filter fun e => fits e.1 := by
  have hsorted : ((r.namesOf j).toList.filter fun e => fits e.1).Pairwise fun x y =>
      (compare x.1 y.1).isLE = true :=
    (Std.TreeMap.ordered_keys_toList.imp fun h => Ordering.isLE_of_eq_lt h).filter _
  have hperm := (List.mergeSort_perm ((l.entries j).filter fun e => fits e.1) fun x y =>
    (compare x.1 y.1).isLE).trans ((l.perm j).filter _)
  refine List.Perm.eq_of_pairwise ?_ (List.pairwise_mergeSort ?_ ?_ _) hsorted hperm
  · intro x y hx hy hle hge
    have hmem := (List.mem_filter.1 (hperm.mem_iff.1 hx)).1
    refine ((eq_or_lt_iff_isLE hmem (List.mem_filter.1 hy).1).2 hle).resolve_right fun hlt => ?_
    rw [Std.OrientedCmp.gt_of_lt hlt] at hge
    cases hge
  · exact fun x y z hxy hyz => Std.TransCmp.isLE_trans hxy hyz
  · intro x y
    have hswap : compare y.1 x.1 = (compare x.1 y.1).swap := Std.OrientedOrd.eq_swap
    rw [hswap]
    cases compare x.1 y.1 <;> rfl

theorem search?_eq (l : r.Listing) (script : Nat) (fits : String → Bool) :
    l.search? script fits = r.search? script fits := by
  simp only [search?, Resolver.search?, sorted_eq_filter, List.head?_filter]

theorem onlyOne?_some_iff {first f : FuncId} {rest : List FuncId} :
    onlyOne? (some first) rest = some f ↔ f = first ∧ ∀ g ∈ rest, g = f := by
  induction rest generalizing first with
  | nil => simp [onlyOne?, eq_comm]
  | cons g rest ih =>
    rw [onlyOne?, List.forall_mem_cons]
    by_cases hsame : first = g
    · rw [if_neg (by simpa using hsame), ih, ← hsame]
      constructor
      · rintro ⟨rfl, hrest⟩
        exact ⟨rfl, rfl, hrest⟩
      · rintro ⟨hfirst, -, hrest⟩
        exact ⟨hfirst, hrest⟩
    · rw [if_pos (by simpa using hsame)]
      constructor
      · intro h
        cases h
      · rintro ⟨rfl, hg, -⟩
        exact absurd hg.symm hsame

theorem onlyOne?_eq_some_iff {found : List FuncId} {f : FuncId} :
    onlyOne? none found = some f ↔ f ∈ found ∧ ∀ g ∈ found, g = f := by
  cases found with
  | nil => simp [onlyOne?]
  | cons first rest =>
    rw [onlyOne?, if_neg (by simp), onlyOne?_some_iff, List.forall_mem_cons]
    constructor
    · rintro ⟨rfl, hrest⟩
      exact ⟨List.mem_cons_self, rfl, hrest⟩
    · rintro ⟨-, hfirst, hrest⟩
      exact ⟨hfirst.symm, hrest⟩

theorem uniqueMethod?_eq (l : r.Listing) (script : Nat) (method : String) :
    l.uniqueMethod? script method = r.uniqueMethod? script method := by
  refine Option.ext fun f => ?_
  rw [uniqueMethod?, onlyOne?_eq_some_iff, uniqueMethod?_eq_some_iff, methods]
  have hperm := fun j => ((l.perm j).filter fun e => e.1.endsWith ("::" ++ method)).map (·.2)
  simp only [List.mem_flatMap, (hperm _).mem_iff]

end Listing

/-- Visible scripts come in the order of the rounds of a search, the script itself first and each
one once; they are those that inclusions lead to, and what is visible from them is visible. A call
by name is answered by the first stage that has an answer, and it does not matter in which order the
tables are read. -/
theorem resolves_in_visible_order (a : Arena) (scripts : List Script) {i : Nat}
    (hi : i < scripts.length) :
    let r := ofScripts a scripts
    (r.visibleOf i = (Search.after (includedScripts scripts) i scripts.length).met ∧
      (r.visibleOf i).head? = some i ∧ (r.visibleOf i).Nodup ∧
      (∀ j, j ∈ r.visibleOf i ↔ Relation.ReflTransGen (Includes scripts) i j) ∧
      ∀ j ∈ r.visibleOf i, ∀ k ∈ r.visibleOf j, k ∈ r.visibleOf i) ∧
    (∀ call called, a.Calls call called → ∀ caller overrides answer,
      r.resolve? i caller call overrides = answer ↔
        Answer (called.stages (visibleScripts scripts i)) answer) ∧
    ∀ l : r.Listing, (∀ fits, l.search? i fits = r.search? i fits) ∧
      ∀ method, l.uniqueMethod? i method = r.uniqueMethod? i method := by
  intro r
  have hvisible : r.visibleOf i = visibleFrom scripts i := visibleOf_ofScripts hi
  refine ⟨?_, ?_, ?_⟩
  · rw [hvisible]
    refine ⟨visibleFrom_eq_met hi (Nat.le_refl _), head?_visibleFrom hi, nodup_visibleFrom hi,
      fun j => mem_visibleFrom_iff_includes hi, fun j hj k hk => ?_⟩
    rw [visibleOf_ofScripts (lt_of_mem_visibleFrom hj)] at hk
    exact visibleFrom_trans hj hk
  · intro call called hcalls caller overrides answer
    exact (resolve?_answers hi hcalls caller overrides).iff answer
  · intro l
    exact ⟨l.search?_eq i, l.uniqueMethod?_eq i⟩

/-- Two pages that include each other: one calls a function of the other, and a method. -/
def twoPages : List Script := [
  { Script.ofMain "a.php" ⟨0⟩ with includes := ["b.php"] },
  { ((Script.ofMain "b.php" ⟨1⟩).addFunction "save" ⟨2⟩).addFunction "Page::find" ⟨3⟩ with
    includes := ["a.php"] }]

/-- The calls of the two pages. -/
def twoCalls : Arena where
  operands := #[⟨.string "Save", [], [], [], [], false⟩, ⟨.string "Page", [], [], [], [], false⟩,
    ⟨.string "find", [], [], [], [], false⟩, ⟨.temporary none, [], [], [], [], false⟩]
  ops := #[⟨.functionCall ⟨0⟩ [] ⟨3⟩, .none, none, none⟩,
    ⟨.staticCall ⟨1⟩ ⟨2⟩ [] ⟨3⟩, .none, none, none⟩]

theorem resolves_in_visible_order_twoPages :
    0 < twoPages.length ∧ twoCalls.Calls ⟨0⟩ (.function "Save") ∧
      twoCalls.Calls ⟨1⟩ (.method "Page" "find") ∧
      let r := ofScripts twoCalls twoPages
      r.visibleOf 0 = [0, 1] ∧
        (∀ caller overrides answer, r.resolve? 0 caller ⟨0⟩ overrides = answer ↔
          Answer ((Called.function "Save").stages (visibleScripts twoPages 0)) answer) ∧
        ∀ caller overrides answer, r.resolve? 0 caller ⟨1⟩ overrides = answer ↔
          Answer ((Called.method "Page" "find").stages (visibleScripts twoPages 0)) answer := by
  have hi : 0 < twoPages.length := by decide
  have hsave : twoCalls.Calls ⟨0⟩ (.function "Save") := ⟨⟨0⟩, [], ⟨3⟩, rfl, rfl⟩
  have hfind : twoCalls.Calls ⟨1⟩ (.method "Page" "find") :=
    ⟨⟨1⟩, ⟨2⟩, [], ⟨3⟩, rfl, rfl, by decide +kernel, rfl⟩
  obtain ⟨⟨hrounds, -⟩, hcalls, -⟩ := resolves_in_visible_order twoCalls twoPages hi
  have hmet : (Search.after (includedScripts twoPages) 0 twoPages.length).met = [0, 1] := by
    decide +kernel
  exact ⟨hi, hsave, hfind, hrounds.trans hmet, hcalls ⟨0⟩ _ hsave, hcalls ⟨1⟩ _ hfind⟩

end Resolver

end QueryTaint
