import Mathlib.Data.List.Induction
import QueryTaint.Proofs.Relabel.Moment
import QueryTaint.Proofs.Relabel.Step
import QueryTaint.Proofs.Walk.Confine
import QueryTaint.Proofs.Walk.Visible

/-!
# Calls among further scripts

A list of scripts stands among others if a longer list has its twins, in the same order, and the others
are not included by it and have other functions (`Script.Among`). A call then calls the twin of whom it
calls without the others (`Resolver.twin_ofScripts`, `Resolver.Twin.resolve?`): the scripts at paths,
those that are searched, the tables of names and the owners of functions are all the same up to numbers.
-/

namespace QueryTaint

/-! ## Related options -/

section Related

variable {α β : Type} {R : α → β → Prop}

theorem eq_none_of_rel {y : Option β} (h : Option.Rel R none y) : y = none := by
  cases h
  rfl

theorem exists_of_rel_some {x : α} {y : Option β} (h : Option.Rel R (some x) y) :
    ∃ b, y = some b ∧ R x b := by
  cases h with
  | some hx => exact ⟨_, rfl, hx⟩

theorem exists_of_rel_some_right {x : Option α} {y : β} (h : Option.Rel R x (some y)) :
    ∃ a, x = some a ∧ R a y := by
  cases h with
  | some hx => exact ⟨_, rfl, hx⟩

end Related

/-! ## The last of its kind -/

/-- Where the last element with a property is. -/
def lastWhere {α : Type} (p : α → Bool) (l : List α) : Option Nat :=
  ((l.zipIdx.filter fun (x, _) => p x).getLast?).map (·.2)

section LastWhere

variable {α : Type} {p : α → Bool} {l : List α}

theorem lastWhere_append (p : α → Bool) (l : List α) (x : α) :
    lastWhere p (l ++ [x]) = if p x then some l.length else lastWhere p l := by
  unfold lastWhere
  rw [List.zipIdx_append, List.filter_append]
  by_cases hx : p x = true
  · simp [hx]
  · simp [hx]

theorem lastWhere_eq_some_iff {i : Nat} : lastWhere p l = some i ↔
    (∃ x, l[i]? = some x ∧ p x = true) ∧ ∀ j, i < j → ∀ x, l[j]? = some x → p x = false := by
  induction l using List.reverseRecOn with
  | nil => simp [lastWhere]
  | append_singleton l x ih =>
    rw [lastWhere_append]
    by_cases hx : p x = true
    · rw [if_pos hx, Option.some.injEq]
      constructor
      · rintro rfl
        refine ⟨⟨x, List.getElem?_concat_length, hx⟩, fun j hj y hy => ?_⟩
        rw [List.getElem?_eq_none (by simp; omega)] at hy
        cases hy
      · rintro ⟨⟨y, hy, -⟩, hlater⟩
        have hi := (List.getElem?_eq_some_iff.1 hy).1
        rw [List.length_append, List.length_singleton] at hi
        by_contra hne
        have hfalse := hlater l.length (by omega) x List.getElem?_concat_length
        exact Bool.false_ne_true (hfalse.symm.trans hx)
    · rw [if_neg hx, ih]
      constructor
      · rintro ⟨⟨y, hy, hp⟩, hlater⟩
        have hi := (List.getElem?_eq_some_iff.1 hy).1
        refine ⟨⟨y, by rw [List.getElem?_append_left hi, hy], hp⟩, fun j hj z hz => ?_⟩
        rcases Nat.lt_trichotomy j l.length with hlt | rfl | hgt
        · rw [List.getElem?_append_left hlt] at hz
          exact hlater j hj z hz
        · rw [List.getElem?_concat_length] at hz
          cases hz
          exact Bool.eq_false_iff.2 hx
        · rw [List.getElem?_eq_none (by simp; omega)] at hz
          cases hz
      · rintro ⟨⟨y, hy, hp⟩, hlater⟩
        have hi : i < l.length := by
          have hi := (List.getElem?_eq_some_iff.1 hy).1
          rw [List.length_append, List.length_singleton] at hi
          by_contra hge
          obtain rfl : i = l.length := by omega
          rw [List.getElem?_concat_length] at hy
          cases hy
          exact hx hp
        rw [List.getElem?_append_left hi] at hy
        refine ⟨⟨y, hy, hp⟩, fun j hj z hz => hlater j hj z ?_⟩
        rw [List.getElem?_append_left (List.getElem?_eq_some_iff.1 hz).1, hz]

theorem lastWhere_eq_none_iff : lastWhere p l = none ↔ ∀ x ∈ l, p x = false := by
  unfold lastWhere
  rw [Option.map_eq_none_iff, List.getLast?_eq_none_iff, List.filter_eq_nil_iff]
  constructor
  · intro h x hx
    obtain ⟨i, hi, rfl⟩ := List.mem_iff_getElem.1 hx
    exact Bool.eq_false_iff.2 (h (l[i], i) (List.mem_zipIdx_iff_getElem?.2 (List.getElem?_eq_getElem hi)))
  · rintro h ⟨x, i⟩ hxi
    have hx := List.mem_of_getElem? (List.mem_zipIdx_iff_getElem?.1 hxi)
    simp [h x hx]

end LastWhere

theorem scriptAt?_eq (scripts : List Script) (path : String) :
    scriptAt? scripts path = lastWhere (·.path == path) scripts := rfl

/-! ## Scripts among others -/

/-- A list has the twins of another one's scripts in the same order. What it has besides is not
included by these and has other functions. -/
structure Script.Among (ρ : Relabel) (ι : Nat → Nat) (l l' : List Script) : Prop where
  mono : StrictMono ι
  inside (i : Nat) : Option.Rel (Script.Twin ρ) l[i]? l'[ι i]?
  foreign (j : Nat) (s' : Script) : l'[j]? = some s' → (∀ i, ι i ≠ j) →
    (∀ s ∈ l, s'.path ∉ s.includes) ∧
      ∀ name f', s'.functions.get? name = some f' → ∀ f, ρ.func f ≠ f'

/-- What is reached from given numbers is the same with new numbers. -/
theorem reach_map {ι : Nat → Nat} (hι : ι.Injective) {bound bound' : Nat}
    {next next' : Nat → List Nat} (hbound : ∀ i, ι i < bound' ↔ i < bound)
    (hnext : ∀ i, next' (ι i) = (next i).map ι) (listed queue : List Nat) :
    reach bound' next' (listed.map ι) (queue.map ι) = (reach bound next listed queue).map ι := by
  fun_induction reach bound next listed queue with
  | case1 listed => rw [List.map_nil, reach]
  | case2 listed i rest h ih =>
    have hnew : ι i < bound' ∧ ι i ∉ listed.map ι :=
      ⟨(hbound i).2 h.1, fun hmem => h.2 ((List.mem_map_of_injective hι).1 hmem)⟩
    rw [List.map_cons, reach, dif_pos hnew, hnext, ← ih, List.map_append, List.map_append,
      List.map_singleton]
  | case3 listed i rest h ih =>
    have hold : ¬(ι i < bound' ∧ ι i ∉ listed.map ι) := fun hnew =>
      h ⟨(hbound i).1 hnew.1, fun hmem => hnew.2 (List.mem_map_of_mem hmem)⟩
    rw [List.map_cons, reach, dif_neg hold, ih]

namespace Script.Among

variable {ρ : Relabel} {ι : Nat → Nat} {l l' : List Script}

theorem getElem?_eq_some (h : Among ρ ι l l') {i : Nat} {s : Script} (hs : l[i]? = some s) :
    ∃ s', l'[ι i]? = some s' ∧ s.Twin ρ s' :=
  exists_of_rel_some (hs ▸ h.inside i)

theorem getElem?_eq_none (h : Among ρ ι l l') {i : Nat} (hs : l[i]? = none) : l'[ι i]? = none :=
  eq_none_of_rel (hs ▸ h.inside i)

theorem exists_of_getElem? (h : Among ρ ι l l') {i : Nat} {s' : Script} (hs' : l'[ι i]? = some s') :
    ∃ s, l[i]? = some s ∧ s.Twin ρ s' :=
  exists_of_rel_some_right (hs' ▸ h.inside i)

theorem lt_iff (h : Among ρ ι l l') (i : Nat) : ι i < l'.length ↔ i < l.length := by
  have hnone : l'[ι i]? = none ↔ l[i]? = none := by
    refine ⟨fun hs' => ?_, h.getElem?_eq_none⟩
    exact Option.eq_none_iff_forall_ne_some.2 fun s hs => by
      obtain ⟨s', hs, -⟩ := h.getElem?_eq_some hs
      cases hs.symm.trans hs'
  rw [List.getElem?_eq_none_iff, List.getElem?_eq_none_iff] at hnone
  omega

/-- The last script of a kind, if scripts are of it as their twins are and no other script is. -/
theorem lastWhere (h : Among ρ ι l l') {p p' : Script → Bool}
    (htwin : ∀ s ∈ l, ∀ s', s.Twin ρ s' → p' s' = p s)
    (hforeign : ∀ j s', l'[j]? = some s' → (∀ i, ι i ≠ j) → p' s' = false) :
    lastWhere p' l' = (lastWhere p l).map ι := by
  -- a script of the kind is a twin
  have hown {j : Nat} {s' : Script} (hs' : l'[j]? = some s') (hp : p' s' = true) :
      ∃ i s, ι i = j ∧ l[i]? = some s ∧ p s = true := by
    by_cases hj : ∃ i, ι i = j
    · obtain ⟨i, rfl⟩ := hj
      obtain ⟨s, hs, ht⟩ := h.exists_of_getElem? hs'
      exact ⟨i, s, rfl, hs, (htwin s (List.mem_of_getElem? hs) s' ht).symm.trans hp⟩
    · have hfalse := hforeign j s' hs' fun i hi => hj ⟨i, hi⟩
      exact absurd (hfalse.symm.trans hp) Bool.false_ne_true
  cases hlast : QueryTaint.lastWhere p l with
  | none =>
    rw [Option.map_none, lastWhere_eq_none_iff]
    intro s' hs'
    obtain ⟨j, hj, rfl⟩ := List.mem_iff_getElem.1 hs'
    by_contra hne
    obtain ⟨i, s, -, hs, hp⟩ := hown (List.getElem?_eq_getElem hj) (Bool.eq_true_of_not_eq_false hne)
    have hfalse := lastWhere_eq_none_iff.1 hlast s (List.mem_of_getElem? hs)
    exact Bool.false_ne_true (hfalse.symm.trans hp)
  | some i =>
    obtain ⟨⟨s, hs, hp⟩, hlater⟩ := lastWhere_eq_some_iff.1 hlast
    obtain ⟨s', hs', ht⟩ := h.getElem?_eq_some hs
    rw [Option.map_some, lastWhere_eq_some_iff]
    refine ⟨⟨s', hs', (htwin s (List.mem_of_getElem? hs) s' ht).trans hp⟩, fun j hj u hu => ?_⟩
    by_contra hne
    obtain ⟨k, v, rfl, hv, hpv⟩ := hown hu (Bool.eq_true_of_not_eq_false hne)
    have hfalse := hlater k (h.mono.lt_iff_lt.1 hj) v hv
    exact Bool.false_ne_true (hfalse.symm.trans hpv)

theorem scriptAt? (h : Among ρ ι l l') {s : Script} (hs : s ∈ l) {path : String}
    (hpath : path ∈ s.includes) : scriptAt? l' path = (scriptAt? l path).map ι := by
  rw [scriptAt?_eq, scriptAt?_eq]
  apply h.lastWhere
  · intro s _ s' htwin
    rw [htwin.path]
  · intro j s' hs' hj
    rw [beq_eq_false_iff_ne]
    rintro rfl
    exact (h.foreign j s' hs' hj).1 s hs hpath

theorem includedScripts (h : Among ρ ι l l') (i : Nat) :
    includedScripts l' (ι i) = (includedScripts l i).map ι := by
  unfold QueryTaint.includedScripts
  cases hs : l[i]? with
  | none => rw [h.getElem?_eq_none hs, List.map_nil]
  | some s =>
    obtain ⟨s', hs', htwin⟩ := h.getElem?_eq_some hs
    rw [hs']
    dsimp only
    rw [htwin.includes, List.map_filterMap]
    exact List.filterMap_congr fun path hpath => h.scriptAt? (List.mem_of_getElem? hs) hpath

theorem visibleFrom (h : Among ρ ι l l') (i : Nat) :
    visibleFrom l' (ι i) = (visibleFrom l i).map ι :=
  reach_map h.mono.injective h.lt_iff h.includedScripts [] [i]

end Script.Among

/-! ## Names -/

/-- Maps that say the same under the same keys list the same. -/
theorem Carries.toList {α β γ : Type} [Ord α] [Std.TransOrd α] [Std.LawfulEqOrd α] {f : β → γ}
    {m : Std.TreeMap α β} {m' : Std.TreeMap α γ} (h : Carries id f m m') :
    m'.toList = m.toList.map fun e => (e.1, f e.2) := by
  have hnodup {δ : Type} (t : Std.TreeMap α δ) : t.toList.Nodup := by
    refine t.distinct_keys_toList.imp fun hne heq => ?_
    exact hne (heq ▸ Std.compare_self)
  have hperm : m'.toList.Perm (m.map fun _ => f).toList := by
    rw [List.perm_ext_iff_of_nodup (hnodup _) (hnodup _)]
    rintro ⟨k, v⟩
    rw [Std.TreeMap.mem_toList_iff_getElem?_eq_some, Std.TreeMap.mem_toList_iff_getElem?_eq_some,
      Std.TreeMap.getElem?_map]
    exact iff_of_eq (congrArg (· = some v) (h k))
  rw [(Std.TreeMap.Equiv.of_toList_perm hperm).toList_eq, Std.TreeMap.toList_map]

namespace Script.Twin

variable {ρ : Relabel} {s s' : Script}

theorem toList (h : s.Twin ρ s') :
    s'.functions.toList = s.functions.toList.map fun e => (e.1, ρ.func e.2) :=
  Carries.toList h.functions

theorem nameTable (h : s.Twin ρ s') : Carries id ρ.func (nameTable s) (nameTable s') := by
  have hfold (entries : List (String × FuncId)) {names names' : Std.TreeMap String FuncId}
      (hnames : Carries id ρ.func names names') :
      Carries id ρ.func
        (entries.foldl (fun names e => names.insert (lowerAscii (dropSeparators e.1)) e.2) names)
        (entries.foldl (fun names e => names.insert (lowerAscii (dropSeparators e.1)) (ρ.func e.2))
          names') := by
    induction entries generalizing names names' with
    | nil => exact hnames
    | cons e entries ih => exact ih (hnames.insert Function.injective_id _ e.2)
  unfold QueryTaint.nameTable
  rw [h.toList, List.foldl_map]
  exact hfold _ .empty

end Script.Twin

namespace Resolver

/-- The owner of a function after a script's functions got it as their owner. -/
theorem get?_insertOwners (entries : List (String × FuncId)) (owners : Std.TreeMap Nat Nat)
    (i x : Nat) :
    (entries.foldl (fun owners e => owners.insert e.2.index i) owners).get? x =
      if entries.any (·.2.index == x) then some i else owners.get? x := by
  induction entries generalizing owners with
  | nil => rfl
  | cons e entries ih =>
    rw [List.foldl_cons, ih, List.any_cons]
    by_cases hlater : entries.any (·.2.index == x) = true
    · rw [if_pos hlater, if_pos (by rw [hlater, Bool.or_true])]
    · rw [if_neg hlater, Std.TreeMap.get?_eq_getElem?, Std.TreeMap.getElem?_insert,
        Bool.eq_false_iff.2 hlater, Bool.or_false]
      simp only [Std.LawfulEqCmp.compare_eq_iff_eq, beq_iff_eq]
      rfl

theorem get?_ownerTable (scripts : List Script) (x : Nat) :
    (ownerTable scripts).get? x =
      lastWhere (fun s => s.functions.toList.any (·.2.index == x)) scripts := by
  induction scripts using List.reverseRecOn with
  | nil => exact get?_empty x
  | append_singleton scripts s ih =>
    rw [lastWhere_append, ← ih, ownerTable, List.zipIdx_append, List.foldl_append]
    exact (get?_insertOwners s.functions.toList _ _ x).trans (by rw [Nat.zero_add]; rfl)

/-- Two resolvers resolve in the same way, up to the numbers of entries and scripts. -/
structure Twin (g : Graft) (ι : Nat → Nat) (r r' : Resolver) : Prop where
  arena : r.arena.Embeds g r'.arena
  visible (i : Nat) : r'.visibleOf (ι i) = (r.visibleOf i).map ι
  names (i : Nat) : Carries id g.func (r.namesOf i) (r'.namesOf (ι i))
  owner (f : FuncId) : r'.scriptOf? (g.func f) = (r.scriptOf? f).map ι

section OfScripts

variable {g : Graft} {ι : Nat → Nat} {a a' : Arena} {l l' : List Script}

theorem visibleOf_ofScripts_of_le {i : Nat} (hi : l.length ≤ i) :
    (ofScripts a l).visibleOf i = [] := by
  simp [visibleOf, ofScripts, hi]

theorem twin_ofScripts (ha : a.Embeds g a') (h : Script.Among g.toRelabel ι l l') :
    Twin g ι (ofScripts a l) (ofScripts a' l') where
  arena := ha
  visible i := by
    rcases Nat.lt_or_ge i l.length with hi | hi
    · rw [visibleOf_ofScripts hi, visibleOf_ofScripts ((h.lt_iff i).2 hi), h.visibleFrom]
    · have hi' : l'.length ≤ ι i := Nat.le_of_not_lt fun hlt => by
        have hlt' := (h.lt_iff i).1 hlt
        omega
      rw [visibleOf_ofScripts_of_le hi, visibleOf_ofScripts_of_le hi', List.map_nil]
  names i := by
    rw [namesOf_ofScripts, namesOf_ofScripts]
    cases hs : l[i]? with
    | none =>
      rw [h.getElem?_eq_none hs]
      exact .empty
    | some s =>
      obtain ⟨s', hs', htwin⟩ := h.getElem?_eq_some hs
      rw [hs']
      exact htwin.nameTable
  owner f := by
    change (ownerTable l').get? (g.func f).index = ((ownerTable l).get? f.index).map ι
    rw [get?_ownerTable, get?_ownerTable]
    apply h.lastWhere
    · intro s _ s' htwin
      rw [htwin.toList, List.any_map]
      refine congrArg (List.any _) (funext fun e => ?_)
      simp [g.funcs_mono.injective.eq_iff]
    · intro j s' hs' hj
      rw [List.any_eq_false]
      rintro ⟨name, f'⟩ he heq
      refine (h.foreign j s' hs' hj).2 name f' ?_ f ?_
      · exact Std.TreeMap.mem_toList_iff_getElem?_eq_some.1 he
      · cases f'
        exact congrArg FuncId.mk (beq_iff_eq.1 heq).symm

end OfScripts

/-! ## Calls -/

namespace Twin

variable {g : Graft} {ι : Nat → Nat} {r r' : Resolver}

theorem lookup? (h : r.Twin g ι r') (script : Nat) (name : String) :
    r'.lookup? (ι script) name = (r.lookup? script name).map g.func := by
  rw [Resolver.lookup?, Resolver.lookup?, h.visible, List.findSome?_map, List.map_findSome?]
  exact congrArg (List.findSome? · _) (funext fun i => h.names i _)

theorem search? (h : r.Twin g ι r') (script : Nat) (fits : String → Bool) :
    r'.search? (ι script) fits = (r.search? script fits).map g.func := by
  rw [Resolver.search?, Resolver.search?, h.visible, List.findSome?_map, List.map_findSome?]
  refine congrArg (List.findSome? · _) (funext fun i => ?_)
  rw [Function.comp_apply, Function.comp_apply, (h.names i).toList, List.find?_map, Option.map_map,
    Option.map_map]
  rfl

theorem function? (h : r.Twin g ι r') (script : Nat) (name : String) :
    r'.function? (ι script) name = (r.function? script name).map g.func := by
  rw [Resolver.function?, Resolver.function?, h.lookup?, h.search?, Option.map_or]

theorem uniqueMethod? (h : r.Twin g ι r') (script : Nat) (method : String) :
    r'.uniqueMethod? (ι script) method = (r.uniqueMethod? script method).map g.func := by
  have hfound : ((r'.visibleOf (ι script)).flatMap fun i =>
      ((r'.namesOf i).toList.filter fun e => e.1.endsWith ("::" ++ method)).map (·.2)) =
        ((r.visibleOf script).flatMap fun i =>
          ((r.namesOf i).toList.filter fun e => e.1.endsWith ("::" ++ method)).map (·.2)).map
            g.func := by
    rw [h.visible, List.flatMap_map, List.map_flatMap]
    refine congrArg (List.flatMap · _) (funext fun i => ?_)
    rw [(h.names i).toList, List.filter_map, List.map_map, List.map_map]
    rfl
  unfold Resolver.uniqueMethod?
  rw [hfound]
  cases (r.visibleOf script).flatMap fun i =>
      ((r.namesOf i).toList.filter fun e => e.1.endsWith ("::" ++ method)).map (·.2) with
  | nil => rfl
  | cons func rest =>
    simp only [List.map_cons, List.all_map, Function.comp_def, g.func_inj]
    split <;> rfl

theorem method? (h : r.Twin g ι r') (script : Nat) (cls : Option String) (method : String) :
    r'.method? (ι script) cls method = (r.method? script cls method).map g.func := by
  unfold Resolver.method?
  dsimp only
  rw [h.uniqueMethod?, Option.map_or]
  cases cls with
  | none => rfl
  | some cls => simp only [Option.bind_some, h.lookup?, h.search?, Option.map_or]

variable {o o' : Overrides}

theorem receiverClass? (h : r.Twin g ι r') (ho : o.Twin g.toRelabel o') (x : OperandId)
    (caller : FuncId) :
    r'.receiverClass? (g.operand x) (g.func caller) o' = r.receiverClass? x caller o := by
  unfold Resolver.receiverClass?
  rw [ho.follow, h.arena.valueOf, h.arena.operand, Operand.relabel, h.arena.nameOf?,
    h.arena.cls_func]
  cases (r.arena.operand (r.arena.valueOf (o.follow maxChain x))).kind <;> rfl

theorem namedClass? (h : r.Twin g ι r') (cls : OperandId) (caller : FuncId) :
    r'.namedClass? (g.operand cls) (g.func caller) = r.namedClass? cls caller := by
  unfold Resolver.namedClass?
  rw [h.arena.stringOf?, h.arena.cls_func]

theorem closureWithin? (h : r.Twin g ι r') (ho : o.Twin g.toRelabel o') (steps : Nat)
    (x : OperandId) :
    r'.closureWithin? o' steps (g.operand x) = (r.closureWithin? o steps x).map g.func := by
  induction steps generalizing x with
  | zero => rfl
  | succ steps ih =>
    unfold Resolver.closureWithin?
    dsimp only
    rw [ho.follow, h.arena.valueOf, h.arena.operand, h.arena.operand, Operand.relabel, Operand.relabel,
      ← List.map_append, List.head?_map]
    cases ((r.arena.operand (o.follow maxChain x)).defs ++
        (r.arena.operand (r.arena.valueOf (o.follow maxChain x))).defs).head? with
    | none => rfl
    | some op =>
      simp only [Option.map_some, Option.bind_eq_bind, Option.bind_some, h.arena.op, Op.relabel]
      cases (r.arena.op op).kind with
      | assign | assignRef => exact ih _
      | _ => rfl

/-- A call calls the same function up to numbers. -/
theorem resolve? (h : r.Twin g ι r') (ho : o.Twin g.toRelabel o') (script : Nat) (caller : FuncId)
    (call : OpId) :
    r'.resolve? (ι script) (g.func caller) (g.op call) o' =
      (r.resolve? script caller call o).map g.func := by
  unfold Resolver.resolve?
  rw [h.arena.op, Op.relabel]
  cases (r.arena.op call).kind with
  | functionCall name args result =>
    simp only [OpKind.relabel, h.arena.stringOf?]
    cases r.arena.stringOf? name with
    | none => exact h.closureWithin? ho maxChain name
    | some name => exact h.function? script name
  | methodCall x name args nullsafe result =>
    simp only [OpKind.relabel, h.arena.stringOf?, h.receiverClass? ho]
    cases r.arena.stringOf? name with
    | none => rfl
    | some name => exact h.method? script _ name
  | staticCall cls name args result =>
    simp only [OpKind.relabel, h.arena.stringOf?, h.namedClass?]
    cases r.arena.stringOf? name with
    | none => rfl
    | some name =>
      cases r.namedClass? cls caller with
      | none => rfl
      | some cls => exact h.method? script (some cls) name
  | new cls args result =>
    simp only [OpKind.relabel, h.namedClass?]
    cases r.namedClass? cls caller with
    | none => rfl
    | some cls => exact h.lookup? script _
  | _ => rfl

end Twin

/-! ## Functions that exist -/

/-- The functions that names stand for and those of closures exist. -/
structure Grounded (r : Resolver) : Prop where
  named (i : Nat) (name : String) (f : FuncId) : (r.namesOf i).get? name = some f →
    .func f ∈ r.arena.entries
  closures (op : OpId) (f : FuncId) : (r.arena.op op).kind.func? = some f →
    .func f ∈ r.arena.entries

namespace Grounded

variable {r : Resolver}

theorem closureWithin? (h : r.Grounded) {o : Overrides} {steps : Nat} {x : OperandId} {f : FuncId}
    (hf : r.closureWithin? o steps x = some f) : .func f ∈ r.arena.entries := by
  induction steps generalizing x with
  | zero => cases hf
  | succ steps ih =>
    obtain ⟨op, -, hf⟩ := Option.bind_eq_some_iff.1 hf
    cases hkind : (r.arena.op op).kind <;> rw [hkind] at hf
    case closure func uses result =>
      cases hf
      exact h.closures op f (by rw [hkind]; rfl)
    case assign | assignRef => exact ih hf
    all_goals cases hf

theorem resolve? (h : r.Grounded) {o : Overrides} {script : Nat} {caller : FuncId} {call : OpId}
    {f : FuncId} (hf : r.resolve? script caller call o = some f) : .func f ∈ r.arena.entries := by
  have hnamed : ∀ k ∈ r.visibleOf script, ∀ name g, (r.namesOf k).get? name = some g →
      .func g ∈ r.arena.entries := fun k _ => h.named k
  unfold Resolver.resolve? at hf
  cases hkind : (r.arena.op call).kind <;> rw [hkind] at hf
  case functionCall name args result =>
    cases hname : r.arena.stringOf? name with
    | none =>
      simp only [hname] at hf
      exact h.closureWithin? hf
    | some text =>
      simp only [hname] at hf
      exact function?_mem hnamed hf
  case methodCall =>
    obtain ⟨_, -, hf⟩ := Option.bind_eq_some_iff.1 hf
    exact method?_mem hnamed hf
  case staticCall =>
    obtain ⟨_, -, hf⟩ := Option.bind_eq_some_iff.1 hf
    obtain ⟨_, -, hf⟩ := Option.bind_eq_some_iff.1 hf
    exact method?_mem hnamed hf
  case new =>
    obtain ⟨_, -, hf⟩ := Option.bind_eq_some_iff.1 hf
    exact lookup?_mem hnamed hf
  all_goals cases hf

end Grounded

end Resolver

end QueryTaint
