import Mathlib.Algebra.Order.Field.Rat
import QueryTaint.Proofs.Term.Range
import QueryTaint.Term.Solver

/-!
# What the solver decides

The facts learned from atoms allow some valuations (`Facts.Allows`): those under which the atoms
hold. An atom is learned as what it says, or contradicts the facts (`Facts.tells_add`); other terms
are passed over. So terms that are refuted hold together under no valuation, and if all conjuncts are
atoms, terms that are not refuted hold under one (`Solver.check_eq_unsat`). A model of the solver
makes every asserted term true, whatever the variables that it leaves out are
(`Solver.holds_of_check_eq_sat`).
-/

namespace QueryTaint

namespace Term

/-- What facts are learned from: literals, variables and their negations, and comparisons of a
variable with a number. -/
inductive IsAtom {ν : Type} : Term ν → Prop
  | bool (b : Bool) : IsAtom (bool b)
  | boolVar (name : String) : IsAtom (boolVar name)
  | notBoolVar (name : String) : IsAtom (notTerm (boolVar name))
  | compareVar (op : CompareOp) (name : String) (c : ν) :
    IsAtom (compareTerm op (numVar name) (number c))
  | compareNumber (op : CompareOp) (c : ν) (name : String) :
    IsAtom (compareTerm op (number c) (numVar name))

section Variables

variable {ν : Type}

mutual

/-- The names of the variables of a kind in a term. -/
def vars (s : TermSort) : Term ν → List String
  | boolVar name => if s = .bool then [name] else []
  | numVar name => if s = .number then [name] else []
  | notTerm arg | negTerm arg => vars s arg
  | andTerm args | orTerm args => varsAll s args
  | xorTerm a b | iffTerm a b | arithTerm _ a b | compareTerm _ a b => vars s a ++ vars s b
  | bool _ | number _ => []

/-- The names of the variables of a kind in terms. -/
def varsAll (s : TermSort) : List (Term ν) → List String
  | [] => []
  | arg :: rest => vars s arg ++ varsAll s rest

end

variable (s : TermSort)

theorem vars_subset_varsAll {t : Term ν} {l : List (Term ν)} (h : t ∈ l) : t.vars s ⊆ varsAll s l := by
  induction l with
  | nil => cases h
  | cons u l ih =>
    rw [varsAll]
    rcases List.mem_cons.1 h with rfl | h
    · exact List.subset_append_left _ _
    · exact List.subset_append_of_subset_right _ (ih h)

theorem varsAll_append (l l' : List (Term ν)) : varsAll s (l ++ l') = varsAll s l ++ varsAll s l' := by
  induction l with
  | nil => rfl
  | cons t l ih => rw [List.cons_append, varsAll, ih, varsAll, List.append_assoc]

mutual

theorem varsAll_conjuncts : ∀ t : Term ν, varsAll s (conjuncts t) = t.vars s
  | andTerm l => by rw [conjuncts, varsAll_conjunctsAll l, vars]
  | bool _ | number _ | boolVar _ | numVar _ | notTerm _ | orTerm _ | xorTerm .. | iffTerm ..
  | negTerm _ | arithTerm .. | compareTerm .. => by simp only [conjuncts, varsAll, List.append_nil]

theorem varsAll_conjunctsAll : ∀ l : List (Term ν), varsAll s (conjunctsAll l) = varsAll s l
  | [] => rfl
  | t :: l => by
    rw [conjunctsAll, varsAll_append, varsAll_conjuncts t, varsAll_conjunctsAll l, varsAll]

end

end Variables

section Conjuncts

variable {K : Type} [Field K] [LinearOrder K] (v : Valuation K)

mutual

theorem forall_holds_conjuncts : ∀ t : Term K, (∀ c ∈ conjuncts t, c.Holds v) ↔ t.Holds v
  | andTerm l => by rw [conjuncts, forall_holds_conjunctsAll l, holds_andTerm]
  | bool _ | number _ | boolVar _ | numVar _ | notTerm _ | orTerm _ | xorTerm .. | iffTerm ..
  | negTerm _ | arithTerm .. | compareTerm .. => by simp only [conjuncts, List.forall_mem_singleton]

/-- Terms hold together exactly if all their conjuncts do. -/
theorem forall_holds_conjunctsAll :
    ∀ l : List (Term K), (∀ c ∈ conjunctsAll l, c.Holds v) ↔ ∀ t ∈ l, t.Holds v
  | [] => Iff.rfl
  | t :: l => by
    rw [conjunctsAll, List.forall_mem_append, List.forall_mem_cons, forall_holds_conjuncts t,
      forall_holds_conjunctsAll l]

end

end Conjuncts

end Term

/-! ## Facts -/

variable {K : Type} [Field K] [LinearOrder K]

/-- Whether a valuation agrees with facts. -/
structure Facts.Allows (f : Facts K) (v : Valuation K) : Prop where
  truth : ∀ (name : String) (b : Bool), f.bools[name]? = some b → v.truth name = b
  number : ∀ (name : String) (r : Range K), f.numbers[name]? = some r → r.Has (v.number name)

/-- What an answer says of the term that was to be taken up: it is an atom, and the facts allow what
they did before and the term holds under, or none of it; or the term is no atom. -/
def Learned.Tells (f : Facts K) (t : Term K) : Learned K → Prop
  | .recorded g => t.IsAtom ∧ ∀ v, g.Allows v ↔ f.Allows v ∧ t.Holds v
  | .contradiction => t.IsAtom ∧ ∀ v, f.Allows v → ¬ t.Holds v
  | .opaqueTerm => ¬ t.IsAtom

/-- What holds of the entries of a map with a new entry. -/
theorem forall_getElem?_insert {α : Type} {m : Std.TreeMap String α} {key : String} {x : α}
    {P : String → α → Prop} :
    (∀ k a, (m.insert key x)[k]? = some a → P k a) ↔
      P key x ∧ ∀ k a, key ≠ k → m[k]? = some a → P k a := by
  simp only [Std.TreeMap.getElem?_insert, Std.LawfulEqCmp.compare_eq_iff_eq]
  refine ⟨fun h => ⟨h key x (if_pos rfl), fun k a hk ha => h k a (by rwa [if_neg hk])⟩, ?_⟩
  rintro ⟨hnew, hold⟩ k a ha
  split at ha
  case isTrue heq => exact heq ▸ Option.some.inj ha ▸ hnew
  case isFalse hne => exact hold k a hne ha

namespace Facts

variable {f : Facts K} {v : Valuation K} {t : Term K} {name : String}

omit [Field K] in
theorem allows_empty (v : Valuation K) : ({} : Facts K).Allows v :=
  ⟨by simp, by simp⟩

theorem tells_assign {value : Bool} (hatom : t.IsAtom)
    (hholds : ∀ v, t.Holds v ↔ v.truth name = value) : (f.assign name value).Tells f t := by
  unfold assign
  split
  case isTrue hknown =>
    refine ⟨hatom, fun v hv ht => Bool.not_ne_self value ?_⟩
    exact (hv.truth name _ hknown).symm.trans ((hholds v).1 ht)
  case isFalse hknown =>
    refine ⟨hatom, fun v => ?_⟩
    rw [hholds]
    constructor
    · intro hv
      obtain ⟨hvalue, hothers⟩ := forall_getElem?_insert.1 hv.truth
      refine ⟨⟨fun other b hb => ?_, hv.number⟩, hvalue⟩
      rcases eq_or_ne name other with rfl | hne
      · have hsame : b = value := by
          by_contra hne
          exact hknown (hb.trans (congrArg some (Bool.eq_not.2 hne)))
        exact hvalue.trans hsame.symm
      · exact hothers other b hne hb
    · rintro ⟨hv, hvalue⟩
      exact ⟨forall_getElem?_insert.2 ⟨hvalue, fun other b _ => hv.truth other b⟩, hv.number⟩

omit [Field K] in
/-- The values that facts leave to a variable. -/
theorem Allows.has_getD (h : f.Allows v) (name : String) :
    (f.numbers[name]?.getD .full).Has (v.number name) := by
  cases hr : f.numbers[name]? with
  | none => exact Range.has_full _
  | some r => exact h.number name r hr

theorem tells_bound {op : CompareOp} {c : K} (hatom : t.IsAtom)
    (hholds : ∀ v, t.Holds v ↔ op.Relates (v.number name) c) : (f.bound name op c).Tells f t := by
  unfold bound
  dsimp only
  split
  case isTrue hempty =>
    refine ⟨hatom, fun v hv ht => Range.not_has_of_isEmpty (x := v.number name) hempty ?_⟩
    exact (Range.has_restrict op c).2 ⟨hv.has_getD name, (hholds v).1 ht⟩
  case isFalse =>
    refine ⟨hatom, fun v => ?_⟩
    rw [hholds]
    constructor
    · intro hv
      obtain ⟨hnew, hothers⟩ := forall_getElem?_insert.1 hv.number
      rw [Range.has_restrict] at hnew
      refine ⟨⟨hv.truth, fun other r hr => ?_⟩, hnew.2⟩
      rcases eq_or_ne name other with rfl | hne
      · rw [hr] at hnew
        exact hnew.1
      · exact hothers other r hne hr
    · rintro ⟨hv, hrelates⟩
      refine ⟨hv.truth, forall_getElem?_insert.2 ⟨?_, fun other r _ => hv.number other r⟩⟩
      exact (Range.has_restrict op c).2 ⟨hv.has_getD name, hrelates⟩

/-- An atom is learned as what it says. -/
theorem tells_add (f : Facts K) (t : Term K) : (f.add t).Tells f t := by
  unfold add
  split
  case h_1 => exact ⟨.bool true, fun v => by simp⟩
  case h_2 => exact ⟨.bool false, fun v _ => by simp⟩
  case h_3 name => exact tells_assign (.boolVar name) fun v => by rw [Term.Holds]
  case h_4 name =>
    exact tells_assign (.notBoolVar name) fun v => by
      rw [Term.holds_notTerm, Term.Holds, Bool.not_eq_true]
  case h_5 op x c =>
    exact tells_bound (.compareVar op x c) fun v => by rw [Term.Holds, Term.value, Term.value]
  case h_6 op c x =>
    exact tells_bound (.compareNumber op c x) fun v => by
      rw [Term.Holds, Term.value, Term.value, CompareOp.relates_flip]
  case h_7 htrue hfalse hvar hnot hvar' hnumber =>
    intro hatom
    cases hatom with
    | bool b => cases b with
      | true => exact htrue rfl
      | false => exact hfalse rfl
    | boolVar name => exact hvar name rfl
    | notBoolVar name => exact hnot name rfl
    | compareVar op name c => exact hvar' op name c rfl
    | compareNumber op c name => exact hnumber op c name rfl

/-- What taking up a term can do to facts: nothing, or it sets an entry for a variable of the term, and
no range that is taken for empty. -/
theorem cases_of_add {ν : Type} [Numeral ν] {f g : Facts ν} {t : Term ν}
    (h : f.add t = .recorded g) :
    g = f ∨
      (∃ name b, name ∈ t.vars .bool ∧ g = { f with bools := f.bools.insert name b }) ∨
      ∃ name r, name ∈ t.vars .number ∧ r.isEmpty = false ∧
        g = { f with numbers := f.numbers.insert name r } := by
  have hassign {name b} (hname : name ∈ t.vars .bool) (h : f.assign name b = .recorded g) :
      ∃ name b, name ∈ t.vars .bool ∧ g = { f with bools := f.bools.insert name b } := by
    unfold assign at h
    split at h
    · cases h
    · exact ⟨name, b, hname, (Learned.recorded.inj h).symm⟩
  have hbound {name op c} (hname : name ∈ t.vars .number) (h : f.bound name op c = .recorded g) :
      ∃ name r, name ∈ t.vars .number ∧ r.isEmpty = false ∧
        g = { f with numbers := f.numbers.insert name r } := by
    unfold bound at h
    dsimp only at h
    split at h
    case isTrue => cases h
    case isFalse hempty =>
      exact ⟨name, _, hname, Bool.eq_false_iff.2 hempty, (Learned.recorded.inj h).symm⟩
  unfold add at h
  split at h
  case h_1 => exact .inl (Learned.recorded.inj h).symm
  case h_2 | h_7 => cases h
  case h_3 | h_4 => exact .inr (.inl (hassign (by simp [Term.vars]) h))
  case h_5 | h_6 => exact .inr (.inr (hbound (by simp [Term.vars]) h))

end Facts

/-! ## Runs over conjuncts -/

section Runs

variable {ν : Type} [Numeral ν] {f g : Facts ν} {decided all : Bool} {l : List (Term ν)}

/-- What taking up a term keeps, a run over terms keeps. -/
theorem learnAll_keeps {P : Facts ν → Prop}
    (hstep : ∀ f g t, t ∈ l → f.add t = .recorded g → P f → P g)
    (h : learnAll f decided l = some (g, all)) (hf : P f) : P g := by
  induction l generalizing f decided with
  | nil =>
    cases h
    exact hf
  | cons t l ih =>
    have hrest : ∀ f g t, t ∈ l → f.add t = .recorded g → P f → P g :=
      fun f g t ht => hstep f g t (List.mem_cons_of_mem _ ht)
    unfold learnAll at h
    split at h
    case h_1 f' hadd => exact ih hrest h (hstep f f' t List.mem_cons_self hadd hf)
    case h_2 => cases h
    case h_3 => exact ih hrest h hf

theorem decideAll_eq_unsat {terms : List (Term ν)} :
    decideAll terms = .unsat ↔ learnAll {} true (Term.conjunctsAll terms) = none := by
  unfold decideAll
  split
  case h_1 hnone => simp [hnone]
  case h_2 hsome => simp [hsome]
  case h_3 facts hsome =>
    rw [hsome]
    cases facts.model? <;> simp

theorem exists_facts_of_decideAll {terms : List (Term ν)} {m : Model ν}
    (h : decideAll terms = .sat m) :
    ∃ f, learnAll {} true (Term.conjunctsAll terms) = some (f, true) ∧ f.model? = some m := by
  unfold decideAll at h
  split at h
  case h_1 => cases h
  case h_2 => cases h
  case h_3 facts hsome =>
    refine ⟨facts, hsome, ?_⟩
    split at h
    case h_1 model hmodel => rw [hmodel, Verdict.sat.inj h]
    case h_2 => cases h

end Runs

variable {f g : Facts K} {v : Valuation K} {decided all : Bool} {l : List (Term K)}

/-- The facts of a run allow what the facts before it did and all atoms of the run hold under. -/
theorem allows_of_learnAll (h : learnAll f decided l = some (g, all)) :
    g.Allows v ↔ f.Allows v ∧ ∀ t ∈ l, t.IsAtom → t.Holds v := by
  induction l generalizing f decided with
  | nil =>
    cases h
    simp
  | cons t l ih =>
    have htells := f.tells_add t
    unfold learnAll at h
    rw [List.forall_mem_cons]
    split at h
    case h_1 f' hadd =>
      rw [hadd] at htells
      rw [ih h, htells.2 v, forall_prop_of_true htells.1, and_assoc]
    case h_2 => cases h
    case h_3 hadd =>
      rw [hadd] at htells
      rw [ih h, forall_prop_of_false htells, true_and]

/-- A run tells whether it met atoms only. -/
theorem decided_of_learnAll (h : learnAll f decided l = some (g, all)) :
    all = true ↔ decided = true ∧ ∀ t ∈ l, t.IsAtom := by
  induction l generalizing f decided with
  | nil =>
    cases h
    simp
  | cons t l ih =>
    have htells := f.tells_add t
    unfold learnAll at h
    rw [List.forall_mem_cons]
    split at h
    case h_1 f' hadd =>
      rw [hadd] at htells
      rw [ih h, and_iff_right htells.1]
    case h_2 => cases h
    case h_3 hadd =>
      rw [hadd] at htells
      rw [ih h]
      exact ⟨fun hfalse => absurd hfalse.1 Bool.false_ne_true, fun hall => absurd hall.2.1 htells⟩

/-- After a contradiction there is no valuation that agrees with the facts and all terms hold
under. -/
theorem not_forall_holds_of_learnAll (h : learnAll f decided l = none) (hv : f.Allows v) :
    ¬ ∀ t ∈ l, t.Holds v := by
  induction l generalizing f decided with
  | nil => cases h
  | cons t l ih =>
    have htells := f.tells_add t
    unfold learnAll at h
    rw [List.forall_mem_cons]
    rintro ⟨ht, hall⟩
    split at h
    case h_1 f' hadd =>
      rw [hadd] at htells
      exact ih h ((htells.2 v).2 ⟨hv, ht⟩) hall
    case h_2 hadd =>
      rw [hadd] at htells
      exact htells.2 v hv ht
    case h_3 => exact ih h hv hall

/-! ## Refutations -/

/-- No range is taken for empty. -/
def Facts.Open (f : Facts K) : Prop :=
  ∀ (name : String) (r : Range K), f.numbers[name]? = some r → r.isEmpty = false

theorem Facts.Open.add (hf : f.Open) {t : Term K} (h : f.add t = .recorded g) : g.Open := by
  rcases Facts.cases_of_add h with rfl | ⟨name, b, -, rfl⟩ | ⟨name, r, -, hr, rfl⟩
  · exact hf
  · exact hf
  · exact forall_getElem?_insert.2 ⟨hr, fun other r _ => hf other r⟩

/-- Facts without an empty range allow a valuation. -/
theorem Facts.Open.exists_allows [IsStrictOrderedRing K] (hf : f.Open) : ∃ v, f.Allows v := by
  have hmember (name : String) : ∃ x, ∀ r, f.numbers[name]? = some r → r.Has x := by
    cases hr : f.numbers[name]? with
    | none => exact ⟨0, fun _ h => nomatch h⟩
    | some r =>
      obtain ⟨x, hx⟩ := Range.exists_has_of_not_isEmpty (hf name r hr)
      exact ⟨x, fun _ h => Option.some.inj h ▸ hx⟩
  choose number hnumber using hmember
  refine ⟨⟨fun name => f.bools[name]?.getD false, number, id⟩, fun name b hb => ?_, hnumber⟩
  exact congrArg (·.getD false) hb

/-- Terms are refuted only if they hold together under no valuation, and exactly then if all their
conjuncts are atoms. -/
theorem Solver.check_eq_unsat [IsStrictOrderedRing K] (s : Solver K) :
    (s.check = .unsat → ¬ ∃ v : Valuation K, ∀ t ∈ s.assertions, t.Holds v) ∧
    ((∀ c ∈ Term.conjunctsAll s.assertions.toList, c.IsAtom) →
      (s.check = .unsat ↔ ¬ ∃ v : Valuation K, ∀ t ∈ s.assertions, t.Holds v)) := by
  have hconjuncts (v : Valuation K) : (∀ t ∈ s.assertions, t.Holds v) ↔
      ∀ c ∈ Term.conjunctsAll s.assertions.toList, c.Holds v := by
    simp only [Term.forall_holds_conjunctsAll, Array.mem_toList_iff]
  have hsound : s.check = .unsat → ¬ ∃ v : Valuation K, ∀ t ∈ s.assertions, t.Holds v := by
    rintro hunsat ⟨v, hv⟩
    exact not_forall_holds_of_learnAll (decideAll_eq_unsat.1 hunsat) (Facts.allows_empty v)
      ((hconjuncts v).1 hv)
  refine ⟨hsound, fun hatoms => ⟨hsound, fun hnone => ?_⟩⟩
  rw [Solver.check, decideAll_eq_unsat]
  cases hlearned : learnAll {} true (Term.conjunctsAll s.assertions.toList) with
  | none => rfl
  | some known =>
    obtain ⟨g, all⟩ := known
    have hopen : g.Open :=
      learnAll_keeps (fun f g t _ hadd (hf : f.Open) => hf.add hadd) hlearned (by simp [Facts.Open])
    obtain ⟨v, hv⟩ := hopen.exists_allows
    have hall := ((allows_of_learnAll hlearned).1 hv).2
    exact absurd ⟨v, (hconjuncts v).2 fun c hc => hall c hc (hatoms c hc)⟩ hnone

/-- A number above one and at most two, but not two: there are such numbers, and none of them
is two. -/
theorem Solver.check_eq_unsat_openEnds :
    let s : Solver ℚ := { assertions := #[
      .andTerm [.boolVar "p", .compareTerm .gt (.numVar "x") (.number 1)],
      .compareTerm .ge (.number 2) (.numVar "x"),
      .compareTerm .ne (.numVar "x") (.number 2)] }
    (∃ v : Valuation ℚ, ∀ t ∈ s.assertions, t.Holds v) ∧
      ¬ ∃ v : Valuation ℚ,
        ∀ t ∈ (s.push.assert (.compareTerm .eq (.numVar "x") (.number 2))).assertions, t.Holds v := by
  intro s
  have hatoms : ∀ c ∈ Term.conjunctsAll s.assertions.toList, c.IsAtom := by
    simp only [s, Term.conjunctsAll, Term.conjuncts, List.append_nil, List.cons_append,
      List.nil_append, List.forall_mem_cons]
    exact ⟨.boolVar _, .compareVar .., .compareNumber .., .compareVar .., List.forall_mem_nil _⟩
  have hfeasible : s.check ≠ .unsat := by
    intro h
    have hanswer := congrArg Verdict.isFeasible h
    exact absurd hanswer (by decide +kernel)
  exact ⟨not_not.1 (mt ((Solver.check_eq_unsat s).2 hatoms).2 hfeasible),
    (Solver.check_eq_unsat _).1 rfl⟩

/-! ## Models -/

/-- What facts are about is among given names. -/
structure Facts.Among {ν : Type} (f : Facts ν) (truths numbers : List String) : Prop where
  bools : ∀ (name : String) (b : Bool), f.bools[name]? = some b → name ∈ truths
  numbers : ∀ (name : String) (r : Range ν), f.numbers[name]? = some r → name ∈ numbers

theorem Facts.Among.add {ν : Type} [Numeral ν] {f g : Facts ν} {truths numbers : List String}
    {t : Term ν} (hf : f.Among truths numbers) (htruths : t.vars .bool ⊆ truths)
    (hnumbers : t.vars .number ⊆ numbers) (h : f.add t = .recorded g) : g.Among truths numbers := by
  rcases Facts.cases_of_add h with rfl | ⟨name, b, hname, rfl⟩ | ⟨name, r, hname, -, rfl⟩
  · exact hf
  · exact ⟨forall_getElem?_insert.2 ⟨htruths hname, fun other b _ => hf.bools other b⟩, hf.numbers⟩
  · exact ⟨hf.bools, forall_getElem?_insert.2 ⟨hnumbers hname, fun other r _ => hf.numbers other r⟩⟩

/-- Entries of distinct names that are put into a model one after the other are in it, and it is as
before elsewhere. -/
theorem getElem?_foldlM_insert {ν α : Type} (value? : α → Option (ModelValue ν))
    {l : List (String × α)} {start m : Model ν} (hl : l.Pairwise fun a b => a.1 ≠ b.1)
    (h : l.foldlM (fun model entry => (value? entry.2).map (model.insert entry.1 ·)) start = some m) :
    (∀ name a, (name, a) ∈ l → ∃ x, value? a = some x ∧ m[name]? = some x) ∧
      ∀ name, (∀ a, (name, a) ∉ l) → m[name]? = start[name]? := by
  induction l generalizing start with
  | nil =>
    cases h
    simp
  | cons entry l ih =>
    obtain ⟨key, a⟩ := entry
    obtain ⟨hkey, hl⟩ := List.pairwise_cons.1 hl
    rw [List.foldlM_cons] at h
    obtain ⟨_, hfirst, hrest⟩ := Option.bind_eq_some_iff.1 h
    obtain ⟨x, hx, rfl⟩ := Option.map_eq_some_iff.1 hfirst
    obtain ⟨hmem, hother⟩ := ih hl hrest
    refine ⟨fun name b hb => ?_, fun name hname => ?_⟩
    · rcases List.mem_cons.1 hb with heq | hb
      · cases heq
        refine ⟨x, hx, ?_⟩
        rw [hother key fun b hb => hkey _ hb rfl, Std.TreeMap.getElem?_insert_self]
      · exact hmem name b hb
    · have hne : key ≠ name := fun heq => hname a (heq ▸ List.mem_cons_self)
      rw [hother name fun b hb => hname b (List.mem_cons_of_mem _ hb), Std.TreeMap.getElem?_insert,
        if_neg (mt Std.LawfulEqCmp.compare_eq_iff_eq.1 hne)]

theorem pairwise_toList {α : Type} (m : Std.TreeMap String α) :
    m.toList.Pairwise fun a b => a.1 ≠ b.1 :=
  m.distinct_keys_toList.imp fun hne heq => hne (Std.LawfulEqCmp.compare_eq_iff_eq.2 heq)

/-- The model of facts gives every variable that they are about a value that they leave to it, if no
name is that of a truth value and of a number. -/
theorem Facts.getElem?_model? {f : Facts K} {m : Model K} {truths numbers : List String}
    (hf : f.Among truths numbers) (hdisjoint : truths.Disjoint numbers) (h : f.model? = some m) :
    (∀ (name : String) (b : Bool), f.bools[name]? = some b → m[name]? = some (.bool b)) ∧
      ∀ (name : String) (r : Range K), f.numbers[name]? = some r →
        ∃ x, r.Has x ∧ m[name]? = some (.number x) := by
  obtain ⟨start, hstart, hrest⟩ : ∃ start, f.bools.toList.foldlM
      (fun (model : Model K) entry => (some (ModelValue.bool entry.2)).map (model.insert entry.1 ·))
        {} = some start ∧
      f.numbers.toList.foldlM (fun (model : Model K) entry =>
        (entry.2.witness?.map ModelValue.number).map (model.insert entry.1 ·)) start = some m := by
    refine ⟨_, List.foldlM_pure .., ?_⟩
    simp only [Option.map_map]
    exact h
  have hbools := getElem?_foldlM_insert (fun b => some (.bool b)) (pairwise_toList f.bools) hstart
  have hnumbers := getElem?_foldlM_insert (fun r : Range K => r.witness?.map .number)
    (pairwise_toList f.numbers) hrest
  refine ⟨fun name b hb => ?_, fun name r hr => ?_⟩
  · have hnone : ∀ r, (name, r) ∉ f.numbers.toList := fun r hr =>
      hdisjoint (hf.bools name b hb)
        (hf.numbers name r (Std.TreeMap.mem_toList_iff_getElem?_eq_some.1 hr))
    obtain ⟨_, hvalue, hget⟩ := hbools.1 name b (Std.TreeMap.mem_toList_iff_getElem?_eq_some.2 hb)
    rw [hnumbers.2 name hnone, hget, ← hvalue]
  · obtain ⟨_, hvalue, hget⟩ := hnumbers.1 name r (Std.TreeMap.mem_toList_iff_getElem?_eq_some.2 hr)
    obtain ⟨x, hx, rfl⟩ := Option.map_eq_some_iff.1 hvalue
    exact ⟨x, Range.has_of_witness? hx, hget⟩

/-- A valuation gives the variables of a model the values that they have in it. -/
structure Valuation.Extends (v : Valuation K) (m : Model K) : Prop where
  truth : ∀ (name : String) (b : Bool), m[name]? = some (.bool b) → v.truth name = b
  number : ∀ (name : String) (x : K), m[name]? = some (.number x) → v.number name = x

/-- The valuation that gives variables which are not in a model falsehood and zero. -/
def Valuation.ofModel (m : Model K) : Valuation K where
  truth name := match m[name]? with
    | some (.bool b) => b
    | _ => false
  number name := match m[name]? with
    | some (.number x) => x
    | _ => 0
  overZero _ := 0

omit [LinearOrder K] in
theorem Valuation.extends_ofModel (m : Model K) : (Valuation.ofModel m).Extends m :=
  ⟨fun name b h => by simp [ofModel, h], fun name x h => by simp [ofModel, h]⟩

/-- What a model makes of asserted terms is true: they hold under every valuation that gives its
variables their values, if no name is that of a truth value and of a number. -/
theorem Solver.holds_of_check_eq_sat (s : Solver K) (m : Model K)
    (hdisjoint : (Term.varsAll .bool s.assertions.toList).Disjoint
      (Term.varsAll .number s.assertions.toList))
    (h : s.check = .sat m) (v : Valuation K) (hv : v.Extends m) : ∀ t ∈ s.assertions, t.Holds v := by
  obtain ⟨f, hlearned, hmodel⟩ := exists_facts_of_decideAll h
  have hamong : f.Among (Term.varsAll .bool s.assertions.toList)
      (Term.varsAll .number s.assertions.toList) := by
    refine learnAll_keeps (P := fun f => f.Among _ _) (fun f g t ht hadd hf => ?_) hlearned
      ⟨by simp, by simp⟩
    have hvars (sort : TermSort) : t.vars sort ⊆ Term.varsAll sort s.assertions.toList :=
      Term.varsAll_conjunctsAll sort s.assertions.toList ▸ Term.vars_subset_varsAll sort ht
    exact Facts.Among.add hf (hvars .bool) (hvars .number) hadd
  have hget := Facts.getElem?_model? hamong hdisjoint hmodel
  have hallows : f.Allows v := by
    refine ⟨fun name b hb => hv.truth name b (hget.1 name b hb), fun name r hr => ?_⟩
    obtain ⟨x, hx, hname⟩ := hget.2 name r hr
    exact hv.number name x hname ▸ hx
  have hatoms := ((decided_of_learnAll hlearned).1 rfl).2
  have hall := ((allows_of_learnAll hlearned).1 hallows).2
  have hconjuncts := (Term.forall_holds_conjunctsAll v _).1 fun c hc => hall c hc (hatoms c hc)
  exact fun t ht => hconjuncts t (Array.mem_toList_iff.2 ht)

/-- The model of a number above one and at most two, but not two, is the middle. -/
theorem Solver.holds_of_check_eq_sat_openEnds :
    let s : Solver ℚ := { assertions := #[
      .andTerm [.boolVar "p", .compareTerm .gt (.numVar "x") (.number 1)],
      .compareTerm .ge (.number 2) (.numVar "x"),
      .compareTerm .ne (.numVar "x") (.number 2)] }
    let m := (({} : Model ℚ).insert "p" (.bool true)).insert "x" (.number (3 / 2))
    s.check = .sat m ∧ ∀ t ∈ s.assertions, t.Holds (.ofModel m) := by
  intro s m
  have hsat : s.check = .sat m := by with_unfolding_all rfl
  refine ⟨hsat, Solver.holds_of_check_eq_sat s m ?_ hsat _ (Valuation.extends_ofModel m)⟩
  simp [s, Term.varsAll, Term.vars]

end QueryTaint
