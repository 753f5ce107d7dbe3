import QueryTaint.Proofs.Term.Assumption

/-!
# New names for variables

Terms are built and decided in the same way whatever their variables are called, as long as different
variables have different names.
-/

namespace QueryTaint

variable {ν : Type}

/-! ## Terms -/

namespace Term

mutual

/-- The term with new names for its variables. -/
def rename (σ : String → String) : Term ν → Term ν
  | bool b => bool b
  | number n => number n
  | boolVar name => boolVar (σ name)
  | numVar name => numVar (σ name)
  | notTerm arg => notTerm (rename σ arg)
  | andTerm args => andTerm (renameAll σ args)
  | orTerm args => orTerm (renameAll σ args)
  | xorTerm a b => xorTerm (rename σ a) (rename σ b)
  | iffTerm a b => iffTerm (rename σ a) (rename σ b)
  | negTerm arg => negTerm (rename σ arg)
  | arithTerm op a b => arithTerm op (rename σ a) (rename σ b)
  | compareTerm op a b => compareTerm op (rename σ a) (rename σ b)

/-- The terms with new names for their variables. -/
def renameAll (σ : String → String) : List (Term ν) → List (Term ν)
  | [] => []
  | arg :: rest => rename σ arg :: renameAll σ rest

end

variable (σ : String → String)

@[simp] theorem renameAll_eq_map (l : List (Term ν)) : renameAll σ l = l.map (rename σ) := by
  induction l with
  | nil => rfl
  | cons arg l ih => rw [renameAll, ih, List.map_cons]

@[simp] theorem sort_rename (t : Term ν) : (t.rename σ).sort = t.sort := by
  cases t <;> simp only [rename, sort]

@[simp] theorem asBool?_rename (t : Term ν) : (t.rename σ).asBool? = t.asBool? := by
  cases t <;> simp only [rename, asBool?]

theorem flattenAnd_rename (l : List (Term ν)) :
    flattenAnd (l.map (rename σ)) = (flattenAnd l).map (List.map (rename σ)) := by
  induction l with
  | nil => rfl
  | cons arg l ih =>
    rw [List.map_cons]
    cases arg with
    | bool b => cases b <;> simp only [rename, flattenAnd, ih, Option.map_none]
    | andTerm nested =>
      simp only [rename, flattenAnd, ih, Option.map_map, Function.comp_def, List.map_append,
        renameAll_eq_map]
    | _ => simp only [rename, flattenAnd, ih, Option.map_map, Function.comp_def, List.map_cons]

theorem and_rename (l : List (Term ν)) : Term.and (l.map (rename σ)) = (Term.and l).rename σ := by
  rw [Term.and, Term.and, flattenAnd_rename]
  rcases flattenAnd l with _ | ⟨_ | ⟨arg, _ | ⟨arg', rest⟩⟩⟩ <;> simp [rename]

theorem flattenOr_rename (l : List (Term ν)) :
    flattenOr (l.map (rename σ)) = (flattenOr l).map (List.map (rename σ)) := by
  induction l with
  | nil => rfl
  | cons arg l ih =>
    rw [List.map_cons]
    cases arg with
    | bool b => cases b <;> simp only [rename, flattenOr, ih, Option.map_none]
    | orTerm nested =>
      simp only [rename, flattenOr, ih, Option.map_map, Function.comp_def, List.map_append,
        renameAll_eq_map]
    | _ => simp only [rename, flattenOr, ih, Option.map_map, Function.comp_def, List.map_cons]

theorem or_rename (l : List (Term ν)) : Term.or (l.map (rename σ)) = (Term.or l).rename σ := by
  rw [Term.or, Term.or, flattenOr_rename]
  rcases flattenOr l with _ | ⟨_ | ⟨arg, _ | ⟨arg', rest⟩⟩⟩ <;> simp [rename]

mutual

theorem not_rename : ∀ t : Term ν, (t.rename σ).not = t.not.rename σ
  | bool _ | number _ | boolVar _ | numVar _ | xorTerm .. | iffTerm .. | negTerm _ | arithTerm ..
  | notTerm _ | compareTerm .. => by simp only [rename, not]
  | andTerm args => by rw [rename, not, not, ← or_rename, notAll_rename]
  | orTerm args => by rw [rename, not, not, ← and_rename, notAll_rename]

theorem notAll_rename : ∀ l : List (Term ν), notAll (renameAll σ l) = (notAll l).map (rename σ)
  | [] => rfl
  | arg :: rest => by
    rw [renameAll, notAll, notAll, not_rename arg, notAll_rename rest, List.map_cons]

end

theorem xor_rename (a b : Term ν) : (a.rename σ).xor (b.rename σ) = (a.xor b).rename σ := by
  cases a with
  | bool x => cases x <;> cases b <;> simp only [rename, xor, ← not_rename]
  | _ =>
    cases b with
    | bool y => cases y <;> simp only [rename, xor, ← not_rename]
    | _ => rfl

theorem iff_rename (a b : Term ν) : (a.rename σ).iff (b.rename σ) = (a.iff b).rename σ := by
  cases a with
  | bool x => cases x <;> cases b <;> simp only [rename, iff, ← not_rename]
  | _ =>
    cases b with
    | bool y => cases y <;> simp only [rename, iff, ← not_rename]
    | _ => rfl

mutual

theorem conjuncts_rename : ∀ t : Term ν, (t.rename σ).conjuncts = t.conjuncts.map (rename σ)
  | andTerm args => by rw [rename, conjuncts, conjuncts, conjunctsAll_rename]
  | bool _ | number _ | boolVar _ | numVar _ | xorTerm .. | iffTerm .. | negTerm _ | arithTerm ..
  | notTerm _ | compareTerm .. | orTerm _ => by simp only [rename, conjuncts, List.map_singleton]

theorem conjunctsAll_rename :
    ∀ l : List (Term ν), conjunctsAll (renameAll σ l) = (conjunctsAll l).map (rename σ)
  | [] => rfl
  | arg :: rest => by
    rw [renameAll, conjunctsAll, conjunctsAll, conjuncts_rename arg, conjunctsAll_rename rest,
      List.map_append]

end

variable [Numeral ν]

theorem neg_rename (t : Term ν) : (t.rename σ).neg = t.neg.rename σ := by
  cases t <;> simp only [rename, neg]

theorem arith_rename (op : ArithOp) (a b : Term ν) :
    arith op (a.rename σ) (b.rename σ) = (arith op a b).rename σ := by
  cases a with
  | number x =>
    cases b with
    | number y =>
      simp only [rename, arith]
      cases op.result? x y <;> rfl
    | _ => rfl
  | _ => rfl

theorem compare_rename (op : CompareOp) (a b : Term ν) :
    compare op (a.rename σ) (b.rename σ) = (compare op a b).rename σ := by
  cases a with
  | number x => cases b <;> rfl
  | _ => rfl

theorem toBool_rename (t : Term ν) : (t.rename σ).toBool = t.toBool.rename σ := by
  rw [toBool, toBool, sort_rename]
  cases t.sort with
  | bool => rfl
  | number => exact compare_rename σ .ne t (.number Numeral.zero)

end Term

/-! ## Facts -/

variable {σ : String → String}

/-- The facts are the same under new names. -/
structure Facts.Twin (σ : String → String) (f f' : Facts ν) : Prop where
  bools (name : String) : f'.bools[σ name]? = f.bools[name]?
  numbers (name : String) : f'.numbers[σ name]? = f.numbers[name]?

/-- An atom does the same to facts under new names. -/
inductive Learned.Twin (σ : String → String) : Learned ν → Learned ν → Prop
  | recorded {f f' : Facts ν} (h : f.Twin σ f') : Twin σ (.recorded f) (.recorded f')
  | contradiction : Twin σ .contradiction .contradiction
  | opaqueTerm : Twin σ .opaqueTerm .opaqueTerm

namespace Facts

variable {f f' : Facts ν}

theorem Twin.empty (σ : String → String) : Twin σ ({} : Facts ν) {} :=
  ⟨fun _ => rfl, fun _ => rfl⟩

theorem Twin.assign (h : f.Twin σ f') (hσ : σ.Injective) (name : String) (value : Bool) :
    Learned.Twin σ (f.assign name value) (f'.assign (σ name) value) := by
  unfold Facts.assign
  rw [h.bools]
  split
  · exact .contradiction
  · refine .recorded ⟨fun other => ?_, h.numbers⟩
    simp only [Std.TreeMap.getElem?_insert, Std.LawfulEqCmp.compare_eq_iff_eq, hσ.eq_iff, h.bools]

variable [Numeral ν]

theorem Twin.bound (h : f.Twin σ f') (hσ : σ.Injective) (name : String) (op : CompareOp) (c : ν) :
    Learned.Twin σ (f.bound name op c) (f'.bound (σ name) op c) := by
  unfold Facts.bound
  rw [h.numbers]
  dsimp only
  split
  · exact .contradiction
  · refine .recorded ⟨h.bools, fun other => ?_⟩
    simp only [Std.TreeMap.getElem?_insert, Std.LawfulEqCmp.compare_eq_iff_eq, hσ.eq_iff, h.numbers]

theorem Twin.add (h : f.Twin σ f') (hσ : σ.Injective) (t : Term ν) :
    Learned.Twin σ (f.add t) (f'.add (t.rename σ)) := by
  cases t with
  | bool b =>
    cases b with
    | true => exact .recorded h
    | false => exact .contradiction
  | boolVar name => exact h.assign hσ name true
  | notTerm arg =>
    cases arg with
    | boolVar name => exact h.assign hσ name false
    | _ => exact .opaqueTerm
  | compareTerm op a b =>
    cases a with
    | numVar x =>
      cases b with
      | number c => exact h.bound hσ x op c
      | _ => exact .opaqueTerm
    | number c =>
      cases b with
      | numVar x => exact h.bound hσ x op.flip c
      | _ => exact .opaqueTerm
    | _ => exact .opaqueTerm
  | _ => exact .opaqueTerm

end Facts

section Decide

variable [Numeral ν]

theorem isSome_learnAll_rename (hσ : σ.Injective) {f f' : Facts ν} (h : f.Twin σ f')
    (decided : Bool) (l : List (Term ν)) :
    (learnAll f' decided (l.map (Term.rename σ))).isSome = (learnAll f decided l).isSome := by
  induction l generalizing f f' decided with
  | nil => rfl
  | cons atom l ih =>
    have hadd := h.add hσ atom
    rw [List.map_cons, learnAll, learnAll]
    generalize f.add atom = r at hadd ⊢
    generalize f'.add (atom.rename σ) = r' at hadd ⊢
    cases hadd with
    | recorded hfacts => exact ih hfacts decided
    | contradiction => rfl
    | opaqueTerm => exact ih h false

/-- Whether terms are refuted does not depend on the names of their variables. -/
theorem isFeasible_decideAll_rename (hσ : σ.Injective) (terms : List (Term ν)) :
    (decideAll (terms.map (Term.rename σ))).isFeasible = (decideAll terms).isFeasible := by
  rw [isFeasible_decideAll, isFeasible_decideAll, ← Term.renameAll_eq_map, Term.conjunctsAll_rename]
  exact isSome_learnAll_rename hσ (.empty σ) true _

end Decide

theorem feasible_rename (hσ : σ.Injective) (assumed : List (Term Float)) (term : Term Float) :
    feasible (assumed.map (Term.rename σ)) (term.rename σ) = feasible assumed term := by
  have hterms : assumed.map (Term.rename σ) ++ [term.rename σ] =
      (assumed ++ [term]).map (Term.rename σ) := by
    rw [List.map_append, List.map_singleton]
  rw [feasible, feasible, Term.asBool?_rename, hterms, isFeasible_decideAll_rename hσ]

end QueryTaint
