import QueryTaint.Proofs.Term.Normal

/-!
# Terms that are built

What the functions that build terms make of leaves (`Term.Built`) is well-sorted and in normal form
(`Built.hasSort`, `Built.normal`), and so a literal for a truth value is the whole term or no part of
it (`not_inside_of_normal`). Literals alone make literals, unless a division by zero is left in place
(`Built.literal`). Negating twice gives back any term in normal form (`not_not_of_normal`): a negation turns a
conjunction into a disjunction with as many members, no two of which merge (`fits_not`).
-/

namespace QueryTaint

theorem CompareOp.negate_negate (op : CompareOp) : op.negate.negate = op := by
  cases op <;> rfl

namespace Term

variable {ν : Type}

/-! ## Leaves and parts -/

/-- The literals, each with its kind. -/
inductive Literal : Term ν → TermSort → Prop
  | bool (b : Bool) : Literal (bool b) .bool
  | number (n : ν) : Literal (number n) .number

/-- The literals and the variables, each with its kind. -/
inductive Leaf : Term ν → TermSort → Prop
  | bool (b : Bool) : Leaf (bool b) .bool
  | number (n : ν) : Leaf (number n) .number
  | boolVar (name : String) : Leaf (boolVar name) .bool
  | numVar (name : String) : Leaf (numVar name) .number

/-- The terms that stand directly below a term. -/
def args : Term ν → List (Term ν)
  | notTerm arg | negTerm arg => [arg]
  | andTerm args | orTerm args => args
  | xorTerm a b | iffTerm a b | arithTerm _ a b | compareTerm _ a b => [a, b]
  | bool _ | number _ | boolVar _ | numVar _ => []

/-- The term stands below the other one, at any depth. -/
def Inside : Term ν → Term ν → Prop :=
  Relation.TransGen fun arg t => arg ∈ t.args

/-- The term is not the literal for zero. -/
def NotZero [Numeral ν] (t : Term ν) : Prop :=
  ∀ n, t = number n → Numeral.eq n Numeral.zero = false

/-- Terms of a kind that are built, from the leaves and with the divisors that are allowed, out of
terms of the kinds that their places ask for. -/
inductive Built [Numeral ν] (leaf : Term ν → TermSort → Prop) (divisor : Term ν → Prop) :
    Term ν → TermSort → Prop
  | leaf {t : Term ν} {s : TermSort} : leaf t s → Built leaf divisor t s
  | not {t : Term ν} : Built leaf divisor t .bool → Built leaf divisor (not t) .bool
  | and {l : List (Term ν)} :
    (∀ t ∈ l, Built leaf divisor t .bool) → Built leaf divisor (and l) .bool
  | or {l : List (Term ν)} :
    (∀ t ∈ l, Built leaf divisor t .bool) → Built leaf divisor (or l) .bool
  | xor {a b : Term ν} :
    Built leaf divisor a .bool → Built leaf divisor b .bool → Built leaf divisor (xor a b) .bool
  | iff {a b : Term ν} :
    Built leaf divisor a .bool → Built leaf divisor b .bool → Built leaf divisor (iff a b) .bool
  | neg {t : Term ν} : Built leaf divisor t .number → Built leaf divisor (neg t) .number
  | arith (op : ArithOp) {a b : Term ν} : Built leaf divisor a .number →
    Built leaf divisor b .number → (op = .div → divisor b) →
    Built leaf divisor (arith op a b) .number
  | compare (op : CompareOp) {a b : Term ν} : Built leaf divisor a .number →
    Built leaf divisor b .number → Built leaf divisor (compare op a b) .bool
  | toBool {t : Term ν} {s : TermSort} :
    Built leaf divisor t s → Built leaf divisor (toBool t) .bool

section Leaves

variable {t : Term ν} {s : TermSort}

theorem Leaf.hasSort (h : Leaf t s) : t.HasSort s := by
  cases h <;> constructor

theorem Leaf.normal (h : Leaf t s) : t.Normal := by
  cases h <;> constructor

theorem Literal.leaf (h : Literal t s) : Leaf t s := by
  cases h <;> constructor

theorem literal_bool_iff : Literal t .bool ↔ ∃ c, t = bool c :=
  ⟨fun h => by cases h; exact ⟨_, rfl⟩, by rintro ⟨c, rfl⟩; exact .bool c⟩

theorem literal_number_iff : Literal t .number ↔ ∃ n, t = number n :=
  ⟨fun h => by cases h; exact ⟨_, rfl⟩, by rintro ⟨n, rfl⟩; exact .number n⟩

end Leaves

/-! ## Kinds and form -/

section Form

variable [Numeral ν] {leaf : Term ν → TermSort → Prop} {divisor : Term ν → Prop}
  {t : Term ν} {s : TermSort}

theorem Built.hasSort (hleaf : ∀ t s, leaf t s → t.HasSort s) (h : Built leaf divisor t s) :
    t.HasSort s := by
  induction h with
  | leaf h => exact hleaf _ _ h
  | not _ ih => exact hasSort_not ih
  | and _ ih => exact hasSort_and ih
  | or _ ih => exact hasSort_or ih
  | xor _ _ iha ihb => exact hasSort_xor iha ihb
  | iff _ _ iha ihb => exact hasSort_iff iha ihb
  | neg _ ih => exact hasSort_neg ih
  | arith op _ _ _ iha ihb => exact hasSort_arith op iha ihb
  | compare op _ _ iha ihb => exact hasSort_compare op iha ihb
  | toBool _ ih => exact hasSort_toBool ih

theorem Built.normal (hleaf : ∀ t s, leaf t s → t.Normal) (h : Built leaf divisor t s) :
    t.Normal := by
  induction h with
  | leaf h => exact hleaf _ _ h
  | not _ ih => exact normal_not ih
  | and _ ih => exact normal_and ih
  | or _ ih => exact normal_or ih
  | xor _ _ iha ihb => exact normal_xor iha ihb
  | iff _ _ iha ihb => exact normal_iff iha ihb
  | neg _ ih => exact normal_neg ih
  | arith op _ _ _ iha ihb => exact normal_arith op iha ihb
  | compare op _ _ iha ihb => exact normal_compare op iha ihb
  | toBool _ ih => exact normal_toBool ih

end Form

section Parts

variable {t u a b : Term ν} {s : TermSort}

theorem forall_mem_two {P : Term ν → Prop} : (∀ t ∈ [a, b], P t) ↔ P a ∧ P b := by
  rw [List.forall_mem_cons, List.forall_mem_singleton]

theorem HasSort.ne_bool (h : t.HasSort .number) (c : Bool) : t ≠ Term.bool c := by
  rintro rfl
  cases h

/-- What stands directly below a well-sorted term in normal form is such a term too, and no literal
for a truth value. -/
theorem normal_of_mem_args (hs : t.HasSort s) (h : t.Normal) :
    ∀ u ∈ t.args, u.Normal ∧ (∃ r, u.HasSort r) ∧ ∀ b, u ≠ bool b := by
  cases h with
  | bool | number | boolVar | numVar => exact List.forall_mem_nil _
  | notTerm hkeeps harg =>
    cases hs with
    | notTerm hsort =>
      refine List.forall_mem_singleton.2 ⟨harg, ⟨_, hsort⟩, fun b hb => ?_⟩
      exact (hb ▸ hkeeps : (bool b).KeepsNot)
  | andTerm _ hfits hargs =>
    cases hs with
    | andTerm hsort => exact fun u hu => ⟨hargs u hu, ⟨_, hsort u hu⟩, (hfits u hu).1⟩
  | orTerm _ hfits hargs =>
    cases hs with
    | orTerm hsort => exact fun u hu => ⟨hargs u hu, ⟨_, hsort u hu⟩, (hfits u hu).1⟩
  | xorTerm hane hbne ha hb =>
    cases hs with
    | xorTerm hsa hsb => exact forall_mem_two.2 ⟨⟨ha, ⟨_, hsa⟩, hane⟩, hb, ⟨_, hsb⟩, hbne⟩
  | iffTerm hane hbne ha hb =>
    cases hs with
    | iffTerm hsa hsb => exact forall_mem_two.2 ⟨⟨ha, ⟨_, hsa⟩, hane⟩, hb, ⟨_, hsb⟩, hbne⟩
  | negTerm _ harg =>
    cases hs with
    | negTerm hsort => exact List.forall_mem_singleton.2 ⟨harg, ⟨_, hsort⟩, hsort.ne_bool⟩
  | arithTerm _ ha hb =>
    cases hs with
    | arithTerm _ hsa hsb =>
      exact forall_mem_two.2 ⟨⟨ha, ⟨_, hsa⟩, hsa.ne_bool⟩, hb, ⟨_, hsb⟩, hsb.ne_bool⟩
  | compareTerm _ ha hb =>
    cases hs with
    | compareTerm _ hsa hsb =>
      exact forall_mem_two.2 ⟨⟨ha, ⟨_, hsa⟩, hsa.ne_bool⟩, hb, ⟨_, hsb⟩, hsb.ne_bool⟩

/-- The same at any depth. -/
theorem normal_of_inside (hs : t.HasSort s) (h : t.Normal) (hu : u.Inside t) :
    u.Normal ∧ (∃ r, u.HasSort r) ∧ ∀ b, u ≠ bool b := by
  induction hu using Relation.TransGen.head_induction_on with
  | single harg => exact normal_of_mem_args hs h _ harg
  | head harg _ ih =>
    obtain ⟨hnormal, ⟨r, hsort⟩, -⟩ := ih
    exact normal_of_mem_args hsort hnormal _ harg

end Parts

/-! ## Literals -/

section Literals

variable {t a b : Term ν} {l : List (Term ν)} {s : TermSort}

theorem literal_and (h : ∀ t ∈ l, Literal t .bool) : Literal (and l) .bool := by
  have hnormal : ∀ t ∈ l, t.Normal := fun t ht => (h t ht).leaf.normal
  by_cases hfalse : bool false ∈ l
  · rw [(and_eq_false hnormal).2 hfalse]
    exact .bool false
  · have htrue : ∀ t ∈ l, t = bool true := by
      intro t ht
      obtain ⟨c, rfl⟩ := literal_bool_iff.1 (h t ht)
      cases c with
      | false => exact absurd ht hfalse
      | true => rfl
    rw [(and_eq_true hnormal).2 htrue]
    exact .bool true

theorem literal_or (h : ∀ t ∈ l, Literal t .bool) : Literal (or l) .bool := by
  have hnormal : ∀ t ∈ l, t.Normal := fun t ht => (h t ht).leaf.normal
  by_cases htrue : bool true ∈ l
  · rw [(or_eq_true hnormal).2 htrue]
    exact .bool true
  · have hfalse : ∀ t ∈ l, t = bool false := by
      intro t ht
      obtain ⟨c, rfl⟩ := literal_bool_iff.1 (h t ht)
      cases c with
      | false => rfl
      | true => exact absurd ht htrue
    rw [(or_eq_false hnormal).2 hfalse]
    exact .bool false

variable [Numeral ν]

/-- Only a division by zero is not folded. -/
theorem literal_arith {op : ArithOp} (ha : Literal a .number) (hb : Literal b .number)
    (hdiv : op = .div → b.NotZero) : Literal (arith op a b) .number := by
  obtain ⟨x, rfl⟩ := literal_number_iff.1 ha
  obtain ⟨y, rfl⟩ := literal_number_iff.1 hb
  have hresult : ∃ n, op.result? x y = some n := by
    cases op with
    | div => simp [ArithOp.result?, hdiv rfl y rfl]
    | _ => exact ⟨_, rfl⟩
  obtain ⟨n, hn⟩ := hresult
  rw [arith_eq_number.2 ⟨x, y, rfl, rfl, hn⟩]
  exact .number n

theorem literal_compare (op : CompareOp) (ha : Literal a .number) (hb : Literal b .number) :
    Literal (compare op a b) .bool := by
  obtain ⟨x, rfl⟩ := literal_number_iff.1 ha
  obtain ⟨y, rfl⟩ := literal_number_iff.1 hb
  exact .bool _

/-- Literals make literals, as long as nothing is divided by zero. -/
theorem Built.literal (h : Built Literal NotZero t s) : Literal t s := by
  induction h with
  | leaf h => exact h
  | not _ ih => cases ih; exact .bool _
  | and _ ih => exact literal_and ih
  | or _ ih => exact literal_or ih
  | xor _ _ iha ihb => cases iha; cases ihb; exact .bool _
  | iff _ _ iha ihb => cases iha; cases ihb; exact .bool _
  | neg _ ih => cases ih; exact .number _
  | arith op _ _ hdiv iha ihb => exact literal_arith iha ihb hdiv
  | compare op _ _ iha ihb => exact literal_compare op iha ihb
  | toBool _ ih =>
    cases ih with
    | bool b => exact .bool b
    | number n => exact literal_compare .ne (.number n) (.number _)

end Literals

/-! ## Negating twice -/

section Twice

variable {t : Term ν} {l : List (Term ν)}

theorem openAnd_of_fits (h : t.FitsAnd) : t.openAnd = [t] := by
  unfold openAnd
  split
  · exact absurd rfl (h.1 true)
  · exact absurd rfl (h.2 _)
  · rfl

theorem openOr_of_fits (h : t.FitsOr) : t.openOr = [t] := by
  unfold openOr
  split
  · exact absurd rfl (h.1 false)
  · exact absurd rfl (h.2 _)
  · rfl

theorem and_of_fits (htwo : 2 ≤ l.length) (h : ∀ t ∈ l, t.FitsAnd) : and l = andTerm l := by
  have hopen : ∀ t ∈ l, t.openAnd = [t] := fun t ht => openAnd_of_fits (h t ht)
  have hflat : flattenAnd l = some l := by
    refine flattenAnd_eq_some.2 ⟨fun hfalse => (h _ hfalse).1 false rfl, ?_⟩
    rw [List.flatMap_def, List.map_congr_left hopen, ← List.flatMap_def, List.flatMap_singleton']
  rw [and_eq_gather, hflat]
  match l, htwo with
  | _ :: _ :: _, _ => rfl

theorem or_of_fits (htwo : 2 ≤ l.length) (h : ∀ t ∈ l, t.FitsOr) : or l = orTerm l := by
  have hopen : ∀ t ∈ l, t.openOr = [t] := fun t ht => openOr_of_fits (h t ht)
  have hflat : flattenOr l = some l := by
    refine flattenOr_eq_some.2 ⟨fun htrue => (h _ htrue).1 true rfl, ?_⟩
    rw [List.flatMap_def, List.map_congr_left hopen, ← List.flatMap_def, List.flatMap_singleton']
  rw [or_eq_gather, hflat]
  match l, htwo with
  | _ :: _ :: _, _ => rfl

/-- The negation of what can be a member of a conjunction can be one of a disjunction, and the other
way round. -/
theorem fits_not (h : t.Normal) :
    (t.FitsAnd → (not t).FitsOr) ∧ (t.FitsOr → (not t).FitsAnd) := by
  induction h with
  | bool b => exact ⟨fun hfits => absurd rfl (hfits.1 b), fun hfits => absurd rfl (hfits.1 b)⟩
  | @notTerm arg hkeeps =>
    have hne (b : Bool) : arg ≠ bool b := fun h => by simp [h, KeepsNot] at hkeeps
    refine ⟨fun _ => ⟨hne, fun args h => ?_⟩, fun _ => ⟨hne, fun args h => ?_⟩⟩
    · exact (h ▸ hkeeps : (orTerm args).KeepsNot)
    · exact (h ▸ hkeeps : (andTerm args).KeepsNot)
  | @andTerm args htwo hfits _ ih =>
    refine ⟨fun hfits => absurd rfl (hfits.2 args), fun _ => ?_⟩
    rw [not, notAll_eq_map, or_of_fits (by simpa using htwo)
      (List.forall_mem_map.2 fun t ht => (ih t ht).1 (hfits t ht))]
    simp [FitsAnd]
  | @orTerm args htwo hfits _ ih =>
    refine ⟨fun _ => ?_, fun hfits => absurd rfl (hfits.2 args)⟩
    rw [not, notAll_eq_map, and_of_fits (by simpa using htwo)
      (List.forall_mem_map.2 fun t ht => (ih t ht).2 (hfits t ht))]
    simp [FitsOr]
  | _ => simp [FitsAnd, FitsOr, not]

theorem not_andTerm (h : (andTerm l).Normal) : not (andTerm l) = orTerm (l.map not) := by
  cases h with
  | andTerm htwo hfits hargs =>
    rw [not, notAll_eq_map]
    exact or_of_fits (by simpa using htwo)
      (List.forall_mem_map.2 fun t ht => (fits_not (hargs t ht)).1 (hfits t ht))

theorem not_orTerm (h : (orTerm l).Normal) : not (orTerm l) = andTerm (l.map not) := by
  cases h with
  | orTerm htwo hfits hargs =>
    rw [not, notAll_eq_map]
    exact and_of_fits (by simpa using htwo)
      (List.forall_mem_map.2 fun t ht => (fits_not (hargs t ht)).2 (hfits t ht))

/-- Negating twice gives back a term in normal form. -/
theorem not_not_of_normal (h : t.Normal) : not (not t) = t := by
  induction h with
  | bool b => simp [not]
  | @notTerm arg hkeeps =>
    rw [not]
    unfold not
    split <;> first | rfl | exact hkeeps.elim
  | compareTerm op => rw [not, not, CompareOp.negate_negate]
  | @andTerm args htwo hfits hargs ih =>
    have hback : (args.map not).map not = args := by
      rw [List.map_map]
      exact (List.map_congr_left ih).trans (List.map_id args)
    rw [not_andTerm (.andTerm htwo hfits hargs), not, notAll_eq_map, hback]
    exact and_of_fits htwo hfits
  | @orTerm args htwo hfits hargs ih =>
    have hback : (args.map not).map not = args := by
      rw [List.map_map]
      exact (List.map_congr_left ih).trans (List.map_id args)
    rw [not_orTerm (.orTerm htwo hfits hargs), not, notAll_eq_map, hback]
    exact or_of_fits htwo hfits
  | _ => simp [not]

end Twice

/-! ## Built terms -/

/-- Terms that are built from literals and variables are well-sorted and in normal form, and have no
literal for a truth value inside them; built from literals, with no division by zero, they are
literals; and negating one of them twice gives it back. -/
theorem normal_of_built [Numeral ν] :
    (∀ (t : Term ν) (s : TermSort), Built Leaf (fun _ => True) t s →
      t.HasSort s ∧ t.Normal ∧ ∀ b, ¬ (bool b).Inside t) ∧
    (∀ (t : Term ν) (s : TermSort), Built Literal NotZero t s → Literal t s) ∧
    ∀ t : Term ν, Built Leaf (fun _ => True) t .bool → not (not t) = t := by
  refine ⟨fun t s h => ?_, fun t s h => h.literal, fun t h => ?_⟩
  · have hsort := h.hasSort fun _ _ => Leaf.hasSort
    have hnormal := h.normal fun _ _ => Leaf.normal
    exact ⟨hsort, hnormal, fun b hin => (normal_of_inside hsort hnormal hin).2.2 b rfl⟩
  · exact not_not_of_normal (h.normal fun _ _ => Leaf.normal)

/-- A disjunction in which the negation of a conjunction opens, and a comparison of numbers that is
folded with the quotient in it. -/
theorem normal_of_built_disjunction :
    let t : Term ℚ :=
      or [not (and [boolVar "p", boolVar "q"]), compare .lt (neg (numVar "x")) (number 1)]
    let u : Term ℚ := compare .lt (arith .div (number 1) (number 2)) (number 1)
    Built Leaf (fun _ => True) t .bool ∧ Built Literal NotZero u .bool ∧
      (t.Normal ∧ ∀ b, ¬ (bool b).Inside t) ∧ Literal u .bool ∧ not (not t) = t := by
  intro t u
  have hvar (name : String) : Built (ν := ℚ) Leaf (fun _ => True) (boolVar name) .bool :=
    .leaf (.boolVar name)
  have hboth := Built.not (.and (forall_mem_two.2 ⟨hvar "p", hvar "q"⟩))
  have ht : Built Leaf (fun _ => True) t .bool :=
    .or (forall_mem_two.2
      ⟨hboth, .compare .lt (.neg (.leaf (.numVar "x"))) (.leaf (.number 1))⟩)
  have htwo : (number 2 : Term ℚ).NotZero := by
    rintro n ⟨⟩
    simp
  have hquotient : Built Literal NotZero (arith .div (number (1 : ℚ)) (number 2)) .number :=
    .arith .div (.leaf (.number 1)) (.leaf (.number 2)) fun _ => htwo
  have hu : Built Literal NotZero u .bool := .compare .lt hquotient (.leaf (.number 1))
  obtain ⟨hform, hliteral, htwice⟩ := normal_of_built (ν := ℚ)
  exact ⟨ht, hu, (hform t .bool ht).2, hliteral u .bool hu, htwice t ht⟩

end Term

end QueryTaint
