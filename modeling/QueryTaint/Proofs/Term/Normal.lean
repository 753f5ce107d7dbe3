import QueryTaint.Proofs.Term.Meaning

/-!
# Terms in normal form

In a term in normal form no literal stands directly below a connective, no conjunction below a
conjunction and no disjunction below a disjunction; both have at least two members; and a negation or
a minus sign stands only in front of what it cannot be moved into (`Term.Normal`). The functions that
build terms keep to this form.

So they give literals only where literals decide the result: a conjunction in normal form is false
just if one of its members is the literal for false (`and_eq_false`), and true just if all of them are
the literal for true (`and_eq_true`).
-/

namespace QueryTaint.Term

variable {ν : Type}

/-! ## The form -/

/-- A negation stays in front of the term. -/
def KeepsNot : Term ν → Prop
  | bool _ | notTerm _ | andTerm _ | orTerm _ | compareTerm .. => False
  | _ => True

/-- A minus sign stays in front of the term. -/
def KeepsSign : Term ν → Prop
  | number _ | negTerm _ => False
  | _ => True

/-- The term can be a member of a conjunction. -/
def FitsAnd (t : Term ν) : Prop := (∀ b, t ≠ bool b) ∧ ∀ args, t ≠ andTerm args

/-- The term can be a member of a disjunction. -/
def FitsOr (t : Term ν) : Prop := (∀ b, t ≠ bool b) ∧ ∀ args, t ≠ orTerm args

/-- Terms in normal form, all the way down. -/
inductive Normal : Term ν → Prop
  | bool (b : Bool) : Normal (bool b)
  | number (n : ν) : Normal (number n)
  | boolVar (name : String) : Normal (boolVar name)
  | numVar (name : String) : Normal (numVar name)
  | notTerm {arg : Term ν} : arg.KeepsNot → Normal arg → Normal (notTerm arg)
  | andTerm {args : List (Term ν)} : 2 ≤ args.length → (∀ t ∈ args, t.FitsAnd) →
    (∀ t ∈ args, Normal t) → Normal (andTerm args)
  | orTerm {args : List (Term ν)} : 2 ≤ args.length → (∀ t ∈ args, t.FitsOr) →
    (∀ t ∈ args, Normal t) → Normal (orTerm args)
  | xorTerm {a b : Term ν} : (∀ x, a ≠ .bool x) → (∀ x, b ≠ .bool x) →
    Normal a → Normal b → Normal (xorTerm a b)
  | iffTerm {a b : Term ν} : (∀ x, a ≠ .bool x) → (∀ x, b ≠ .bool x) →
    Normal a → Normal b → Normal (iffTerm a b)
  | negTerm {arg : Term ν} : arg.KeepsSign → Normal arg → Normal (negTerm arg)
  | arithTerm (op : ArithOp) {a b : Term ν} : Normal a → Normal b → Normal (arithTerm op a b)
  | compareTerm (op : CompareOp) {a b : Term ν} : Normal a → Normal b → Normal (compareTerm op a b)

variable {a b t u : Term ν} {l flat : List (Term ν)} {c : Bool}

/-! ## Conjunctions and disjunctions -/

/-- What a member of a conjunction adds to it, other than a falsehood. -/
def openAnd : Term ν → List (Term ν)
  | bool true => []
  | andTerm args => args
  | t => [t]

/-- What a member of a disjunction adds to it, other than a truth. -/
def openOr : Term ν → List (Term ν)
  | bool false => []
  | orTerm args => args
  | t => [t]

theorem flattenAnd_eq_some :
    flattenAnd l = some flat ↔ bool false ∉ l ∧ l.flatMap openAnd = flat := by
  fun_induction flattenAnd l generalizing flat with
  | case1 => simp
  | case2 rest ih => simp [ih, openAnd]
  | case3 => simp
  | case4 nested rest ih => simp [ih, openAnd]
  | case5 arg rest htrue hfalse hand ih =>
    have hopen : arg.openAnd = [arg] := by unfold openAnd; split <;> simp_all
    simp [ih, hopen, Ne.symm hfalse]

theorem flattenOr_eq_some :
    flattenOr l = some flat ↔ bool true ∉ l ∧ l.flatMap openOr = flat := by
  fun_induction flattenOr l generalizing flat with
  | case1 => simp
  | case2 rest ih => simp [ih, openOr]
  | case3 => simp
  | case4 nested rest ih => simp [ih, openOr]
  | case5 arg rest hfalse htrue hor ih =>
    have hopen : arg.openOr = [arg] := by unfold openOr; split <;> simp_all
    simp [ih, hopen, Ne.symm htrue]

theorem fitsAnd_of_mem_openAnd (hu : u.Normal) (hfalse : u ≠ bool false) (ht : t ∈ u.openAnd) :
    t.FitsAnd ∧ t.Normal := by
  cases hu with
  | bool b =>
    cases b with
    | false => exact absurd rfl hfalse
    | true => cases ht
  | andTerm _ hfits hargs => exact ⟨hfits t ht, hargs t ht⟩
  | _ =>
    cases List.mem_singleton.1 ht
    exact ⟨⟨nofun, nofun⟩, by constructor <;> assumption⟩

theorem fitsOr_of_mem_openOr (hu : u.Normal) (htrue : u ≠ bool true) (ht : t ∈ u.openOr) :
    t.FitsOr ∧ t.Normal := by
  cases hu with
  | bool b =>
    cases b with
    | false => cases ht
    | true => exact absurd rfl htrue
  | orTerm _ hfits hargs => exact ⟨hfits t ht, hargs t ht⟩
  | _ =>
    cases List.mem_singleton.1 ht
    exact ⟨⟨nofun, nofun⟩, by constructor <;> assumption⟩

theorem openAnd_eq_nil (hu : u.Normal) : u.openAnd = [] ↔ u = bool true := by
  cases hu with
  | bool b => cases b <;> simp [openAnd]
  | andTerm htwo => simp [openAnd, List.ne_nil_of_length_pos (Nat.zero_lt_of_lt htwo)]
  | _ => simp [openAnd]

theorem openOr_eq_nil (hu : u.Normal) : u.openOr = [] ↔ u = bool false := by
  cases hu with
  | bool b => cases b <;> simp [openOr]
  | orTerm htwo => simp [openOr, List.ne_nil_of_length_pos (Nat.zero_lt_of_lt htwo)]
  | _ => simp [openOr]

theorem fitsAnd_of_flattenAnd (h : ∀ t ∈ l, t.Normal) (hflat : flattenAnd l = some flat) :
    ∀ t ∈ flat, t.FitsAnd ∧ t.Normal := by
  obtain ⟨hfalse, rfl⟩ := flattenAnd_eq_some.1 hflat
  intro t ht
  obtain ⟨u, hu, htu⟩ := List.mem_flatMap.1 ht
  exact fitsAnd_of_mem_openAnd (h u hu) (ne_of_mem_of_not_mem hu hfalse) htu

theorem fitsOr_of_flattenOr (h : ∀ t ∈ l, t.Normal) (hflat : flattenOr l = some flat) :
    ∀ t ∈ flat, t.FitsOr ∧ t.Normal := by
  obtain ⟨htrue, rfl⟩ := flattenOr_eq_some.1 hflat
  intro t ht
  obtain ⟨u, hu, htu⟩ := List.mem_flatMap.1 ht
  exact fitsOr_of_mem_openOr (h u hu) (ne_of_mem_of_not_mem hu htrue) htu

/-- A connective over members that are left after flattening: the literal `bool z` decides it, and
the other one is dropped. -/
def gather (z : Bool) (node : List (Term ν) → Term ν) : Option (List (Term ν)) → Term ν
  | none => bool z
  | some [] => bool !z
  | some [arg] => arg
  | some flat => node flat

theorem and_eq_gather (l : List (Term ν)) : and l = gather false andTerm (flattenAnd l) := by
  rw [and]
  match flattenAnd l with
  | none | some [] | some [_] | some (_ :: _ :: _) => rfl

theorem or_eq_gather (l : List (Term ν)) : or l = gather true orTerm (flattenOr l) := by
  rw [or]
  match flattenOr l with
  | none | some [] | some [_] | some (_ :: _ :: _) => rfl

section Gather

variable {z : Bool} {node : List (Term ν) → Term ν} {members : Option (List (Term ν))}

theorem normal_gather (hmembers : ∀ flat, members = some flat → ∀ t ∈ flat, t.Normal)
    (hnode : ∀ flat, members = some flat → 2 ≤ flat.length → (node flat).Normal) :
    (gather z node members).Normal := by
  match members with
  | none => exact .bool z
  | some [] => exact .bool !z
  | some [arg] => exact hmembers [arg] rfl arg List.mem_cons_self
  | some (a :: b :: l) => exact hnode (a :: b :: l) rfl (by simp)

theorem gather_eq_bool (hmembers : ∀ flat, members = some flat → ∀ t ∈ flat, ∀ b, t ≠ bool b)
    (hnode : ∀ flat b, node flat ≠ bool b) :
    gather z node members = bool c ↔ if c = z then members = none else members = some [] := by
  match members with
  | none => simp [gather, eq_comm]
  | some [] => cases c <;> cases z <;> simp [gather]
  | some [arg] => simp [gather, hmembers [arg] rfl arg List.mem_cons_self c]
  | some (a :: b :: l) => simp [gather, hnode]

end Gather

theorem normal_and (h : ∀ t ∈ l, t.Normal) : (and l).Normal := by
  rw [and_eq_gather]
  refine normal_gather (fun flat hflat t ht => (fitsAnd_of_flattenAnd h hflat t ht).2) ?_
  exact fun flat hflat htwo => .andTerm htwo (fun t ht => (fitsAnd_of_flattenAnd h hflat t ht).1)
    fun t ht => (fitsAnd_of_flattenAnd h hflat t ht).2

theorem normal_or (h : ∀ t ∈ l, t.Normal) : (or l).Normal := by
  rw [or_eq_gather]
  refine normal_gather (fun flat hflat t ht => (fitsOr_of_flattenOr h hflat t ht).2) ?_
  exact fun flat hflat htwo => .orTerm htwo (fun t ht => (fitsOr_of_flattenOr h hflat t ht).1)
    fun t ht => (fitsOr_of_flattenOr h hflat t ht).2

theorem and_eq_bool (h : ∀ t ∈ l, t.Normal) :
    and l = bool c ↔ if c = false then flattenAnd l = none else flattenAnd l = some [] := by
  rw [and_eq_gather]
  exact gather_eq_bool (fun flat hflat t ht => (fitsAnd_of_flattenAnd h hflat t ht).1.1) nofun

theorem or_eq_bool (h : ∀ t ∈ l, t.Normal) :
    or l = bool c ↔ if c = true then flattenOr l = none else flattenOr l = some [] := by
  rw [or_eq_gather]
  exact gather_eq_bool (fun flat hflat t ht => (fitsOr_of_flattenOr h hflat t ht).1.1) nofun

/-- A conjunction is the literal for false just if one of its members is. -/
theorem and_eq_false (h : ∀ t ∈ l, t.Normal) : and l = bool false ↔ bool false ∈ l := by
  rw [and_eq_bool h, if_pos rfl]
  refine ⟨mem_of_flattenAnd_eq_none, fun hmem => ?_⟩
  exact Option.eq_none_iff_forall_ne_some.2 fun _ hflat => (flattenAnd_eq_some.1 hflat).1 hmem

/-- A conjunction is the literal for true just if all its members are. -/
theorem and_eq_true (h : ∀ t ∈ l, t.Normal) : and l = bool true ↔ ∀ t ∈ l, t = bool true := by
  rw [and_eq_bool h, if_neg (by decide), flattenAnd_eq_some, List.flatMap_eq_nil_iff]
  rw [forall₂_congr fun t ht => openAnd_eq_nil (h t ht), and_iff_right_iff_imp]
  exact fun hall hmem => nomatch hall _ hmem

/-- A disjunction is the literal for true just if one of its members is. -/
theorem or_eq_true (h : ∀ t ∈ l, t.Normal) : or l = bool true ↔ bool true ∈ l := by
  rw [or_eq_bool h, if_pos rfl]
  refine ⟨mem_of_flattenOr_eq_none, fun hmem => ?_⟩
  exact Option.eq_none_iff_forall_ne_some.2 fun _ hflat => (flattenOr_eq_some.1 hflat).1 hmem

/-- A disjunction is the literal for false just if all its members are. -/
theorem or_eq_false (h : ∀ t ∈ l, t.Normal) : or l = bool false ↔ ∀ t ∈ l, t = bool false := by
  rw [or_eq_bool h, if_neg (by decide), flattenOr_eq_some, List.flatMap_eq_nil_iff]
  rw [forall₂_congr fun t ht => openOr_eq_nil (h t ht), and_iff_right_iff_imp]
  exact fun hall hmem => nomatch hall _ hmem

/-- A conjunction of some terms that are no literals is none. -/
theorem and_ne_bool (hne : l ≠ []) (h : ∀ t ∈ l, t.Normal) (hlit : ∀ t ∈ l, ∀ b, t ≠ bool b) :
    and l ≠ bool c := by
  obtain ⟨t, ht⟩ := List.exists_mem_of_ne_nil l hne
  cases c with
  | false => exact fun hand => hlit _ ((and_eq_false h).1 hand) false rfl
  | true => exact fun hand => hlit t ht true ((and_eq_true h).1 hand t ht)

/-- A disjunction of some terms that are no literals is none. -/
theorem or_ne_bool (hne : l ≠ []) (h : ∀ t ∈ l, t.Normal) (hlit : ∀ t ∈ l, ∀ b, t ≠ bool b) :
    or l ≠ bool c := by
  obtain ⟨t, ht⟩ := List.exists_mem_of_ne_nil l hne
  cases c with
  | false => exact fun hor => hlit t ht false ((or_eq_false h).1 hor t ht)
  | true => exact fun hor => hlit _ ((or_eq_true h).1 hor) true rfl

/-! ## Negations -/

theorem normal_not (h : t.Normal) : (not t).Normal := by
  induction h with
  | bool b => exact .bool !b
  | notTerm _ harg _ => exact harg
  | compareTerm op ha hb => exact .compareTerm op.negate ha hb
  | andTerm _ _ _ ih =>
    rw [not, notAll_eq_map]
    exact normal_or (List.forall_mem_map.2 ih)
  | orTerm _ _ _ ih =>
    rw [not, notAll_eq_map]
    exact normal_and (List.forall_mem_map.2 ih)
  | _ => exact .notTerm trivial (by constructor <;> assumption)

/-- Only the negations of literals are literals. -/
theorem not_eq_bool (h : t.Normal) : not t = bool c ↔ t = bool !c := by
  induction h generalizing c with
  | bool b => cases b <;> cases c <;> simp [not]
  | @notTerm arg hkeeps =>
    have hbool : arg ≠ bool c := fun h => by simp [h, KeepsNot] at hkeeps
    simp [not, hbool]
  | @andTerm args htwo hfits hargs ih =>
    simp only [not, notAll_eq_map, reduceCtorEq, iff_false]
    have hne : args ≠ [] := List.ne_nil_of_length_pos (Nat.zero_lt_of_lt htwo)
    refine or_ne_bool (by simpa using hne) ?_ ?_
    · exact List.forall_mem_map.2 fun t ht => normal_not (hargs t ht)
    · exact List.forall_mem_map.2 fun t ht b hnot => (hfits t ht).1 _ ((ih t ht).1 hnot)
  | @orTerm args htwo hfits hargs ih =>
    simp only [not, notAll_eq_map, reduceCtorEq, iff_false]
    have hne : args ≠ [] := List.ne_nil_of_length_pos (Nat.zero_lt_of_lt htwo)
    refine and_ne_bool (by simpa using hne) ?_ ?_
    · exact List.forall_mem_map.2 fun t ht => normal_not (hargs t ht)
    · exact List.forall_mem_map.2 fun t ht b hnot => (hfits t ht).1 _ ((ih t ht).1 hnot)
  | _ => simp [not]

/-! ## Other connectives -/

theorem ne_bool (hfalse : t ≠ bool false) (htrue : t ≠ bool true) (b : Bool) : t ≠ bool b := by
  cases b with
  | false => exact hfalse
  | true => exact htrue

theorem normal_xor (ha : a.Normal) (hb : b.Normal) : (xor a b).Normal := by
  fun_cases xor a b with
  | case1 => exact .bool _
  | case2 => exact hb
  | case3 => exact ha
  | case4 => exact normal_not hb
  | case5 => exact normal_not ha
  | case6 _ _ _ hfalse hfalse' htrue htrue' =>
    exact .xorTerm (ne_bool hfalse htrue) (ne_bool hfalse' htrue') ha hb

theorem normal_iff (ha : a.Normal) (hb : b.Normal) : (iff a b).Normal := by
  fun_cases iff a b with
  | case1 => exact .bool _
  | case2 => exact hb
  | case3 => exact ha
  | case4 => exact normal_not hb
  | case5 => exact normal_not ha
  | case6 _ _ _ htrue htrue' hfalse hfalse' =>
    exact .iffTerm (ne_bool hfalse htrue) (ne_bool hfalse' htrue') ha hb

/-- An exclusive disjunction is a literal just if both its sides are. -/
theorem xor_eq_bool (ha : a.Normal) (hb : b.Normal) :
    xor a b = bool c ↔ ∃ x y, a = bool x ∧ b = bool y ∧ (x != y) = c := by
  fun_cases xor a b with
  | case1 x y => simp
  | case2 | case3 => cases c <;> simp
  | case4 => cases c <;> simp [not_eq_bool hb]
  | case5 => cases c <;> simp [not_eq_bool ha]
  | case6 _ _ _ hfalse hfalse' htrue htrue' => simp [ne_bool hfalse htrue]

/-- An equivalence is a literal just if both its sides are. -/
theorem iff_eq_bool (ha : a.Normal) (hb : b.Normal) :
    iff a b = bool c ↔ ∃ x y, a = bool x ∧ b = bool y ∧ (x == y) = c := by
  fun_cases iff a b with
  | case1 x y => simp
  | case2 | case3 => cases c <;> simp
  | case4 => cases c <;> simp [not_eq_bool hb]
  | case5 => cases c <;> simp [not_eq_bool ha]
  | case6 _ _ _ htrue htrue' hfalse hfalse' => simp [ne_bool hfalse htrue]

/-! ## Numbers -/

section Numbers

variable [Numeral ν] {n : ν}

theorem normal_neg (h : t.Normal) : (neg t).Normal := by
  unfold neg
  split
  · exact .number _
  · cases h; assumption
  · rename_i hnumber hneg
    refine .negTerm ?_ h
    unfold KeepsSign
    split
    · exact hnumber _ rfl
    · exact hneg _ rfl
    · trivial

theorem normal_arith (op : ArithOp) (ha : a.Normal) (hb : b.Normal) : (arith op a b).Normal := by
  unfold arith
  split
  · split
    · exact .number _
    · exact .arithTerm op ha hb
  · exact .arithTerm op ha hb

theorem normal_compare (op : CompareOp) (ha : a.Normal) (hb : b.Normal) :
    (compare op a b).Normal := by
  unfold compare
  split
  · exact .bool _
  · exact .compareTerm op ha hb

theorem normal_toBool (h : t.Normal) : (toBool t).Normal := by
  unfold toBool
  split
  · exact h
  · exact normal_compare .ne h (.number _)

/-- Only the negatives of literals are literals. -/
theorem neg_eq_number (h : t.Normal) : neg t = number n ↔ ∃ m, t = number m ∧ Numeral.neg m = n := by
  cases h with
  | number m => simp [neg]
  | @negTerm arg hkeeps =>
    have hnumber : arg ≠ number n := fun h => by simp [h, KeepsSign] at hkeeps
    simp [neg, hnumber]
  | _ => simp [neg]

theorem arith_eq_number {op : ArithOp} :
    arith op a b = number n ↔ ∃ x y, a = number x ∧ b = number y ∧ op.result? x y = some n := by
  fun_cases arith op a b with
  | case1 x y m hm => simp [hm]
  | case2 x y hnone => simp [hnone]
  | case3 _ _ hliteral => simpa using fun x hx y hy => (hliteral x y hx hy).elim

theorem compare_eq_bool {op : CompareOp} :
    compare op a b = bool c ↔ ∃ x y, a = number x ∧ b = number y ∧ op.holds x y = c := by
  fun_cases compare op a b with
  | case1 x y => simp
  | case2 _ _ hliteral => simpa using fun x hx y hy => (hliteral x y hx hy).elim

end Numbers

end QueryTaint.Term
