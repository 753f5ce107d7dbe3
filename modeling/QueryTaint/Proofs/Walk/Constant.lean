import QueryTaint.Proofs.Term.Normal
import QueryTaint.Walk.Condition

/-!
# Conditions that are constant

Operators are evaluated twice: on scalars, and on what is known of operands in the term of a condition.
A `Meaning` agrees with a scalar if it does not say anything else about it (`Meaning.Agrees`), and
operators and casts keep meanings in agreement with the values that they have on scalars
(`Meaning.binary_agrees`, `Meaning.unary_agrees`, `Meaning.cast_agrees`). So a condition that is
constant is the truth of the operand's value (`Moment.condition_of_evaluates`).

In two places they part, and `Moment.Evaluates` leaves these out: a cast to an integer keeps a fraction
in the meaning (`Meaning.cast_int`), and null counts as identical to a falsehood that is a term
(`Meaning.identity_null`).
-/

namespace QueryTaint

/-- Scalars that are identical are of one kind. -/
theorem Scalar.sameKind_and_strictEq (u v : Scalar Float) :
    (u.sameKind v && u.strictEq v) = u.strictEq v := by
  cases u <;> cases v <;> rfl

theorem Scalar.strictEq_bool_comm (u : Scalar Float) (b : Bool) :
    u.strictEq (bool b) = (bool b : Scalar Float).strictEq u := by
  cases u with
  | bool c => exact Bool.beq_comm
  | _ => rfl

namespace Meaning

/-- The meaning is right about a value: it is the value, or a term that is a literal for it if it is a
literal at all. -/
inductive Agrees : Meaning → Scalar Float → Prop
  | concrete (s : Scalar Float) : Agrees (concrete s) s
  | input (key : String) (s : Scalar Float) : Agrees (input key) s
  | truth {t : Term Float} {b : Bool} : t.Normal → t.HasSort .bool → (∀ c, t = .bool c → c = b) →
    Agrees (term t) (.bool b)
  | number {t : Term Float} {n : Float} : t.Normal → t.HasSort .number → (∀ m, t ≠ .number m) →
    Agrees (term t) (.number n)

variable {l r x : Meaning} {s u v : Scalar Float} {t t' : Term Float} {at_ : OperandId} {b c : Bool}

/-! ## Truth values -/

theorem Agrees.of_bool (h : (term t).Agrees (.bool b)) :
    t.Normal ∧ t.HasSort .bool ∧ ∀ c, t = .bool c → c = b := by
  cases h with
  | truth hn hs hb => exact ⟨hn, hs, hb⟩

theorem Agrees.literal (b : Bool) : (term (.bool b)).Agrees (.bool b) :=
  .truth (.bool b) (.bool b) fun _ h => (Term.bool.inj h).symm

/-- A variable agrees with either value. -/
theorem Agrees.boolVar (name : String) (b : Bool) : (term (.boolVar name)).Agrees (.bool b) :=
  .truth (.boolVar name) (.boolVar name) nofun

/-- The truth value of a meaning is right about the truth of the value. -/
theorem Agrees.toBool (h : x.Agrees s) : (term x.toBool).Agrees (.bool s.truthy) := by
  cases h with
  | concrete => exact .literal _
  | input key => exact .boolVar _ _
  | @truth t b hn hs hb =>
    have hself : (term t).toBool = t := by rw [Meaning.toBool, Term.toBool, hs.sort_eq]
    rw [hself]
    exact .truth hn hs hb
  | @number t n hn hs hlit =>
    refine .truth (Term.normal_toBool hn) (Term.hasSort_toBool hs) fun c h => ?_
    simp [Meaning.toBool, Term.toBool, hs.sort_eq, Term.compare_eq_bool, hlit] at h

theorem Agrees.not (h : (term t).Agrees (.bool b)) : (term t.not).Agrees (.bool !b) := by
  obtain ⟨hn, hs, hb⟩ := h.of_bool
  refine .truth (Term.normal_not hn) (Term.hasSort_not hs) fun c hc => ?_
  rw [← hb _ ((Term.not_eq_bool hn).1 hc), Bool.not_not]

theorem Agrees.iff (h : (term t).Agrees (.bool b)) (h' : (term t').Agrees (.bool c)) :
    (term (t.iff t')).Agrees (.bool (b == c)) := by
  obtain ⟨hn, hs, hb⟩ := h.of_bool
  obtain ⟨hn', hs', hc⟩ := h'.of_bool
  refine .truth (Term.normal_iff hn hn') (Term.hasSort_iff hs hs') fun d hd => ?_
  obtain ⟨x, y, rfl, rfl, rfl⟩ := (Term.iff_eq_bool hn hn').1 hd
  rw [hb x rfl, hc y rfl]

theorem Agrees.xor (h : (term t).Agrees (.bool b)) (h' : (term t').Agrees (.bool c)) :
    (term (t.xor t')).Agrees (.bool (b != c)) := by
  obtain ⟨hn, hs, hb⟩ := h.of_bool
  obtain ⟨hn', hs', hc⟩ := h'.of_bool
  refine .truth (Term.normal_xor hn hn') (Term.hasSort_xor hs hs') fun d hd => ?_
  obtain ⟨x, y, rfl, rfl, rfl⟩ := (Term.xor_eq_bool hn hn').1 hd
  rw [hb x rfl, hc y rfl]

theorem Agrees.and (h : (term t).Agrees (.bool b)) (h' : (term t').Agrees (.bool c)) :
    (term (.and [t, t'])).Agrees (.bool (b && c)) := by
  obtain ⟨hn, hs, hb⟩ := h.of_bool
  obtain ⟨hn', hs', hc⟩ := h'.of_bool
  have hnormal : ∀ u ∈ [t, t'], u.Normal := by simp [hn, hn']
  have hsort : ∀ u ∈ [t, t'], u.HasSort .bool := by simp [hs, hs']
  refine .truth (Term.normal_and hnormal) (Term.hasSort_and hsort) fun d hd => ?_
  cases d with
  | true =>
    have hall := (Term.and_eq_true hnormal).1 hd
    rw [← hb true (hall t (by simp)), ← hc true (hall t' (by simp)), Bool.and_self]
  | false =>
    have hmem : t = .bool false ∨ t' = .bool false := by
      simpa [eq_comm] using (Term.and_eq_false hnormal).1 hd
    rcases hmem with hmem | hmem
    · rw [← hb false hmem, Bool.false_and]
    · rw [← hc false hmem, Bool.and_false]

theorem Agrees.or (h : (term t).Agrees (.bool b)) (h' : (term t').Agrees (.bool c)) :
    (term (.or [t, t'])).Agrees (.bool (b || c)) := by
  obtain ⟨hn, hs, hb⟩ := h.of_bool
  obtain ⟨hn', hs', hc⟩ := h'.of_bool
  have hnormal : ∀ u ∈ [t, t'], u.Normal := by simp [hn, hn']
  have hsort : ∀ u ∈ [t, t'], u.HasSort .bool := by simp [hs, hs']
  refine .truth (Term.normal_or hnormal) (Term.hasSort_or hsort) fun d hd => ?_
  cases d with
  | false =>
    have hall := (Term.or_eq_false hnormal).1 hd
    rw [← hb false (hall t (by simp)), ← hc false (hall t' (by simp)), Bool.or_self]
  | true =>
    have hmem : t = .bool true ∨ t' = .bool true := by
      simpa [eq_comm] using (Term.or_eq_true hnormal).1 hd
    rcases hmem with hmem | hmem
    · rw [← hb true hmem, Bool.true_or]
    · rw [← hc true hmem, Bool.or_true]

/-! ## Numbers -/

/-- The number of a meaning is a literal only where the meaning is a scalar. -/
theorem Agrees.toNumber? (h : x.Agrees s) (hx : x.toNumber? = some t) :
    t.Normal ∧ t.HasSort .number ∧ ∀ m, t = .number m → x = Meaning.concrete s := by
  cases h with
  | concrete =>
    obtain ⟨n, -, rfl⟩ := Option.map_eq_some_iff.1 hx
    exact ⟨.number n, .number n, fun _ _ => rfl⟩
  | input key =>
    cases hx
    exact ⟨.numVar _, .numVar _, fun _ h => by cases h⟩
  | truth hn hs => simp [Meaning.toNumber?, hs.sort_eq] at hx
  | number hn hs hlit =>
    simp only [Meaning.toNumber?, hs.sort_eq, if_true, Option.some.injEq] at hx
    subst hx
    exact ⟨hn, hs, fun m hm => absurd hm (hlit m)⟩

/-- Equations of numbers are no literals, unless both are those of scalars. -/
theorem agrees_numberEquation (hl : l.Agrees u) (hr : r.Agrees v)
    (hopen : ∀ a b, l = concrete a → r ≠ concrete b) :
    (term (numberEquation at_ l.toNumber? r.toNumber?).value).Agrees (.bool b) := by
  unfold numberEquation
  split
  · rename_i t t' ht ht'
    obtain ⟨hn, hs, hlit⟩ := hl.toNumber? ht
    obtain ⟨hn', hs', hlit'⟩ := hr.toNumber? ht'
    refine .truth (Term.normal_compare .eq hn hn') (Term.hasSort_compare .eq hs hs') fun c hc => ?_
    obtain ⟨x, y, hx, hy, -⟩ := Term.compare_eq_bool.1 hc
    exact absurd (hlit' y hy) (hopen _ _ (hlit x hx))
  · exact .boolVar _ _

/-! ## Equations -/

/-- The meaning is no known truth value. -/
def Open (x : Meaning) : Prop := ∀ b, x.toBool ≠ .bool b

theorem not_open_concrete (s : Scalar Float) : ¬ (concrete s).Open := fun h => h s.truthy rfl

theorem toBool_of_sort (h : t.sort = .bool) : (term t).toBool = t := by
  rw [Meaning.toBool, Term.toBool, h]

theorem Agrees.of_open (h : x.Agrees s) (hopen : x.Open) (b : Bool) :
    (term x.toBool).Agrees (.bool b) := by
  obtain ⟨hn, hs, -⟩ := h.toBool.of_bool
  exact .truth hn hs fun c hc => absurd hc (hopen c)

/-- A meaning that is a known truth value is a scalar or the literal. -/
theorem Agrees.cases_of_not_open (h : x.Agrees s) (hx : ¬ x.Open) :
    x = Meaning.concrete s ∨ ∃ b, x = term (.bool b) ∧ s = .bool b := by
  cases h with
  | concrete => exact .inl rfl
  | input key => exact absurd (fun b h => by cases h) hx
  | @truth t b hn hs hb =>
    simp only [Open, toBool_of_sort hs.sort_eq, not_forall, not_not] at hx
    obtain ⟨c, rfl⟩ := hx
    exact .inr ⟨b, by rw [hb c rfl], rfl⟩
  | @number t n hn hs hlit =>
    refine absurd (fun b h => ?_) hx
    simp [Meaning.toBool, Term.toBool, hs.sort_eq, Term.compare_eq_bool, hlit] at h

theorem Agrees.iff_left (h : ∀ b, (term t).Agrees (.bool b)) (h' : (term t').Agrees (.bool c)) :
    (term (t.iff t')).Agrees (.bool b) := by
  have hiff := (h (b == c)).iff h'
  rwa [show ((b == c) == c) = b by cases b <;> cases c <;> rfl] at hiff

theorem Agrees.iff_right (h : (term t).Agrees (.bool c)) (h' : ∀ b, (term t').Agrees (.bool b)) :
    (term (t.iff t')).Agrees (.bool b) := by
  have hiff := h.iff (h' (c == b))
  rwa [show (c == (c == b)) = b by cases b <;> cases c <;> rfl] at hiff

/-- An equation with what is not known is no literal. -/
theorem equality_open (hl : l.Agrees u) (hr : r.Agrees v) (hopen : l.Open ∨ r.Open) :
    (term (equality at_ l r).value).Agrees (.bool b) := by
  fun_cases equality at_ l r with
  | case1 a a' => exact (hopen.elim (not_open_concrete a) (not_open_concrete a')).elim
  | case2 c =>
    exact .iff_left (hr.of_open (hopen.resolve_left (not_open_concrete _))) (.literal c)
  | case3 =>
    exact .iff_left (hl.of_open (hopen.resolve_right (not_open_concrete _))) (.literal _)
  | case4 =>
    have h := (hr.of_open (hopen.resolve_left (not_open_concrete _)) !b).not
    rwa [Bool.not_not] at h
  | case5 =>
    have h := (hl.of_open (hopen.resolve_right (not_open_concrete _)) !b).not
    rwa [Bool.not_not] at h
  | case6 _ _ hconcrete =>
    exact agrees_numberEquation hr hl fun a _ h => absurd h (hconcrete a)
  | case7 _ _ hconcrete => exact agrees_numberEquation hl hr fun a _ h => absurd h (hconcrete a)
  | case8 t t' hsort =>
    simp only [Bool.and_eq_true, decide_eq_true_eq] at hsort
    have ht := toBool_of_sort hsort.1
    have ht' := toBool_of_sort hsort.2
    rcases hopen with h | h
    · exact .iff_left (ht ▸ hl.of_open h) (ht' ▸ hr.toBool)
    · exact .iff_right (ht ▸ hl.toBool) (ht' ▸ hr.of_open h)
  | case9 => exact agrees_numberEquation hl hr fun a _ h => by cases h
  | case10 _ _ _ _ _ _ _ hconcrete =>
    exact agrees_numberEquation hl hr fun a _ h => absurd h (hconcrete a)

theorem equality_agrees (hl : l.Agrees u) (hr : r.Agrees v) :
    (term (equality at_ l r).value).Agrees (.bool (u.looseEq v)) := by
  by_cases hopen : l.Open ∨ r.Open
  · exact equality_open hl hr hopen
  · rw [not_or] at hopen
    rcases hl.cases_of_not_open hopen.1 with rfl | ⟨b, rfl, rfl⟩ <;>
      rcases hr.cases_of_not_open hopen.2 with rfl | ⟨c, rfl, rfl⟩
    · exact .literal _
    · cases u with
      | null => cases c <;> exact .literal _
      | bool b => cases b <;> cases c <;> exact .literal _
      | _ => exact .boolVar _ _
    · cases v with
      | null => cases b <;> exact .literal _
      | bool c => cases b <;> cases c <;> exact .literal _
      | _ => exact .boolVar _ _
    · cases b <;> cases c <;> exact .literal _

theorem agrees_identical_bool (h : (term t).Agrees v) :
    (term (if t.sort = .bool then t.iff (.bool b) else .bool false)).Agrees
      (.bool (v.strictEq (.bool b))) := by
  cases h with
  | truth hn hs hb =>
    rw [if_pos hs.sort_eq]
    exact (Agrees.truth hn hs hb).iff (.literal b)
  | number hn hs hlit =>
    rw [if_neg (by rw [hs.sort_eq]; decide)]
    exact .literal false

theorem agrees_identical_number {n : Float} (h : (term t).Agrees v)
    (hkind : ∀ c, v = .bool c → b = false) :
    (term (if t.sort = .number then .compare .eq t (.number n) else .bool false)).Agrees
      (.bool b) := by
  cases h with
  | @truth t c hn hs hb =>
    rw [if_neg (by rw [hs.sort_eq]; decide), hkind c rfl]
    exact .literal false
  | number hn hs hlit =>
    rw [if_pos hs.sort_eq]
    refine .truth (Term.normal_compare .eq hn (.number n))
      (Term.hasSort_compare .eq hs (.number n)) fun c hc => ?_
    simp [Term.compare_eq_bool, hlit] at hc

/-- A strict equation agrees with the one of scalars, unless it is one of null and a falsehood. -/
theorem identity_agrees (hl : l.Agrees u) (hr : r.Agrees v)
    (hnull : ¬ (u = .null ∧ v = .bool false) ∧ ¬ (u = .bool false ∧ v = .null)) :
    (term (identity at_ l r).value).Agrees (.bool (u.strictEq v)) := by
  fun_cases identity at_ l r with
  | case1 a b =>
    cases hl
    cases hr
    change (term (.bool (u.sameKind v && u.strictEq v))).Agrees _
    rw [Scalar.sameKind_and_strictEq]
    exact .literal _
  | case2 b t =>
    cases hl
    rw [← Scalar.strictEq_bool_comm]
    exact agrees_identical_bool hr
  | case3 t b =>
    cases hr
    exact agrees_identical_bool hl
  | case4 n t =>
    cases hl
    exact agrees_identical_number hr fun c hc => by rw [hc]; rfl
  | case5 t n =>
    cases hr
    exact agrees_identical_number hl fun c hc => by rw [hc]; rfl
  | case6 _ _ hconcrete hbool hbool' hnumber hnumber' =>
    by_cases hopen : l.Open ∨ r.Open
    · exact equality_open hl hr hopen
    rw [not_or] at hopen
    rcases hl.cases_of_not_open hopen.1 with rfl | ⟨b, rfl, rfl⟩ <;>
      rcases hr.cases_of_not_open hopen.2 with rfl | ⟨c, rfl, rfl⟩
    · exact (hconcrete u v rfl rfl).elim
    · cases u with
      | null =>
        cases c with
        | false => exact absurd ⟨rfl, rfl⟩ hnull.1
        | true => exact .literal false
      | bool b => exact (hbool b _ rfl rfl).elim
      | number n => exact (hnumber n _ rfl rfl).elim
      | string s => exact .boolVar _ _
    · cases v with
      | null =>
        cases b with
        | false => exact absurd ⟨rfl, rfl⟩ hnull.2
        | true => exact .literal false
      | bool c => exact (hbool' _ c rfl rfl).elim
      | number n => exact (hnumber' _ n rfl rfl).elim
      | string s => exact .boolVar _ _
    · cases b <;> cases c <;> exact .literal _

/-- In a strict equation null is compared to a term as in a loose one, so it counts as identical to a
falsehood, which it is not. -/
theorem identity_null (at_ : OperandId) (t : Term Float) :
    identity at_ (concrete .null) (term t) = pure t.toBool.not := rfl

/-! ## Operators -/

theorem exists_number_of_arithmetic? {f : Float → Float → Float}
    (hs : Scalar.arithmetic? f u v = some s) : ∃ n, s = .number n := by
  obtain ⟨x, -, hs⟩ := Option.bind_eq_some_iff.1 hs
  obtain ⟨y, -, hs⟩ := Option.bind_eq_some_iff.1 hs
  exact ⟨_, (Option.some.inj hs).symm⟩

theorem exists_number_of_arithOp? {op : BinaryOp} {arith : ArithOp} (hop : arithOp? op = some arith)
    (hs : Scalar.binary? op u v = some s) : ∃ n, s = .number n := by
  unfold arithOp? at hop
  split at hop
  · exact exists_number_of_arithmetic? hs
  · exact exists_number_of_arithmetic? hs
  · exact exists_number_of_arithmetic? hs
  · obtain ⟨divisor, -, hs⟩ := Option.bind_eq_some_iff.1 hs
    exact exists_number_of_arithmetic? (Option.ite_none_left_eq_some.1 hs).2
  · cases hop

theorem exists_bool_of_compareOp? {op : BinaryOp} {order : CompareOp}
    (hop : compareOp? op = some order) (hs : Scalar.binary? op u v = some s) : ∃ b, s = .bool b := by
  unfold compareOp? at hop
  split at hop
  case h_5 => cases hop
  all_goals
    obtain ⟨o, -, rfl⟩ := Option.map_eq_some_iff.1 hs
    exact ⟨_, rfl⟩

/-- An operator on numbers gives no literal, unless both numbers are those of scalars. -/
theorem agrees_numberTerm? {op : BinaryOp} {x y : Term Float} (hl : l.Agrees u) (hr : r.Agrees v)
    (hopen : ∀ a b, l = concrete a → r ≠ concrete b) (hs : Scalar.binary? op u v = some s)
    (hx : l.toNumber? = some x) (hy : r.toNumber? = some y) (ht : numberTerm? op x y = some t) :
    (term t).Agrees s := by
  obtain ⟨hn, hsort, hlit⟩ := hl.toNumber? hx
  obtain ⟨hn', hsort', hlit'⟩ := hr.toNumber? hy
  have hnot {m m'} (hm : x = .number m) (hm' : y = .number m') : False :=
    hopen _ _ (hlit m hm) (hlit' m' hm')
  rcases Option.or_eq_some_iff.1 ht with ht | ⟨-, ht⟩
  · obtain ⟨arith, hop, rfl⟩ := Option.map_eq_some_iff.1 ht
    obtain ⟨n, rfl⟩ := exists_number_of_arithOp? hop hs
    refine .number (Term.normal_arith arith hn hn') (Term.hasSort_arith arith hsort hsort') ?_
    intro m hm
    obtain ⟨_, _, hm, hm', -⟩ := Term.arith_eq_number.1 hm
    exact hnot hm hm'
  · obtain ⟨order, hop, rfl⟩ := Option.map_eq_some_iff.1 ht
    obtain ⟨b, rfl⟩ := exists_bool_of_compareOp? hop hs
    refine .truth (Term.normal_compare order hn hn') (Term.hasSort_compare order hsort hsort') ?_
    intro c hc
    obtain ⟨_, _, hm, hm', -⟩ := Term.compare_eq_bool.1 hc
    exact (hnot hm hm').elim

theorem agrees_termOr {o : Option (Term Float)} (h : ∀ t, o = some t → (term t).Agrees s) :
    (termOr at_ o).value.Agrees s := by
  cases o with
  | none => exact .input _ s
  | some t => exact h t rfl

/-- A binary operator agrees with the one on scalars, unless it is a strict equation of null and a
falsehood. -/
theorem binary_agrees {op : BinaryOp} (hl : l.Agrees u) (hr : r.Agrees v)
    (hs : Scalar.binary? op u v = some s)
    (hnull : op = .identical ∨ op = .notIdentical →
      ¬ (u = .null ∧ v = .bool false) ∧ ¬ (u = .bool false ∧ v = .null)) :
    (binary at_ op l r).value.Agrees s := by
  have hfold {a b} (ha : l = concrete a) (hb : r = concrete b) : folded? op l r = some s := by
    subst ha hb
    cases hl
    cases hr
    exact hs
  unfold binary
  split
  · rename_i s' hsome
    unfold folded? at hsome
    split at hsome
    · cases hl
      cases hr
      cases hs.symm.trans hsome
      exact .concrete s
    · cases hsome
  · rename_i hnone
    have hopen : ∀ a b, l = concrete a → r ≠ concrete b := fun a b ha hb => by
      cases hnone.symm.trans (hfold ha hb)
    split
    · cases hs
      exact equality_agrees hl hr
    · cases hs
      exact (equality_agrees hl hr).not
    · cases hs
      exact identity_agrees hl hr (hnull (.inl rfl))
    · cases hs
      exact (identity_agrees hl hr (hnull (.inr rfl))).not
    · cases hs
      exact hl.toBool.and hr.toBool
    · cases hs
      exact hl.toBool.or hr.toBool
    · cases hs
      exact hl.toBool.xor hr.toBool
    · refine agrees_termOr fun t ht => ?_
      obtain ⟨x, hx, ht⟩ := Option.bind_eq_some_iff.1 ht
      obtain ⟨y, hy, ht⟩ := Option.bind_eq_some_iff.1 ht
      exact agrees_numberTerm? hl hr hopen hs hx hy ht

theorem unary_agrees {op : UnaryOp} (hx : x.Agrees u) (hs : Scalar.unary? op u = some s) :
    (unary at_ op x).value.Agrees s := by
  have hfold {a} (ha : x = concrete a) : foldedUnary? op x = some s := by
    subst ha
    cases hx
    exact hs
  unfold unary
  split
  · rename_i s' hsome
    unfold foldedUnary? at hsome
    split at hsome
    · cases hx
      cases hs.symm.trans hsome
      exact .concrete s
    · cases hsome
  · rename_i hnone
    have hnumber {t m} (ht : x.toNumber? = some t) : t ≠ .number m := fun hm => by
      cases hnone.symm.trans (hfold ((hx.toNumber? ht).2.2 m hm))
    split
    · cases hs
      exact hx.toBool.not
    · refine agrees_termOr fun t ht => ?_
      obtain ⟨t, htx, rfl⟩ := Option.map_eq_some_iff.1 ht
      obtain ⟨n, -, rfl⟩ := Option.map_eq_some_iff.1 hs
      obtain ⟨hn, hsort, -⟩ := hx.toNumber? htx
      refine .number (Term.normal_neg hn) (Term.hasSort_neg hsort) fun m hm => ?_
      obtain ⟨m', hm', -⟩ := (Term.neg_eq_number hn).1 hm
      exact hnumber htx hm'
    · refine agrees_termOr fun t ht => ?_
      obtain ⟨n, -, rfl⟩ := Option.map_eq_some_iff.1 hs
      obtain ⟨hn, hsort, -⟩ := hx.toNumber? ht
      exact .number hn hsort fun m => hnumber ht
    · exact .input _ s

/-- Casts to integers and to numbers have the same meaning, with the fraction in both. -/
theorem cast_int (at_ : OperandId) (x : Meaning) : cast at_ .int x = cast at_ .double x := by
  cases x <;> rfl

/-- A cast agrees with the one of scalars, unless it cuts off a fraction. -/
theorem cast_agrees {kind : CastKind} (hx : x.Agrees u) (hs : Scalar.cast? kind u = some s)
    (hwhole : kind = .int → ∀ n, u.toNumber? = some n → s = .number n) :
    (cast at_ kind x).value.Agrees s := by
  have hnumber (hop : kind = .int ∨ kind = .double) : ∃ n, s = .number n := by
    rcases hop with rfl | rfl <;> obtain ⟨_, -, rfl⟩ := Option.map_eq_some_iff.1 hs <;> exact ⟨_, rfl⟩
  have hopen (hx' : ∀ a, x = concrete a → False) (hop : kind = .int ∨ kind = .double) :
      (termOr at_ x.toNumber?).value.Agrees s := by
    obtain ⟨n, rfl⟩ := hnumber hop
    refine agrees_termOr fun t ht => ?_
    obtain ⟨hn, hsort, hlit⟩ := hx.toNumber? ht
    exact .number hn hsort fun m hm => hx' _ (hlit m hm)
  fun_cases cast at_ kind x with
  | case1 =>
    cases hs
    exact hx.toBool
  | case2 a n hn =>
    cases hx
    rw [hwhole rfl n hn]
    exact .concrete _
  | case4 a n hn =>
    cases hx
    obtain ⟨m, hm, rfl⟩ := Option.map_eq_some_iff.1 hs
    cases hn.symm.trans hm
    exact .concrete _
  | case6 _ hconcrete => exact hopen hconcrete (.inl rfl)
  | case7 _ hconcrete => exact hopen hconcrete (.inr rfl)
  | case3 | case5 | case8 => exact .input _ s

end Meaning

namespace Moment

variable {m : Moment} {depth : Nat} {id : OperandId} {s : Scalar Float}

/-- An operation wrote the operand, or the one that overrides it. -/
def WrittenBy (m : Moment) (id : OperandId) (kind : OpKind) : Prop :=
  m.known? (m.overrides.follow maxChain id) = none ∧
    m.definition? (m.overrides.follow maxChain id) = some kind

/-- The value of an operand that is computed from literals, by at most some operations. A cast to an
integer must cut nothing off, and a strict equation must not be one of null and a falsehood. -/
inductive Evaluates (m : Moment) : Nat → OperandId → Scalar Float → Prop
  | literal (depth : Nat) {id : OperandId} {s : Scalar Float} :
    m.arena.literalOf? (m.overrides.follow maxChain id) = some s → Evaluates m depth id s
  | assign {depth : Nat} {id var expr result : OperandId} {s : Scalar Float} :
    m.WrittenBy id (.assign var expr result) → Evaluates m depth expr s →
    Evaluates m (depth + 1) id s
  | binary {depth : Nat} {id left right result : OperandId} {op : BinaryOp}
    {u v s : Scalar Float} :
    m.WrittenBy id (.binary op left right result) →
    Evaluates m depth left u → Evaluates m depth right v → Scalar.binary? op u v = some s →
    (op = .identical ∨ op = .notIdentical →
      ¬ (u = .null ∧ v = .bool false) ∧ ¬ (u = .bool false ∧ v = .null)) →
    Evaluates m (depth + 1) id s
  | unary {depth : Nat} {id expr result : OperandId} {op : UnaryOp} {u s : Scalar Float} :
    m.WrittenBy id (.unary op expr result) → Evaluates m depth expr u →
    Scalar.unary? op u = some s → Evaluates m (depth + 1) id s
  | cast {depth : Nat} {id expr result : OperandId} {kind : CastKind} {u s : Scalar Float} :
    m.WrittenBy id (.cast kind expr result) → Evaluates m depth expr u →
    Scalar.cast? kind u = some s →
    (kind = .int → ∀ n, u.toNumber? = some n → s = .number n) →
    Evaluates m (depth + 1) id s

theorem meaning_agrees (h : m.Evaluates depth id s) : (m.meaning depth id).value.Agrees s := by
  induction h with
  | @literal depth id s hliteral =>
    have hknown : m.known? (m.overrides.follow maxChain id) = some (.concrete s) := by
      rw [known?, hliteral]
    cases depth <;> simp only [meaning, hknown] <;> exact .concrete s
  | assign hwritten _ ih =>
    simp only [meaning, hwritten.1, hwritten.2]
    exact ih
  | binary hwritten _ _ hs hnull ihl ihr =>
    simp only [meaning, hwritten.1, hwritten.2]
    exact Meaning.binary_agrees ihl ihr hs hnull
  | unary hwritten _ hs ih =>
    simp only [meaning, hwritten.1, hwritten.2]
    exact Meaning.unary_agrees ih hs
  | cast hwritten _ hs hwhole ih =>
    simp only [meaning, hwritten.1, hwritten.2]
    exact Meaning.cast_agrees ih hs hwhole

/-- A condition that is constant is the truth of the value that its operand has. -/
theorem condition_of_evaluates (h : m.Evaluates maxDepth id s)
    (hground : (m.condition id).value.isGround) : (m.condition id).value = .bool s.truthy := by
  have hagrees : (Meaning.term (m.condition id).value).Agrees (.bool s.truthy) :=
    (meaning_agrees h).toBool
  obtain ⟨-, hs, hb⟩ := hagrees.of_bool
  generalize (m.condition id).value = t at hs hb hground
  cases hs with
  | bool c => rw [hb c rfl]
  | _ => cases hground

end Moment

end QueryTaint
