import Mathlib.Data.Set.Lattice
import QueryTaint.Ir.Arena

/-!
# What assertions say

Where every operand names a set of values (its type), an assertion has a set of values that satisfy
it (`Assertion.values`), with the negation of each level as complement. Flipping the outermost
negation gives the complement (`values_negation`). The test for the exclusion of strings takes the
negations around an assertion as an argument and so never complements anything: it moves them
inwards instead (`under_values_composite`). It is sound (`notMem_of_excludes`). Assertions that
are added to one operand say, of each variable, what all of them say (`values_assertAll`).
-/

namespace QueryTaint

universe u

variable {V : Type u}

/-- A set of values, or its complement if it is negated. -/
def under (negated : Bool) (values : Set V) : Set V :=
  if negated then valuesᶜ else values

@[simp] theorem under_false (values : Set V) : under false values = values := rfl

@[simp] theorem under_true (values : Set V) : under true values = valuesᶜ := rfl

theorem under_under (outer negated : Bool) (values : Set V) :
    under outer (under negated values) = under (outer != negated) values := by
  cases outer <;> cases negated <;> simp

theorem under_not (negated : Bool) (values : Set V) :
    under (!negated) values = (under negated values)ᶜ := by
  cases negated <;> simp

namespace Assertion

mutual

/-- The values that satisfy an assertion, where operands name types. -/
def values (types : OperandId → Set V) : Assertion → Set V
  | type value negated => under negated (types value)
  | composite children mode negated =>
    under negated (match mode with
      | .intersect => valuesAll types children
      | .union => valuesSome types children)

/-- The values that satisfy all of the assertions. -/
def valuesAll (types : OperandId → Set V) : List Assertion → Set V
  | [] => Set.univ
  | a :: rest => values types a ∩ valuesAll types rest

/-- The values that satisfy one of the assertions. -/
def valuesSome (types : OperandId → Set V) : List Assertion → Set V
  | [] => ∅
  | a :: rest => values types a ∪ valuesSome types rest

end

variable {types : OperandId → Set V} {injectable : Set V} {rigid : OperandId → Bool}

theorem mem_valuesAll {l : List Assertion} {v : V} :
    v ∈ valuesAll types l ↔ ∀ s ∈ l, v ∈ s.values types := by
  induction l with
  | nil => simp [valuesAll]
  | cons s l ih => rw [valuesAll, Set.mem_inter_iff, ih, List.forall_mem_cons]

theorem mem_valuesSome {l : List Assertion} {v : V} :
    v ∈ valuesSome types l ↔ ∃ s ∈ l, v ∈ s.values types := by
  induction l with
  | nil => simp [valuesSome]
  | cons s l ih => simp only [valuesSome, Set.mem_union, ih, List.mem_cons, exists_eq_or_imp]

/-- Negation denotes the complement. -/
theorem values_negation (s : Assertion) : s.negation.values types = (s.values types)ᶜ := by
  cases s with
  | type value negated => rw [negation, values, values, under_not]
  | composite children mode negated => cases mode <;> rw [negation, values, values, under_not]

/-! ## The exclusion of strings -/

/-- Whether a composite asks for all of its children once the negations around it are moved
inwards. -/
def asksForAll : AssertionMode → Bool → Bool
  | .intersect, negated => !negated
  | .union, negated => negated

/-- De Morgan's laws, for a composite under the negations around it. -/
theorem under_values_composite (outer : Bool) (children : List Assertion) (mode : AssertionMode)
    (negated : Bool) :
    under outer ((composite children mode negated).values types) =
      if asksForAll mode (outer != negated) then
        {v | ∀ s ∈ children, v ∈ under (outer != negated) (s.values types)}
      else {v | ∃ s ∈ children, v ∈ under (outer != negated) (s.values types)} := by
  ext v
  cases mode <;> rw [values, under_under] <;> cases outer != negated <;>
    simp [asksForAll, mem_valuesAll, mem_valuesSome]

theorem excludes_composite (outer : Bool) (children : List Assertion) (mode : AssertionMode)
    (negated : Bool) :
    (composite children mode negated).excludes rigid outer =
      if asksForAll mode (outer != negated) then excludesSome rigid (outer != negated) children
      else !children.isEmpty && excludesEvery rigid (outer != negated) children := by
  cases mode <;> cases outer <;> cases negated <;> rfl

mutual

/-- An assertion that excludes strings, negated by its surroundings if `outer` holds, is not
satisfied by an injectable value. -/
theorem notMem_of_excludes (hrigid : ∀ id, rigid id = true → ∀ v ∈ injectable, v ∉ types id)
    (outer : Bool) : ∀ s : Assertion, s.excludes rigid outer = true →
      ∀ v ∈ injectable, v ∉ under outer (s.values types)
  | type value negated, h => by
    rw [excludes, Bool.and_eq_true, beq_iff_eq] at h
    rw [values, under_under, h.1, bne_self_eq_false, under_false]
    exact hrigid value h.2
  | composite children mode negated, h => by
    rw [excludes_composite] at h
    rw [under_values_composite]
    split at h
    case isTrue hall =>
      obtain ⟨s, hs, hnone⟩ := exists_notMem_of_excludesSome hrigid _ children h
      rw [if_pos hall]
      exact fun v hv hmem => hnone v hv (hmem s hs)
    case isFalse hsome =>
      have hnone := forall_notMem_of_excludesEvery hrigid _ children (Bool.and_eq_true_iff.1 h).2
      rw [if_neg hsome]
      rintro v hv ⟨s, hs, hmem⟩
      exact hnone s hs v hv hmem

theorem exists_notMem_of_excludesSome
    (hrigid : ∀ id, rigid id = true → ∀ v ∈ injectable, v ∉ types id) (outer : Bool) :
    ∀ l : List Assertion, excludesSome rigid outer l = true →
      ∃ s ∈ l, ∀ v ∈ injectable, v ∉ under outer (s.values types)
  | [], h => by simp [excludesSome] at h
  | s :: rest, h => by
    rw [excludesSome, Bool.or_eq_true] at h
    simp only [List.mem_cons, exists_eq_or_imp]
    exact h.imp (notMem_of_excludes hrigid outer s) (exists_notMem_of_excludesSome hrigid outer rest)

theorem forall_notMem_of_excludesEvery
    (hrigid : ∀ id, rigid id = true → ∀ v ∈ injectable, v ∉ types id) (outer : Bool) :
    ∀ l : List Assertion, excludesEvery rigid outer l = true →
      ∀ s ∈ l, ∀ v ∈ injectable, v ∉ under outer (s.values types)
  | [], _ => List.forall_mem_nil _
  | s :: rest, h => by
    rw [excludesEvery, Bool.and_eq_true] at h
    rw [List.forall_mem_cons]
    exact ⟨notMem_of_excludes hrigid outer s h.1, forall_notMem_of_excludesEvery hrigid outer rest h.2⟩

end

/-! ## Conjunctions -/

mutual

theorem eq_of_same : ∀ s t : Assertion, s.same t = true → s = t
  | type v n, type v' n', h => by
    simp only [same, Bool.and_eq_true, decide_eq_true_eq, beq_iff_eq] at h
    rw [h.1, h.2]
  | composite c m n, composite c' m' n', h => by
    simp only [same, Bool.and_eq_true, decide_eq_true_eq, beq_iff_eq] at h
    rw [eq_of_sameAll c c' h.1.1, h.1.2, h.2]
  | type _ _, composite _ _ _, h => by simp [same] at h
  | composite _ _ _, type _ _, h => by simp [same] at h

theorem eq_of_sameAll : ∀ l l' : List Assertion, sameAll l l' = true → l = l'
  | [], [], _ => rfl
  | s :: l, t :: l', h => by
    rw [sameAll, Bool.and_eq_true] at h
    rw [eq_of_same s t h.1, eq_of_sameAll l l' h.2]
  | [], _ :: _, h => by simp [sameAll] at h
  | _ :: _, [], h => by simp [sameAll] at h

end

/-- A conjunction is satisfied by what satisfies both, whether it is a new composite or the old one
with one child more. -/
theorem values_conjoin (s t : Assertion) :
    (s.conjoin t).values types = s.values types ∩ t.values types := by
  ext v
  unfold conjoin
  split
  · simp [values, mem_valuesAll, or_imp, forall_and]
  · simp [values, valuesAll]

end Assertion

/-! ## Assertions on variables -/

/-- The values that a list of assertions leaves to a variable. -/
def VarAssertion.values (types : OperandId → Set V) (l : List VarAssertion) (var : OperandId) :
    Set V :=
  {v | ∀ s ∈ l, s.var = var → v ∈ s.assertion.values types}

namespace Operand

variable {types : OperandId → Set V}

/-- Adds assertions to an operand, one after the other. -/
def assertAll (o : Operand) (added : List VarAssertion) : Operand :=
  added.foldl (fun o s => o.addAssertion s.var s.assertion) o

theorem values_joinAssertion (added : VarAssertion) (l : List VarAssertion) (var : OperandId) :
    VarAssertion.values types (joinAssertion added.var added.assertion l) var =
      VarAssertion.values types (added :: l) var := by
  induction l with
  | nil => rfl
  | cons known rest ih =>
    ext v
    have hrest := Set.ext_iff.1 ih v
    simp only [VarAssertion.values, Set.mem_ofPred_eq, List.forall_mem_cons] at hrest ⊢
    rw [joinAssertion]
    split
    case isTrue hvar =>
      split
      case isTrue hsame =>
        rw [List.forall_mem_cons, Assertion.eq_of_same _ _ hsame, hvar]
        tauto
      case isFalse =>
        rw [List.forall_mem_cons, Assertion.values_conjoin, hvar, Set.mem_inter_iff]
        tauto
    case isFalse =>
      rw [List.forall_mem_cons, hrest]
      tauto

/-- Assertions that are added to an operand leave to each variable what all of them leave to it
together, whatever their order is and however often one of them is added. -/
theorem values_assertAll (o : Operand) (added : List VarAssertion) (var : OperandId) :
    VarAssertion.values types (o.assertAll added).assertions var =
      VarAssertion.values types o.assertions var ∩
        {v | ∀ s ∈ added, s.var = var → v ∈ s.assertion.values types} := by
  induction added generalizing o with
  | nil => simp [assertAll]
  | cons s added ih =>
    have hstep : (o.assertAll (s :: added)) = (o.addAssertion s.var s.assertion).assertAll added :=
      rfl
    rw [hstep, ih, addAssertion, values_joinAssertion]
    ext v
    simp only [VarAssertion.values, Set.mem_inter_iff, Set.mem_ofPred_eq, List.forall_mem_cons]
    tauto

theorem mem_vars_joinAssertion {var x : OperandId} {a : Assertion} {l : List VarAssertion} :
    x ∈ (joinAssertion var a l).map (·.var) ↔ x = var ∨ x ∈ l.map (·.var) := by
  induction l with
  | nil => simp [joinAssertion]
  | cons known rest ih =>
    rw [joinAssertion]
    split
    case isTrue hvar => split <;> simp [hvar]
    case isFalse =>
      rw [List.map_cons, List.mem_cons, ih, List.map_cons, List.mem_cons]
      tauto

theorem nodup_joinAssertion {var : OperandId} {a : Assertion} {l : List VarAssertion}
    (h : (l.map (·.var)).Nodup) : ((joinAssertion var a l).map (·.var)).Nodup := by
  induction l with
  | nil => simp [joinAssertion]
  | cons known rest ih =>
    have hcons := List.nodup_cons.1 h
    rw [joinAssertion]
    split
    case isTrue hvar => split <;> simpa [← hvar] using h
    case isFalse hvar =>
      rw [List.map_cons, List.nodup_cons, mem_vars_joinAssertion]
      exact ⟨fun hmem => hmem.elim hvar hcons.1, ih hcons.2⟩

/-- Of each variable an operand keeps a single assertion. -/
theorem nodup_assertAll {o : Operand} (added : List VarAssertion)
    (h : (o.assertions.map (·.var)).Nodup) : ((o.assertAll added).assertions.map (·.var)).Nodup := by
  induction added generalizing o with
  | nil => exact h
  | cons s added ih => exact ih (nodup_joinAssertion h)

end Operand

namespace Arena

/-- The types that operands name: a string names a type, and what else an operand may name is
given for each operand. -/
def typesOf (a : Arena) (named : String → Set V) (other : OperandId → Set V) (id : OperandId) :
    Set V :=
  match a.stringOf? id with
  | some name => named name
  | none => other id

theorem notMem_of_isRigidType {a : Arena} {named : String → Set V} {other : OperandId → Set V}
    {injectable : Set V}
    (h : ∀ name, lowerAscii name ∈ Assertion.nonStringTypes → ∀ v ∈ injectable, v ∉ named name)
    {id : OperandId} (hid : a.isRigidType id = true) :
    ∀ v ∈ injectable, v ∉ a.typesOf named other id := by
  rw [isRigidType] at hid
  rw [typesOf]
  cases hname : a.stringOf? id with
  | none =>
    rw [hname] at hid
    cases hid
  | some name =>
    rw [hname] at hid
    exact h name (of_decide_eq_true hid)

/-- The algebra of assertions is sound, for every meaning of type names by which no injectable
value has one of the types that are taken for rigid. -/
theorem assertions_sound (a : Arena) (named : String → Set V) (other : OperandId → Set V)
    (injectable : Set V)
    (hrigid : ∀ name, lowerAscii name ∈ Assertion.nonStringTypes →
      ∀ v ∈ injectable, v ∉ named name) :
    (∀ s : Assertion, a.excludesStrings s = true →
      ∀ v ∈ injectable, v ∉ s.values (a.typesOf named other)) ∧
    (∀ s : Assertion,
      s.negation.values (a.typesOf named other) = (s.values (a.typesOf named other))ᶜ) ∧
    ∀ (o : Operand) (added : List VarAssertion), (o.assertions.map (·.var)).Nodup →
      ((o.assertAll added).assertions.map (·.var)).Nodup ∧
      ∀ var, VarAssertion.values (a.typesOf named other) (o.assertAll added).assertions var =
        VarAssertion.values (a.typesOf named other) o.assertions var ∩
          {v | ∀ s ∈ added, s.var = var → v ∈ s.assertion.values (a.typesOf named other)} := by
  refine ⟨fun s h => ?_, Assertion.values_negation, fun o added h => ?_⟩
  · exact Assertion.notMem_of_excludes (fun _ => notMem_of_isRigidType hrigid) false s h
  · exact ⟨Operand.nodup_assertAll added h, Operand.values_assertAll o added⟩

/-- Values are texts or no text (`none`), and the types that are taken for rigid have no texts. Then
`!(!is_int($x) || is_string($x))` lets no text through, and of `is_string($x)`, added twice, and
`is_int($x)` no value is left. -/
theorem assertions_sound_text :
    let a : Arena :=
      { operands := #[{ kind := .scalar (.string "Int") }, { kind := .scalar (.string "string") }] }
    let named (name : String) : Set (Option String) :=
      if lowerAscii name ∈ Assertion.nonStringTypes then {none} else Set.range some
    let types := a.typesOf named fun _ => Set.univ
    let int : Assertion := .type ⟨0⟩ false
    let string : Assertion := .type ⟨1⟩ false
    let fresh : Operand := { kind := .temporary none }
    (∀ v ∈ Set.range some, v ∉ Assertion.values types (.composite [int.negation, string] .union true)) ∧
      VarAssertion.values types
        (fresh.assertAll [⟨⟨5⟩, string⟩, ⟨⟨5⟩, int⟩, ⟨⟨5⟩, string⟩]).assertions ⟨5⟩ = ∅ := by
  intro a named types int string fresh
  have hsound := assertions_sound a named (fun _ => Set.univ) (Set.range some) fun name hname => by
    simp [named, hname]
  refine ⟨hsound.1 _ (by decide +kernel), ?_⟩
  rw [(hsound.2.2 fresh _ List.nodup_nil).2 ⟨5⟩]
  have hint : int.values types = {none} := by
    have hname : lowerAscii "Int" ∈ Assertion.nonStringTypes := by decide +kernel
    exact if_pos hname
  have hstring : string.values types = Set.range some := by
    have hname : lowerAscii "string" ∉ Assertion.nonStringTypes := by decide +kernel
    exact if_neg hname
  ext v
  cases v <;> simp [hint, hstring, types]

end Arena

end QueryTaint
