import Mathlib.Data.Prod.Basic
import QueryTaint.Proofs.Relabel.Embed
import QueryTaint.Proofs.Relabel.Term
import QueryTaint.Proofs.Text.Label
import QueryTaint.Walk.Condition

/-!
# The terms of conditions with new numbers

An operand without a model becomes a variable that is named by its number. So the terms of conditions
get new names for their variables when operands get new numbers, and are the same otherwise
(`Moment.Twin.meaning`). Different numbers give different names (`Relabel.exists_naming`).
-/

namespace QueryTaint

/-! ## Names for numbers -/

namespace Meaning

/-- The name of an input. -/
def inputKey (id : OperandId) : String := "in" ++ toString id.index

/-- The name of the truth value or the number that a name is used for. -/
def sortKey (key : String) (sort : TermSort) : String :=
  key ++ match sort with
    | .bool => ":bool"
    | .number => ":num"

end Meaning

open Meaning in
/-- New names for inputs and unknowns and for the variables of terms, as the operands that they stand
for get new numbers. -/
structure Relabel.Naming (ρ : Relabel) where
  key : String → String
  var : String → String
  injective : var.Injective
  sorts (k : String) (sort : TermSort) : var (sortKey k sort) = sortKey (key k) sort
  unknowns (id : OperandId) : key (unknownKey id) = unknownKey (ρ.operand id)
  inputs (id : OperandId) : key (inputKey id) = inputKey (ρ.operand id)

/-- Names that are given to things can be changed as the things are, if different things have
different names. -/
theorem exists_renaming {α : Type} {name : α → String} (hname : name.Injective) {f : α → α}
    (hf : f.Injective) : ∃ σ : String → String, σ.Injective ∧ ∀ x, σ (name x) = name (f x) := by
  refine ⟨Function.extend name (name ∘ f) id, ?_, hname.extend_apply _ _⟩
  intro s s' h
  by_cases hs : ∃ x, name x = s
  · obtain ⟨x, rfl⟩ := hs
    rw [hname.extend_apply] at h
    by_cases hs' : ∃ x', name x' = s'
    · obtain ⟨x', rfl⟩ := hs'
      rw [hname.extend_apply] at h
      rw [hf (hname h)]
    · rw [Function.extend_apply' _ _ _ hs'] at h
      exact absurd ⟨_, h⟩ hs'
  · rw [Function.extend_apply' _ _ _ hs] at h
    by_cases hs' : ∃ x', name x' = s'
    · obtain ⟨x', rfl⟩ := hs'
      rw [hname.extend_apply] at h
      exact absurd ⟨_, h.symm⟩ hs
    · rwa [Function.extend_apply' _ _ _ hs'] at h

/-- The name of an operand as an input or without a model. -/
def operandKey (of : Bool × OperandId) : String :=
  if of.1 then Meaning.inputKey of.2 else Meaning.unknownKey of.2

theorem operandKey_injective : Function.Injective operandKey := by
  rintro ⟨b, x⟩ ⟨b', x'⟩ h
  -- the first letter tells inputs from others
  have hfirst := congrArg (fun key : String => key.toList.head?) h
  cases b <;> cases b' <;>
    simp only [operandKey, Meaning.inputKey, Meaning.unknownKey] at hfirst
  case false.true | true.false => simp at hfirst
  all_goals
    have hindex : x.index = x'.index := natText_injective ((String.append_right_inj _).1 h)
    rw [OperandId.ext_iff'.1 hindex]

theorem sortKey_injective :
    Function.Injective fun of : String × TermSort => Meaning.sortKey of.1 of.2 := by
  rintro ⟨key, sort⟩ ⟨key', sort'⟩ h
  -- the last letter tells truth values from numbers
  have hlast := congrArg (fun key : String => key.toList.getLast?) h
  cases sort <;> cases sort' <;>
    simp only [Meaning.sortKey, String.toList_append, List.getLast?_append] at hlast
  case bool.number | number.bool => simp at hlast
  all_goals
    have hkey : key = key' := (String.append_left_inj _).1 h
    rw [hkey]

theorem Relabel.exists_naming (ρ : Relabel) : Nonempty ρ.Naming := by
  have hkeys : Function.Injective (Prod.map id ρ.operand : Bool × OperandId → Bool × OperandId) :=
    Function.injective_id.prodMap ρ.operand_injective
  obtain ⟨key, hkey, hkeys⟩ := exists_renaming operandKey_injective hkeys
  have hvars : Function.Injective (Prod.map key id : String × TermSort → String × TermSort) :=
    hkey.prodMap Function.injective_id
  obtain ⟨var, hvar, hvars⟩ := exists_renaming sortKey_injective hvars
  exact ⟨key, var, hvar, fun k sort => hvars (k, sort), fun id => hkeys (false, id),
    fun id => hkeys (true, id)⟩

/-! ## Meanings -/

/-- A result of a function. -/
def Modeled.map {α β : Type} (f : α → β) (x : Modeled α) : Modeled β := ⟨f x.value, x.unknown⟩

@[simp] theorem Modeled.map_pure {α β : Type} (f : α → β) (x : α) :
    (pure x : Modeled α).map f = pure (f x) := rfl

theorem Modeled.map_bind {α α' β β' : Type} {f : α → α'} {g : β → β'} {x : Modeled α}
    {x' : Modeled α'} {k : α → Modeled β} {k' : α' → Modeled β'} (hx : x' = x.map f)
    (hk : ∀ y, k' (f y) = (k y).map g) : x' >>= k' = (x >>= k).map g := by
  subst hx
  change (⟨(k' (f x.value)).value, x.unknown || (k' (f x.value)).unknown⟩ : Modeled β') = _
  rw [hk]
  rfl

namespace Meaning

/-- A meaning with new names for variables. -/
def rename {ρ : Relabel} (n : ρ.Naming) : Meaning → Meaning
  | concrete value => concrete value
  | input k => input (n.key k)
  | term t => term (t.rename n.var)

variable {ρ : Relabel} (n : ρ.Naming)

theorem unknown_rename (id : OperandId) :
    unknown (ρ.operand id) = (unknown id).map (rename n) := by
  simp only [unknown, Modeled.map, rename, n.unknowns]

theorem toBool_rename (m : Meaning) :
    (m.rename n).toBool = m.toBool.rename n.var := by
  cases m with
  | concrete s => rfl
  | input k => exact congrArg Term.boolVar (n.sorts k .bool).symm
  | term t => exact Term.toBool_rename n.var t

theorem toNumber?_rename (m : Meaning) :
    (m.rename n).toNumber? = m.toNumber?.map (Term.rename n.var) := by
  cases m with
  | concrete s => simp [rename, toNumber?, Function.comp_def, Term.rename]
  | input k => exact congrArg (some ∘ Term.numVar) (n.sorts k .number).symm
  | term t =>
    rw [rename, toNumber?, toNumber?, Term.sort_rename]
    split <;> rfl

theorem unknownBool_rename (id : OperandId) :
    unknownBool (ρ.operand id) = (unknownBool id).map (Term.rename n.var) := by
  have hname := n.sorts (unknownKey id) .bool
  rw [n.unknowns] at hname
  exact congrArg (fun name => (⟨.boolVar name, true⟩ : Modeled (Term Float))) hname.symm

theorem termOr_rename (id : OperandId) (t : Option (Term Float)) :
    termOr (ρ.operand id) (t.map (Term.rename n.var)) = (termOr id t).map (rename n) := by
  cases t with
  | none => exact unknown_rename n id
  | some t => rfl

theorem numberEquation_rename (at_ : OperandId) (x y : Option (Term Float)) :
    numberEquation (ρ.operand at_) (x.map (Term.rename n.var)) (y.map (Term.rename n.var)) =
      (numberEquation at_ x y).map (Term.rename n.var) := by
  cases x with
  | none => exact unknownBool_rename n at_
  | some x =>
    cases y with
    | none => exact unknownBool_rename n at_
    | some y => exact congrArg pure (Term.compare_rename n.var .eq x y)

/-- The loose equation of a meaning and a scalar. -/
def scalarEquality (at_ : OperandId) (m : Meaning) : Scalar Float → Modeled (Term Float)
  | .bool b => pure (.iff m.toBool (.bool b))
  | .null => pure m.toBool.not
  | c => numberEquation at_ m.toNumber? (c.toNumber?.map .number)

theorem scalarEquality_rename (at_ : OperandId) (m : Meaning) (s : Scalar Float) :
    scalarEquality (ρ.operand at_) (m.rename n) s =
      (scalarEquality at_ m s).map (Term.rename n.var) := by
  have hnumber (t : Option (Term Float)) (ht : t.map (Term.rename n.var) = t) :
      numberEquation (ρ.operand at_) (m.rename n).toNumber? t =
        (numberEquation at_ m.toNumber? t).map (Term.rename n.var) := by
    rw [toNumber?_rename n, ← numberEquation_rename n, ht]
  cases s with
  | bool b =>
    rw [scalarEquality, scalarEquality, toBool_rename n]
    exact congrArg pure (Term.iff_rename n.var m.toBool (.bool b))
  | null =>
    rw [scalarEquality, scalarEquality, toBool_rename n]
    exact congrArg pure (Term.not_rename n.var m.toBool)
  | number n => exact hnumber (some (.number n)) rfl
  | string text =>
    refine hnumber _ ?_
    cases (Scalar.string text : Scalar Float).toNumber? <;> rfl

theorem equality_concrete (at_ : OperandId) (s : Scalar Float) {m : Meaning}
    (hm : ∀ c, m ≠ concrete c) :
    equality at_ (concrete s) m = scalarEquality at_ m s ∧
      equality at_ m (concrete s) = scalarEquality at_ m s := by
  cases m with
  | concrete c => exact absurd rfl (hm c)
  | _ => cases s <;> exact ⟨rfl, rfl⟩

theorem equality_rename (at_ : OperandId) (l r : Meaning) :
    equality (ρ.operand at_) (l.rename n) (r.rename n) =
      (equality at_ l r).map (Term.rename n.var) := by
  have hscalar (s : Scalar Float) (m : Meaning) (hm : ∀ c, m ≠ concrete c)
      (hm' : ∀ c, m.rename n ≠ concrete c) :
      equality (ρ.operand at_) (concrete s) (m.rename n) =
          (equality at_ (concrete s) m).map (Term.rename n.var) ∧
        equality (ρ.operand at_) (m.rename n) (concrete s) =
          (equality at_ m (concrete s)).map (Term.rename n.var) := by
    rw [(equality_concrete _ s hm).1, (equality_concrete _ s hm).2, (equality_concrete _ s hm').1,
      (equality_concrete _ s hm').2]
    exact ⟨scalarEquality_rename n at_ m s, scalarEquality_rename n at_ m s⟩
  have hnumbers := numberEquation_rename n at_ l.toNumber? r.toNumber?
  rw [← toNumber?_rename n, ← toNumber?_rename n] at hnumbers
  cases l with
  | concrete a =>
    cases r with
    | concrete b => rfl
    | input k => exact (hscalar a (.input k) nofun nofun).1
    | term t => exact (hscalar a (.term t) nofun nofun).1
  | input k =>
    cases r with
    | concrete b => exact (hscalar b (.input k) nofun nofun).2
    | _ => exact hnumbers
  | term t =>
    cases r with
    | concrete b => exact (hscalar b (.term t) nofun nofun).2
    | input k => exact hnumbers
    | term u =>
      simp only [rename, equality, Term.sort_rename]
      split
      · exact congrArg pure (Term.iff_rename n.var t u)
      · exact hnumbers

theorem identity_rename (at_ : OperandId) (l r : Meaning) :
    identity (ρ.operand at_) (l.rename n) (r.rename n) =
      (identity at_ l r).map (Term.rename n.var) := by
  have hloose := equality_rename n at_ l r
  have hbool (t : Term Float) (b : Bool) :
      (if (t.rename n.var).sort = .bool then (t.rename n.var).iff (.bool b) else .bool false) =
        (if t.sort = .bool then t.iff (.bool b) else .bool false).rename n.var := by
    rw [Term.sort_rename]
    split
    · exact Term.iff_rename n.var t (.bool b)
    · rfl
  have hnumber (t : Term Float) (c : Float) :
      (if (t.rename n.var).sort = .number then (t.rename n.var).compare .eq (.number c)
          else .bool false) =
        (if t.sort = .number then t.compare .eq (.number c) else .bool false).rename n.var := by
    rw [Term.sort_rename]
    split
    · exact Term.compare_rename n.var .eq t (.number c)
    · rfl
  cases l with
  | concrete a =>
    cases r with
    | concrete b => rfl
    | input k => cases a <;> exact hloose
    | term t =>
      cases a with
      | bool b => exact congrArg pure (hbool t b)
      | number c => exact congrArg pure (hnumber t c)
      | _ => exact hloose
  | input k => cases r <;> exact hloose
  | term t =>
    cases r with
    | concrete b =>
      cases b with
      | bool b => exact congrArg pure (hbool t b)
      | number c => exact congrArg pure (hnumber t c)
      | _ => exact hloose
    | _ => exact hloose

theorem numberTerm?_rename (op : BinaryOp) (x y : Term Float) :
    numberTerm? op (x.rename n.var) (y.rename n.var) = (numberTerm? op x y).map (Term.rename n.var) := by
  rw [numberTerm?, numberTerm?]
  cases arithOp? op <;> cases compareOp? op <;>
    simp [Term.arith_rename, Term.compare_rename]

theorem folded?_rename (op : BinaryOp) (l r : Meaning) :
    folded? op (l.rename n) (r.rename n) = folded? op l r := by
  cases l <;> cases r <;> rfl

theorem foldedUnary?_rename (op : UnaryOp) (m : Meaning) :
    foldedUnary? op (m.rename n) = foldedUnary? op m := by
  cases m <;> rfl

theorem binary_rename (at_ : OperandId) (op : BinaryOp) (l r : Meaning) :
    binary (ρ.operand at_) op (l.rename n) (r.rename n) =
      (binary at_ op l r).map (rename n) := by
  unfold binary
  rw [folded?_rename]
  cases folded? op l r with
  | some s => rfl
  | none =>
    have hnumbers : termOr (ρ.operand at_) (do
          numberTerm? op (← (l.rename n).toNumber?) (← (r.rename n).toNumber?)) =
        (termOr at_ (do numberTerm? op (← l.toNumber?) (← r.toNumber?))).map (rename n) := by
      rw [← termOr_rename n, toNumber?_rename n, toNumber?_rename n]
      cases l.toNumber? <;> cases r.toNumber? <;> try rfl
      exact congrArg _ (numberTerm?_rename n op _ _)
    have hterm {t u : Term Float} (h : t = u.rename n.var) :
        (pure (term t) : Modeled Meaning) = (pure (term u) : Modeled Meaning).map (rename n) :=
      congrArg (fun t => pure (term t)) h
    have hnot (t : Term Float) := hterm (Term.not_rename n.var t)
    cases op with
    | equal => exact Modeled.map_bind (equality_rename n at_ l r) fun _ => rfl
    | notEqual => exact Modeled.map_bind (equality_rename n at_ l r) hnot
    | identical => exact Modeled.map_bind (identity_rename n at_ l r) fun _ => rfl
    | notIdentical => exact Modeled.map_bind (identity_rename n at_ l r) hnot
    | logicalAnd =>
      refine hterm ?_
      rw [toBool_rename n, toBool_rename n]
      exact Term.and_rename n.var [l.toBool, r.toBool]
    | logicalOr =>
      refine hterm ?_
      rw [toBool_rename n, toBool_rename n]
      exact Term.or_rename n.var [l.toBool, r.toBool]
    | logicalXor =>
      refine hterm ?_
      rw [toBool_rename n, toBool_rename n]
      exact Term.xor_rename n.var l.toBool r.toBool
    | _ => exact hnumbers

theorem unary_rename (at_ : OperandId) (op : UnaryOp) (m : Meaning) :
    unary (ρ.operand at_) op (m.rename n) = (unary at_ op m).map (rename n) := by
  unfold unary
  rw [foldedUnary?_rename]
  cases foldedUnary? op m with
  | some s => rfl
  | none =>
    cases op with
    | booleanNot =>
      dsimp only
      rw [toBool_rename n, Term.not_rename]
      rfl
    | unaryMinus =>
      dsimp only
      rw [← termOr_rename n, toNumber?_rename n]
      cases m.toNumber? with
      | none => rfl
      | some t => exact congrArg (fun t => termOr _ (some t)) (Term.neg_rename n.var t)
    | unaryPlus =>
      dsimp only
      rw [← termOr_rename n, toNumber?_rename n]
    | _ => exact unknown_rename n at_

theorem cast_rename (at_ : OperandId) (kind : CastKind) (m : Meaning) :
    cast (ρ.operand at_) kind (m.rename n) = (cast at_ kind m).map (rename n) := by
  have hunknown := unknown_rename n at_
  have hnumber : termOr (ρ.operand at_) (m.rename n).toNumber? =
      (termOr at_ m.toNumber?).map (rename n) := by
    rw [toNumber?_rename n, termOr_rename n]
  have hscalar (s : Scalar Float) : cast (ρ.operand at_) .int (concrete s) =
      (cast at_ .int (concrete s)).map (rename n) := by
    unfold cast
    dsimp only
    cases s.toNumber? with
    | none => exact hunknown
    | some c => rfl
  cases kind with
  | bool => exact congrArg (fun t => pure (term t)) (toBool_rename n m)
  | int | double =>
    cases m with
    | concrete s => exact hscalar s
    | _ => exact hnumber
  | _ => exact hunknown

end Meaning

/-! ## Overrides -/

/-- A map says of new keys what another one says of the old ones, with new values. -/
def Carries {α β γ δ : Type} [Ord α] [Ord γ] (f : α → γ) (g : β → δ) (m : Std.TreeMap α β)
    (m' : Std.TreeMap γ δ) : Prop :=
  ∀ x, m'.get? (f x) = (m.get? x).map g

theorem compare_iff_of_injective {α γ : Type} [Ord α] [Std.LawfulEqOrd α] [Ord γ]
    [Std.LawfulEqOrd γ] {f : α → γ} (hf : f.Injective) (x y : α) :
    compare (f x) (f y) = .eq ↔ compare x y = .eq := by
  rw [Std.compare_eq_iff_eq, Std.compare_eq_iff_eq, hf.eq_iff]

namespace Carries

variable {α β γ δ : Type} [Ord α] [Std.TransOrd α] [Ord γ] [Std.TransOrd γ] {f : α → γ} {g : β → δ}
  {m : Std.TreeMap α β} {m' : Std.TreeMap γ δ}

theorem empty : Carries f g {} {} := by
  intro x
  have h : ({} : Std.TreeMap α β).get? x = none := Std.TreeMap.getElem?_emptyc
  have h' : ({} : Std.TreeMap γ δ).get? (f x) = none := Std.TreeMap.getElem?_emptyc
  rw [h, h', Option.map_none]

variable [Std.LawfulEqOrd α] [Std.LawfulEqOrd γ]

theorem insert (h : Carries f g m m') (hf : f.Injective) (x : α) (y : β) :
    Carries f g (m.insert x y) (m'.insert (f x) (g y)) := by
  intro z
  rw [Std.TreeMap.get?_eq_getElem?, Std.TreeMap.get?_eq_getElem?, Std.TreeMap.getElem?_insert,
    Std.TreeMap.getElem?_insert]
  by_cases hz : compare x z = .eq
  · rw [if_pos hz, if_pos ((compare_iff_of_injective hf x z).2 hz), Option.map_some]
  · rw [if_neg hz, if_neg (mt (compare_iff_of_injective hf x z).1 hz)]
    exact h z

theorem erase (h : Carries f g m m') (hf : f.Injective) (x : α) :
    Carries f g (m.erase x) (m'.erase (f x)) := by
  intro z
  rw [Std.TreeMap.get?_eq_getElem?, Std.TreeMap.get?_eq_getElem?, Std.TreeMap.getElem?_erase,
    Std.TreeMap.getElem?_erase]
  by_cases hz : compare x z = .eq
  · rw [if_pos hz, if_pos ((compare_iff_of_injective hf x z).2 hz), Option.map_none]
  · rw [if_neg hz, if_neg (mt (compare_iff_of_injective hf x z).1 hz)]
    exact h z

end Carries

namespace Overrides

/-- Overrides with new numbers. -/
abbrev Twin (ρ : Relabel) (o o' : Overrides) : Prop := Carries ρ.operand ρ.operand o o'

variable {ρ : Relabel} {o o' : Overrides}

theorem Twin.resolve (h : o.Twin ρ o') (x : OperandId) :
    o'.resolve (ρ.operand x) = ρ.operand (o.resolve x) := by
  rw [Overrides.resolve, Overrides.resolve, h x]
  cases o.get? x <;> rfl

theorem Twin.follow (h : o.Twin ρ o') (steps : Nat) (x : OperandId) :
    o'.follow steps (ρ.operand x) = ρ.operand (o.follow steps x) := by
  induction steps generalizing x with
  | zero => rfl
  | succ steps ih =>
    rw [Overrides.follow, Overrides.follow, h x]
    cases o.get? x with
    | none => rfl
    | some next =>
      simp only [Option.map_some, ρ.operand_inj]
      split
      · rfl
      · exact ih next

theorem Twin.bind (h : o.Twin ρ o') (target : OperandId) (source : Option OperandId) :
    (o.bind target source).Twin ρ (o'.bind (ρ.operand target) (source.map ρ.operand)) := by
  unfold Overrides.bind
  cases source with
  | none => exact h.erase ρ.operand_injective target
  | some source =>
    simp only [Option.map_some, h.resolve, ρ.operand_inj]
    split
    · exact h.erase ρ.operand_injective target
    · exact h.insert ρ.operand_injective target _

end Overrides

/-! ## Moments -/

namespace Moment

/-- The same point of a walk with new numbers. -/
structure Twin (g : Graft) (m m' : Moment) : Prop where
  arena : m.arena.Embeds g m'.arena
  overrides : m.overrides.Twin g.toRelabel m'.overrides

variable {g : Graft} {m m' : Moment} (n : g.toRelabel.Naming)

theorem Twin.known? (h : m.Twin g m') (x : OperandId) :
    m'.known? (g.operand x) = (m.known? x).map (Meaning.rename n) := by
  rw [Moment.known?, Moment.known?, h.arena.literalOf?, h.arena.isSymbolic, h.arena.valueOf]
  cases m.arena.literalOf? x with
  | some s => rfl
  | none =>
    dsimp only
    split
    · exact congrArg (some ∘ Meaning.input) (n.inputs (m.arena.valueOf x)).symm
    · rfl

theorem Twin.definition? (h : m.Twin g m') (x : OperandId) :
    m'.definition? (g.operand x) = (m.definition? x).map (OpKind.relabel g.toRelabel) := by
  rw [Moment.definition?, Moment.definition?, h.arena.operand, Operand.relabel, List.head?_map]
  cases (m.arena.operand x).defs.head? with
  | none => rfl
  | some op =>
    simp only [Option.map_some, h.arena.op]
    rfl

/-- What is known of an operand does not depend on the numbers, apart from the names of unknowns. -/
theorem Twin.meaning (h : m.Twin g m') (depth : Nat) (x : OperandId) :
    m'.meaning depth (g.operand x) = (m.meaning depth x).map (Meaning.rename n) := by
  induction depth generalizing x with
  | zero =>
    rw [Moment.meaning, Moment.meaning, h.overrides.follow, h.known? n]
    cases m.known? (m.overrides.follow maxChain x) with
    | some known => rfl
    | none => exact Meaning.unknown_rename n _
  | succ depth ih =>
    rw [Moment.meaning, Moment.meaning, h.overrides.follow]
    generalize m.overrides.follow maxChain x = x
    rw [h.known? n, h.definition?]
    cases m.known? x with
    | some known => rfl
    | none =>
      cases m.definition? x with
      | none => exact Meaning.unknown_rename n _
      | some kind =>
        cases kind with
        | binary op left right result =>
          exact Modeled.map_bind (ih left) fun l =>
            Modeled.map_bind (ih right) fun r => Meaning.binary_rename n x op l r
        | unary op expr result =>
          exact Modeled.map_bind (ih expr) fun e => Meaning.unary_rename n x op e
        | cast kind expr result =>
          exact Modeled.map_bind (ih expr) fun e => Meaning.cast_rename n x kind e
        | assign var expr result => exact ih expr
        | _ => exact Meaning.unknown_rename n x

theorem Twin.condition (h : m.Twin g m') (cond : OperandId) :
    m'.condition (g.operand cond) = (m.condition cond).map (Term.rename n.var) :=
  Modeled.map_bind (h.meaning n maxDepth cond) fun c => by
    rw [Meaning.toBool_rename n]
    rfl

theorem Twin.caseEquality (h : m.Twin g m') (subject case : OperandId) :
    m'.caseEquality (g.operand subject) (g.operand case) =
      (m.caseEquality subject case).map (Term.rename n.var) :=
  Modeled.map_bind (h.meaning n maxDepth subject) fun l =>
    Modeled.map_bind (h.meaning n maxDepth case) fun r => Meaning.equality_rename n subject l r

end Moment

end QueryTaint
