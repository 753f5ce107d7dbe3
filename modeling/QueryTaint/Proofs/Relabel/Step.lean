import QueryTaint.Proofs.Lower.Invariant
import QueryTaint.Proofs.Relabel.Embed

/-!
# Lowering into different arenas

Two builders are twins if they differ in their arenas only, one of which is embedded in the other one,
and in the numbers of entries. A step of lowering mirrors another one if they take twins to twins, and
give results that differ in the numbers of entries only (`Mirrors`, and `Follows` for steps that may
fail), provided that the smaller arena does not outgrow its limit. What a step does is put together from
what its parts do, as the step itself is.
-/

namespace QueryTaint

/-- A script with new numbers. -/
structure Script.Twin (ρ : Relabel) (s s' : Script) : Prop where
  path : s'.path = s.path
  functions (name : String) : s'.functions.get? name = (s.functions.get? name).map ρ.func
  ordered : s'.ordered = s.ordered.map ρ.func
  includes : s'.includes = s.includes
  main : s'.main = ρ.func s.main

namespace Script.Twin

variable {ρ : Relabel} {s s' : Script}

theorem ofMain (path : String) (main : FuncId) :
    Twin ρ (Script.ofMain path main) (Script.ofMain path (ρ.func main)) where
  path := rfl
  functions name := by
    simp only [Script.ofMain, Std.TreeMap.get?_eq_getElem?, Std.TreeMap.getElem?_insert]
    split <;> simp
  ordered := rfl
  includes := rfl
  main := rfl

theorem addFunction (h : Twin ρ s s') (name : String) (func : FuncId) :
    Twin ρ (s.addFunction name func) (s'.addFunction name (ρ.func func)) where
  path := h.path
  functions other := by
    have hother := h.functions other
    simp only [Std.TreeMap.get?_eq_getElem?] at hother
    simp only [Script.addFunction, Std.TreeMap.get?_eq_getElem?, Std.TreeMap.getElem?_insert]
    split
    · rfl
    · exact hother
  ordered := by
    have hname := congrArg Option.isSome (h.functions name)
    rw [Option.isSome_map, Std.TreeMap.get?_eq_getElem?, Std.TreeMap.get?_eq_getElem?,
      ← Std.TreeMap.contains_eq_isSome_getElem?, ← Std.TreeMap.contains_eq_isSome_getElem?] at hname
    simp only [Script.addFunction, hname, h.ordered]
    split <;> simp
  includes := h.includes
  main := h.main

theorem addInclude (h : Twin ρ s s') (path : String) : Twin ρ (s.addInclude path) (s'.addInclude path) :=
  { h with includes := by simp [Script.addInclude, h.includes] }

end Script.Twin

namespace Lower

/-- A waiting φ with new numbers. -/
def PendingPhi.relabel (ρ : Relabel) (p : PendingPhi) : PendingPhi :=
  ⟨ρ.block p.block, p.name, ρ.op p.phi⟩

/-! ## What is known inside a function -/

/-- What is known inside a function, with new numbers. -/
structure Scope.Twin (ρ : Relabel) (s s' : Scope) : Prop where
  complete : s'.complete = s.complete
  labels (name : String) : s'.labels.get? name = (s.labels.get? name).map ρ.block
  lookup (block : BlockId) (name : String) :
    s'.lookup (ρ.block block) name = (s.lookup block name).map ρ.operand
  within (block : BlockId) (name : String) :
    s'.lookup block name ≠ none → ∃ own, ρ.block own = block
  pending : s'.pending = s.pending.map (·.relabel ρ)
  gotos : s'.gotos = s.gotos.map fun g => (g.1, ρ.block g.2)
  conditions : s'.conditions = s.conditions.map ρ.operand

namespace Scope

/-- A test of all mappings is a test of their list. -/
theorem any_toList {κ υ : Type} {cmp : κ → κ → Ordering} (t : Std.TreeMap κ υ cmp)
    (p : κ → υ → Bool) : t.any p = t.toList.any fun e => p e.1 e.2 := by
  -- the test is a loop that stops early
  have hlist : ∀ l : List (κ × υ), (forIn l (none, PUnit.unit) fun e _ =>
      if p e.1 e.2 = true then pure (.done (some true, PUnit.unit))
      else pure (.yield (none, PUnit.unit)) : Id (Option Bool × Unit)) =
        (if l.any (fun e => p e.1 e.2) then some true else none, PUnit.unit) := by
    intro l
    induction l with
    | nil => rfl
    | cons e l ih =>
      rw [List.forIn_cons, List.any_cons]
      by_cases h : p e.1 e.2 = true
      · simp only [h, Bool.true_or, if_true]
        rfl
      · simp only [h, Bool.false_or]
        exact ih
  have hloop := hlist t.toList
  rw [← Std.TreeMap.forIn_eq_forIn_toList] at hloop
  unfold Std.TreeMap.any Std.DTreeMap.any Std.DTreeMap.Internal.Impl.any
  generalize hs : (forIn t.inner.inner _ _ : Id (Option Bool × Unit)) = s
  obtain rfl := hs.symm.trans hloop
  cases t.toList.any fun e => p e.1 e.2 <;> rfl

theorem wasWritten_iff (s : Scope) (name : String) :
    s.wasWritten name = true ↔ ∃ block, s.lookup block name ≠ none := by
  rw [wasWritten, any_toList, List.any_eq_true]
  constructor
  · rintro ⟨⟨index, names⟩, hmem, hname⟩
    refine ⟨⟨index⟩, ?_⟩
    rw [Std.TreeMap.mem_toList_iff_getElem?_eq_some] at hmem
    rw [lookup, Std.TreeMap.getD_eq_getD_getElem?, hmem, ← Option.isSome_iff_ne_none,
      Option.getD_some, Std.TreeMap.get?_eq_getElem?, ← Std.TreeMap.contains_eq_isSome_getElem?]
    exact hname
  · rintro ⟨block, hne⟩
    rw [lookup, Std.TreeMap.getD_eq_getD_getElem?] at hne
    cases hnames : s.versions[block.index]? with
    | none => simp [hnames] at hne
    | some names =>
      refine ⟨(block.index, names), Std.TreeMap.mem_toList_iff_getElem?_eq_some.2 hnames, ?_⟩
      rw [hnames, Option.getD_some, ← Option.isSome_iff_ne_none, Std.TreeMap.get?_eq_getElem?,
        ← Std.TreeMap.contains_eq_isSome_getElem?] at hne
      exact hne

namespace Twin

variable {ρ : Relabel} {s s' : Scope}

theorem empty (ρ : Relabel) : Twin ρ {} {} where
  complete := rfl
  labels _ := rfl
  lookup _ _ := rfl
  within _ _ h := (h rfl).elim
  pending := by simp
  gotos := rfl
  conditions := rfl

theorem wasWritten (h : Twin ρ s s') (name : String) : s'.wasWritten name = s.wasWritten name := by
  rw [Bool.eq_iff_iff, wasWritten_iff, wasWritten_iff]
  constructor
  · rintro ⟨block, hne⟩
    obtain ⟨own, rfl⟩ := h.within block name hne
    exact ⟨own, fun hnone => hne (by rw [h.lookup, hnone]; rfl)⟩
  · rintro ⟨block, hne⟩
    exact ⟨ρ.block block, fun hnone => hne (Option.map_eq_none_iff.1 (h.lookup block name ▸ hnone))⟩

theorem bind (h : Twin ρ s s') (block : BlockId) (name : String) (value : OperandId) :
    Twin ρ (s.bind block name value) (s'.bind (ρ.block block) name (ρ.operand value)) :=
  { h with
    lookup := fun other n => by
      simp only [lookup_bind, Relabel.block_inj, h.lookup]
      split <;> rfl
    within := fun other n hne => by
      rw [lookup_bind] at hne
      split at hne
      · rename_i heq
        exact ⟨block, heq.1.symm⟩
      · exact h.within other n hne }

end Twin

end Scope

/-! ## Builders -/

/-- A builder whose arena is embedded in that of another one. The reads so far are not compared. -/
structure Builder.Twin (g : Graft) (b b' : Builder) : Prop where
  arena : Arena.Embeds g b.arena b'.arena
  script : b.script.Twin g.toRelabel b'.script
  labels : b'.labels = b.labels
  scope : b.scope.Twin g.toRelabel b'.scope
  func : b'.func = g.func b.func
  block : b'.block = g.block b.block
  cls : b'.cls = b.cls
  consts (name : String) : b'.consts.get? name = (b.consts.get? name).map g.operand

/-! ## Steps -/

section Steps

variable {α β γ δ : Type} {g : Graft} {n : Nat}

/-- A step never makes the arena smaller. -/
def Widens (m : Build α) : Prop := ∀ b : Builder, b.arena.Below (m.run b).2.arena

/-- A step does to a builder what another one does to a twin, and gives the same result with new
numbers, unless the arena outwidens its limit. At least some number of functions is there. -/
structure Mirrors (g : Graft) (n : Nat) (f : α → β) (m : Build α) (m' : Build β) : Prop where
  widens : Widens m
  twin {b b' : Builder} : b.Twin g b' → n ≤ b.arena.funcs.size →
    (m.run b).2.arena.Below g.limit →
      (m'.run b').1 = f (m.run b).1 ∧ (m.run b).2.Twin g (m'.run b').2

/-- The same for a step that may fail. Both fail, in the same way, or none does. -/
def Follows (g : Graft) (n : Nat) (f : α → β) (x : Lowering α) (x' : Lowering β) : Prop :=
  Mirrors g n (Except.map f) x.run x'.run

theorem Widens.pure (x : α) : Widens (pure x : Build α) := fun b => .refl b.arena

theorem Widens.bind {m : Build α} {k : α → Build β} (hm : Widens m) (hk : ∀ x, Widens (k x)) :
    Widens (m >>= k) := fun b => (hm b).trans (hk _ _)

namespace Mirrors

variable {f : α → β} {h : γ → δ} {m : Build α} {m' : Build β}

theorem pure {x : α} {x' : β} (hx : x' = f x) : Mirrors g n f (pure x) (pure x') :=
  ⟨.pure x, fun hb _ _ => ⟨hx, hb⟩⟩

theorem bind {k : α → Build γ} {k' : β → Build δ} (hm : Mirrors g n f m m')
    (hk : ∀ x, Mirrors g n h (k x) (k' (f x))) : Mirrors g n h (m >>= k) (m' >>= k') where
  widens := hm.widens.bind fun x => (hk x).widens
  twin {b b'} hb hn hlimit := by
    have hwidens := (hk (m.run b).1).widens (m.run b).2
    obtain ⟨hresult, htwin⟩ := hm.twin hb hn (hwidens.trans hlimit)
    have hnext := (hk (m.run b).1).twin htwin (Nat.le_trans hn (hm.widens b).funcs) hlimit
    rw [← hresult] at hnext
    exact hnext

/-- Twins look the same apart from numbers. -/
theorem get {k : Builder → Build γ} {k' : Builder → Build δ} {k'' : Builder → Build δ}
    (heq : ∀ b b', Builder.Twin g b b' → k' b' = k'' b) (hk : ∀ b, Mirrors g n h (k b) (k'' b)) :
    Mirrors g n h (get >>= k) (get >>= k') where
  widens b := (hk b).widens b
  twin {b b'} hb hn hlimit := by
    have hnext := (hk b).twin hb hn hlimit
    rw [← heq b b' hb] at hnext
    exact hnext

/-- For each builder, what comes after a look at it mirrors what comes after a look at its twins. -/
theorem get_each {k : Builder → Build γ} {k' : Builder → Build δ}
    (hk : ∀ b, ∃ m', (∀ b', Builder.Twin g b b' → k' b' = m') ∧ Mirrors g n h (k b) m') :
    Mirrors g n h (MonadState.get >>= k) (MonadState.get >>= k') := by
  choose k'' heq hk using hk
  exact .get heq hk

theorem look {φ : Arena → α} {φ' : Arena → β} {k : α → Build γ} {k' : β → Build δ}
    (hφ : ∀ a a', Arena.Embeds g a a' → φ' a' = f (φ a)) (hk : ∀ x, Mirrors g n h (k x) (k' (f x))) :
    Mirrors g n h (look φ >>= k) (look φ' >>= k') := by
  have heq (b b' : Builder) (hb : b.Twin g b') : k' (φ' b'.arena) = k' (f (φ b.arena)) :=
    congrArg k' (hφ _ _ hb.arena)
  exact .get heq fun b => hk (φ b.arena)

theorem ite {c : Prop} [Decidable c] {m₁ m₂ : Build α} {m₁' m₂' : Build β} (h₁ : Mirrors g n f m₁ m₁')
    (h₂ : Mirrors g n f m₂ m₂') : Mirrors g n f (if c then m₁ else m₂) (if c then m₁' else m₂') := by
  split
  · exact h₁
  · exact h₂

theorem forM {l : List α} {m : α → Build Unit} {m' : β → Build Unit}
    (hm : ∀ x ∈ l, Mirrors g n id (m x) (m' (f x))) :
    Mirrors g n id (l.forM m) ((l.map f).forM m') := by
  induction l with
  | nil => exact .pure rfl
  | cons x l ih =>
    exact .bind (hm x List.mem_cons_self) fun _ => ih fun y hy => hm y (List.mem_cons_of_mem _ hy)

end Mirrors

namespace Follows

variable {f : α → β} {h : γ → δ} {x : Lowering α} {x' : Lowering β}

theorem lift {m : Build α} {m' : Build β} (hm : Mirrors g n f m m') :
    Follows g n f (liftM m) (liftM m') := by
  change Mirrors g n (Except.map f) (m >>= fun y => Pure.pure (.ok y))
    (m' >>= fun y => Pure.pure (.ok y))
  exact .bind hm fun _ => .pure rfl

theorem pure {y : α} {y' : β} (hy : y' = f y) : Follows g n f (pure y) (pure y') :=
  .lift (.pure hy)

theorem bind {k : α → Lowering γ} {k' : β → Lowering δ} (hx : Follows g n f x x')
    (hk : ∀ y, Follows g n h (k y) (k' (f y))) : Follows g n h (x >>= k) (x' >>= k') := by
  change Mirrors g n _ (x.run >>= ExceptT.bindCont k) (x'.run >>= ExceptT.bindCont k')
  refine Mirrors.bind hx fun y => ?_
  cases y with
  | error e => exact Mirrors.pure rfl
  | ok y => exact hk y

theorem get {k : Builder → Lowering γ} {k' k'' : Builder → Lowering δ}
    (heq : ∀ b b', Builder.Twin g b b' → k' b' = k'' b) (hk : ∀ b, Follows g n h (k b) (k'' b)) :
    Follows g n h (get >>= k) (get >>= k') := by
  have heq' (b b' : Builder) (hb : b.Twin g b') : (k' b').run = (k'' b).run :=
    congrArg ExceptT.run (heq b b' hb)
  change Mirrors g n _ ((MonadState.get : Build Builder) >>= fun b => (k b).run)
    ((MonadState.get : Build Builder) >>= fun b => (k' b).run)
  exact Mirrors.get heq' hk

theorem look {φ : Arena → α} {φ' : Arena → β} {k : α → Lowering γ} {k' : β → Lowering δ}
    (hφ : ∀ a a', Arena.Embeds g a a' → φ' a' = f (φ a)) (hk : ∀ y, Follows g n h (k y) (k' (f y))) :
    Follows g n h (look φ >>= k) (look φ' >>= k') := by
  have hk' (y : α) : Mirrors g n (Except.map h) (k y).run (k' (f y)).run := hk y
  exact Mirrors.look hφ hk'

theorem throw (e : Error) : Follows g n f (throw e) (throw e) := Mirrors.pure rfl

theorem forM {l : List α} {k : α → Lowering Unit} {k' : β → Lowering Unit}
    (hk : ∀ y ∈ l, Follows g n id (k y) (k' (f y))) :
    Follows g n id (l.forM k) ((l.map f).forM k') := by
  induction l with
  | nil => exact .pure rfl
  | cons y l ih =>
    exact .bind (hk y List.mem_cons_self) fun _ => ih fun z hz => hk z (List.mem_cons_of_mem _ hz)

theorem mapM {l : List α} {k : α → Lowering γ} {k' : β → Lowering δ}
    (hk : ∀ y ∈ l, Follows g n h (k y) (k' (f y))) :
    Follows g n (List.map h) (l.mapM k) ((l.map f).mapM k') := by
  induction l with
  | nil => exact .pure rfl
  | cons y l ih =>
    rw [List.map_cons, List.mapM_cons, List.mapM_cons]
    exact .bind (hk y List.mem_cons_self) fun _ =>
      .bind (ih fun z hz => hk z (List.mem_cons_of_mem _ hz)) fun _ => .pure rfl

theorem optional {o : Option α} {k : α → Lowering γ} {k' : β → Lowering δ}
    (hk : ∀ y ∈ o, Follows g n h (k y) (k' (f y))) :
    Follows g n (Option.map h) (o.mapM k) ((o.map f).mapM k') := by
  cases o with
  | none => exact .pure rfl
  | some y => exact .bind (hk y rfl) fun _ => .pure rfl

/-! What is gone through may be the same on both sides. -/

theorem forM_same {l : List α} {k k' : α → Lowering Unit}
    (hk : ∀ y ∈ l, Follows g n id (k y) (k' y)) : Follows g n id (l.forM k) (l.forM k') := by
  have hall : Follows g n id (l.forM k) ((l.map id).forM k') := .forM hk
  rwa [List.map_id] at hall

theorem mapM_same {l : List α} {k : α → Lowering γ} {k' : α → Lowering δ}
    (hk : ∀ y ∈ l, Follows g n h (k y) (k' y)) :
    Follows g n (List.map h) (l.mapM k) (l.mapM k') := by
  have hall : Follows g n (List.map h) (l.mapM k) ((l.map id).mapM k') := .mapM hk
  rwa [List.map_id] at hall

theorem optional_same {o : Option α} {k : α → Lowering γ} {k' : α → Lowering δ}
    (hk : ∀ y ∈ o, Follows g n h (k y) (k' y)) :
    Follows g n (Option.map h) (o.mapM k) (o.mapM k') := by
  have hall : Follows g n (Option.map h) (o.mapM k) ((o.map id).mapM k') := .optional hk
  rwa [Option.map_id] at hall

end Follows

end Steps

end Lower

end QueryTaint
