import Mathlib.Data.List.Forall2
import Mathlib.Logic.Function.Basic
import QueryTaint.Proofs.Relabel.Fold

/-!
# Two arenas in one

Two arenas that are built at the same time as one that holds both. A layout lists, in order, whose
turn it is to make entries and how many; `place` is the number that an entry of one of the two has in
the arena that holds both. The layout is known from the two arenas alone, so the numbers do not change
while the arenas are built (`Woven`). After the layout is used up, the first further entry of either
arena has the same number: what is made last can be shared.
-/

namespace QueryTaint

/-! ## Layouts -/

/-- Where an entry is placed. -/
def place : List (Bool × Nat) → Bool → Nat → Nat
  | [], true, i => 2 * i
  | [], false, i => 2 * i - 1
  | (turn, n) :: rest, side, i =>
    if turn = side then if i < n then i else n + place rest side (i - n)
    else n + place rest side i

/-- How many entries a layout has. -/
def layoutSize : List (Bool × Nat) → Nat
  | [] => 0
  | (_, n) :: rest => n + layoutSize rest

section Place

variable (rest : List (Bool × Nat)) (turn side : Bool) (n : Nat)

theorem place_now {k : Nat} (hk : k < n) : place ((turn, n) :: rest) turn k = k := by
  rw [place, if_pos rfl, if_pos hk]

theorem place_later (k : Nat) : place ((turn, n) :: rest) turn (n + k) = n + place rest turn k := by
  rw [place, if_pos rfl, if_neg (by omega), Nat.add_sub_cancel_left]

theorem place_other (h : turn ≠ side) (k : Nat) :
    place ((turn, n) :: rest) side k = n + place rest side k := by
  rw [place, if_neg h]

theorem place_strictMono (layout : List (Bool × Nat)) (side : Bool) :
    StrictMono (place layout side) := by
  induction layout with
  | nil =>
    intro i j hij
    cases side <;> simp only [place] <;> omega
  | cons entry rest ih =>
    obtain ⟨turn, n⟩ := entry
    intro i j hij
    by_cases h : turn = side
    · subst h
      rcases Nat.lt_or_ge j n with hj | hj
      · rw [place_now _ _ _ hj, place_now _ _ _ (Nat.lt_trans hij hj)]
        exact hij
      · obtain ⟨k, rfl⟩ := Nat.exists_eq_add_of_le hj
        rw [place_later]
        rcases Nat.lt_or_ge i n with hi | hi
        · rw [place_now _ _ _ hi]
          omega
        · obtain ⟨m, rfl⟩ := Nat.exists_eq_add_of_le hi
          rw [place_later]
          exact Nat.add_lt_add_left (ih (by omega)) n
    · rw [place_other _ _ _ _ h, place_other _ _ _ _ h]
      exact Nat.add_lt_add_left (ih hij) n

/-- No two entries of a layout have the same place. -/
theorem layoutSize_le_place {layout : List (Bool × Nat)} {i j : Nat}
    (h : place layout true i = place layout false j) : layoutSize layout ≤ place layout true i := by
  induction layout generalizing i j with
  | nil => exact Nat.zero_le _
  | cons entry rest ih =>
    obtain ⟨turn, n⟩ := entry
    rw [layoutSize]
    cases turn with
    | true =>
      rw [place_other rest true false n nofun] at h
      rcases Nat.lt_or_ge i n with hi | hi
      · rw [place_now rest true n hi] at h
        omega
      · obtain ⟨k, rfl⟩ := Nat.exists_eq_add_of_le hi
        rw [place_later] at h ⊢
        exact Nat.add_le_add_left (ih (Nat.add_left_cancel h)) n
    | false =>
      rw [place_other rest false true n nofun] at h ⊢
      rcases Nat.lt_or_ge j n with hj | hj
      · rw [place_now rest false n hj] at h
        omega
      · obtain ⟨k, rfl⟩ := Nat.exists_eq_add_of_le hj
        rw [place_later] at h
        exact Nat.add_le_add_left (ih (Nat.add_left_cancel h)) n

end Place

/-! ## Tables -/

/-- A table holds the entries of two others, and the places of further ones are laid out. -/
structure Interlaid {τ : Type} (r : Bool → Nat → Nat) (f : Bool → τ → τ) (xs : Bool → Array τ)
    (ys : Array τ) (layout : List (Bool × Nat)) : Prop where
  inside (side : Bool) (i : Nat) : ys[r side i]? = (xs side)[i]?.map (f side)
  next (side : Bool) (k : Nat) : r side ((xs side).size + k) = ys.size + place layout side k
  apart (i j : Nat) : r true i = r false j → ys.size + layoutSize layout ≤ r true i

namespace Interlaid

variable {τ : Type} {r : Bool → Nat → Nat} {f : Bool → τ → τ} {xs : Bool → Array τ} {ys : Array τ}
  {layout : List (Bool × Nat)} {side : Bool} {n : Nat}

theorem empty (f : Bool → τ → τ) (layout : List (Bool × Nat)) :
    Interlaid (place layout) f (fun _ => #[]) #[] layout where
  inside side i := by simp
  next side k := by simp
  apart i j h := by
    rw [Array.size_empty, Nat.zero_add]
    exact layoutSize_le_place h

/-- The entries of one of the two are inlaid before its turn. -/
theorem inlaid (h : Interlaid r f xs ys ((side, n) :: layout)) :
    Inlaid (r side) (f side) ys (xs side) ys ((xs side).size + n) where
  inside := h.inside side
  outside _ _ := rfl
  next k hk := by rw [h.next, place_now _ _ _ (by omega)]

/-- Entries of different sides never have the same place. -/
theorem le_of_eq (h : Interlaid r f xs ys layout) {t : Bool} (hne : side ≠ t) {i j : Nat}
    (heq : r side i = r t j) : ys.size + layoutSize layout ≤ r t j := by
  cases side <;> cases t
  · exact absurd rfl hne
  · exact h.apart j i heq.symm
  · exact heq ▸ h.apart i j heq
  · exact absurd rfl hne

variable {xs' ys' : Array τ}

theorem size_step (h : Interlaid r f xs ys ((side, n) :: layout))
    (hsize : xs'.size = (xs side).size + n)
    (h' : Inlaid (r side) (f side) ys xs' ys' xs'.size) : ys'.size = ys.size + n := by
  have hlt : ∀ j, j < ys'.size ↔ j < ys.size + n := by
    intro j
    by_cases hj : ∃ i, r side i = j
    · obtain ⟨i, rfl⟩ := hj
      rw [h'.size_lt, hsize]
      rcases Nat.lt_or_ge i (xs side).size with hi | hi
      · have hold := h.inlaid.size_lt.2 hi
        omega
      · obtain ⟨k, rfl⟩ := Nat.exists_eq_add_of_le hi
        rw [h.next]
        rcases Nat.lt_or_ge k n with hk | hk
        · rw [place_now _ _ _ hk]
          omega
        · obtain ⟨m, rfl⟩ := Nat.exists_eq_add_of_le hk
          rw [place_later]
          omega
    · have hsame := h'.outside j fun i hi => hj ⟨i, hi⟩
      have hnew : ys.size ≤ j → ¬j < ys.size + n := fun hge hlt => by
        refine hj ⟨(xs side).size + (j - ys.size), ?_⟩
        rw [h.next, place_now _ _ _ (by omega)]
        omega
      have hiff : ys'.size ≤ j ↔ ys.size ≤ j := by
        rw [← Array.getElem?_eq_none_iff, ← Array.getElem?_eq_none_iff, hsame]
      omega
  have hle := (hlt (ys.size + n)).1
  have hge := (hlt ys'.size).2
  omega

/-- After one of the two made its entries, the layout has a turn less. -/
theorem step (h : Interlaid r f xs ys ((side, n) :: layout))
    (hsize : xs'.size = (xs side).size + n)
    (h' : Inlaid (r side) (f side) ys xs' ys' xs'.size) :
    Interlaid r f (Function.update xs side xs') ys' layout := by
  have hys := h.size_step hsize h'
  have htotal : layoutSize ((side, n) :: layout) = n + layoutSize layout := rfl
  refine ⟨fun t i => ?_, fun t k => ?_, fun i j heq => ?_⟩
  · by_cases ht : t = side
    · subst ht
      rw [Function.update_self]
      exact h'.inside i
    · rw [Function.update_of_ne ht]
      by_cases hmet : ∃ i', r side i' = r t i
      · obtain ⟨i', heq⟩ := hmet
        have hle := h.le_of_eq (Ne.symm ht) heq
        rw [htotal] at hle
        have hnone : ys[r t i]? = none := Array.getElem?_eq_none (by omega)
        rw [← h.inside, hnone]
        exact Array.getElem?_eq_none (by omega)
      · rw [← h.inside]
        exact h'.outside _ fun i' heq => hmet ⟨i', heq⟩
  · by_cases ht : t = side
    · subst ht
      rw [Function.update_self, hsize, Nat.add_assoc, h.next, place_later]
      omega
    · rw [Function.update_of_ne ht, h.next, place_other _ _ _ _ (Ne.symm ht)]
      omega
  · have hle := h.apart i j heq
    rw [htotal] at hle
    omega

end Interlaid

/-! ## Arenas -/

namespace Arena

/-- How many entries were made since. -/
def growth (a a' : Arena) : Extent :=
  ⟨a'.operands.size - a.operands.size, a'.ops.size - a.ops.size, a'.blocks.size - a.blocks.size,
    a'.funcs.size - a.funcs.size⟩

/-- The layout of one table. -/
def layoutOf (size : Extent → Nat) (layout : List (Bool × Extent)) : List (Bool × Nat) :=
  layout.map fun turn => (turn.1, size turn.2)

/-- An arena holds the entries of two others, and the places of further ones are laid out. -/
structure Woven (ρ : Bool → Relabel) (a : Bool → Arena) (b : Arena) (layout : List (Bool × Extent)) :
    Prop where
  operands : Interlaid (fun side => (ρ side).operands) (fun side => Operand.relabel (ρ side))
    (fun side => (a side).operands) b.operands (layoutOf Extent.operands layout)
  ops : Interlaid (fun side => (ρ side).ops) (fun side => Op.relabel (ρ side))
    (fun side => (a side).ops) b.ops (layoutOf Extent.ops layout)
  blocks : Interlaid (fun side => (ρ side).blocks) (fun side => Block.relabel (ρ side))
    (fun side => (a side).blocks) b.blocks (layoutOf Extent.blocks layout)
  funcs : Interlaid (fun side => (ρ side).funcs) (fun side => Func.relabel (ρ side))
    (fun side => (a side).funcs) b.funcs (layoutOf Extent.funcs layout)

/-- The new numbers that a layout gives. -/
def layoutRelabel (layout : List (Bool × Extent)) (side : Bool) : Relabel where
  operands := place (layoutOf Extent.operands layout) side
  ops := place (layoutOf Extent.ops layout) side
  blocks := place (layoutOf Extent.blocks layout) side
  funcs := place (layoutOf Extent.funcs layout) side
  operands_mono := place_strictMono _ side
  ops_mono := place_strictMono _ side
  blocks_mono := place_strictMono _ side
  funcs_mono := place_strictMono _ side

namespace Woven

variable {ρ : Bool → Relabel} {a : Bool → Arena} {b : Arena} {layout : List (Bool × Extent)}
  {side : Bool} {a' b' : Arena}

theorem empty (layout : List (Bool × Extent)) :
    Woven (layoutRelabel layout) (fun _ => {}) {} layout :=
  ⟨.empty _ _, .empty _ _, .empty _ _, .empty _ _⟩

/-- An arena that holds another one, as it is when the other one makes its entries. -/
def graft (ρ : Relabel) (host limit : Arena) : Graft := { ρ with host, limit }

theorem embeds (h : Woven ρ a b ((side, (a side).growth a') :: layout)) (hbelow : (a side).Below a') :
    Embeds (graft (ρ side) b a') (a side) b := by
  have hoperands := h.operands.inlaid
  have hops := h.ops.inlaid
  have hblocks := h.blocks.inlaid
  have hfuncs := h.funcs.inlaid
  simp only [growth, Nat.add_sub_cancel' hbelow.operands, Nat.add_sub_cancel' hbelow.ops,
    Nat.add_sub_cancel' hbelow.blocks, Nat.add_sub_cancel' hbelow.funcs] at hoperands hops hblocks hfuncs
  exact ⟨hoperands, hops, hblocks, hfuncs⟩

/-- After one of the arenas made its entries, and the arena that holds both did so too, the layout has
a turn less. -/
theorem step (h : Woven ρ a b ((side, (a side).growth a') :: layout)) (hbelow : (a side).Below a')
    (h' : Embeds (graft (ρ side) b a') a' b') :
    Woven ρ (Function.update a side a') b' layout := by
  have hupdate {τ : Type} (get : Arena → Array τ) :
      (fun t => get (Function.update a side a' t)) =
        Function.update (fun t => get (a t)) side (get a') :=
    Function.comp_update get a side a'
  refine ⟨?_, ?_, ?_, ?_⟩
  · rw [hupdate Arena.operands]
    exact h.operands.step (Nat.add_sub_cancel' hbelow.operands).symm h'.operands
  · rw [hupdate Arena.ops]
    exact h.ops.step (Nat.add_sub_cancel' hbelow.ops).symm h'.ops
  · rw [hupdate Arena.blocks]
    exact h.blocks.step (Nat.add_sub_cancel' hbelow.blocks).symm h'.blocks
  · rw [hupdate Arena.funcs]
    exact h.funcs.step (Nat.add_sub_cancel' hbelow.funcs).symm h'.funcs

end Woven

end Arena

/-! ## Turns -/

section Turns

variable {α β σ : Type}

/-- What belongs to one side. -/
def ofSide (items : List (Bool × α)) (side : Bool) : List α :=
  (items.filter (·.1 = side)).map (·.2)

theorem ofSide_cons (side : Bool) (x : α) (rest : List (Bool × α)) (t : Bool) :
    ofSide ((side, x) :: rest) t = if side = t then x :: ofSide rest t else ofSide rest t := by
  rw [ofSide, List.filter_cons]
  by_cases h : side = t <;> simp [h, ofSide]

theorem ofSide_append (items more : List (Bool × α)) (t : Bool) :
    ofSide (items ++ more) t = ofSide items t ++ ofSide more t := by
  rw [ofSide, List.filter_append, List.map_append]
  rfl

theorem ofSide_map (side : Bool) (l : List α) (t : Bool) :
    ofSide (l.map (side, ·)) t = if side = t then l else [] := by
  rw [ofSide, List.filter_map, List.map_map]
  by_cases h : side = t <;> simp [h, Function.comp_def]

theorem mem_ofSide {items : List (Bool × α)} {t : Bool} {x : α} :
    x ∈ ofSide items t ↔ (t, x) ∈ items := by
  simp [ofSide]

/-- The sides take their turns. -/
def turn (step : σ → α → σ) (s : Bool → σ) (item : Bool × α) : Bool → σ :=
  Function.update s item.1 (step (s item.1) item.2)

theorem foldl_turn (step : σ → α → σ) (items : List (Bool × α)) (s : Bool → σ) :
    items.foldl (turn step) s = fun t => (ofSide items t).foldl step (s t) := by
  induction items generalizing s with
  | nil => rfl
  | cons item rest ih =>
    obtain ⟨side, x⟩ := item
    rw [List.foldl_cons, ih]
    funext t
    rw [ofSide_cons, turn]
    by_cases h : side = t
    · subst h
      rw [if_pos rfl, Function.update_self]
      rfl
    · rw [if_neg h, Function.update_of_ne (Ne.symm h)]

/-- The layout of what is made in turns. -/
def growths (arena : σ → Arena) (step : σ → α → σ) :
    List (Bool × α) → (Bool → σ) → List (Bool × Arena.Extent)
  | [], _ => []
  | item :: rest, s =>
    (item.1, (arena (s item.1)).growth (arena (step (s item.1) item.2))) ::
      growths arena step rest (turn step s item)

end Turns

/-- Arenas stay woven if each of their changes is one of the arena that holds both. -/
theorem Arena.Woven.foldl {α : Type} {ρ : Bool → Relabel} {step : Arena → α → Arena}
    {step' : Bool → Arena → α → Arena} (hbelow : ∀ a x, Arena.Below a (step a x))
    (hembeds : ∀ side (g : Graft), g.toRelabel = ρ side → ∀ a b x, Embeds g a b →
      (step a x).Below g.limit → Embeds g (step a x) (step' side b x))
    {items : List (Bool × α)} {a : Bool → Arena} {b : Arena} {layout : List (Bool × Extent)}
    (h : Woven ρ a b (growths id step items a ++ layout)) :
    Woven ρ (fun t => (ofSide items t).foldl step (a t))
      (items.foldl (fun b item => step' item.1 b item.2) b) layout := by
  rw [← foldl_turn]
  induction items generalizing a b with
  | nil => exact h
  | cons item rest ih =>
    obtain ⟨side, x⟩ := item
    refine ih (h.step (hbelow _ x) (hembeds side _ rfl _ _ x (h.embeds (hbelow _ x)) ?_))
    exact .refl _

end QueryTaint
