import QueryTaint.Proofs.Program.Entry
import QueryTaint.Proofs.Relabel.Program
import QueryTaint.Proofs.Relabel.Resolve
import QueryTaint.Proofs.Relabel.Taint

/-!
# Programs from files are rooted

What the entries of a program mention exists, and so do the functions that its scripts name
(`Program.Rooted`). This is so for every program that is lowered from files, folded and simplified, also
where a file declares a function twice. So every function that a call calls exists
(`Program.Rooted.grounded`).
-/

namespace QueryTaint

/-- One home for all entries is enough for knowing that what they mention exists. -/
theorem Arena.Sorted.coarse {a : Arena} {home : Entry → Option Nat} (h : a.Sorted home) :
    a.Sorted fun _ => none := by
  intro e he
  refine Arena.Within.mono ?_ (h e he)
  rintro e' ⟨-, hin⟩
  exact ⟨rfl, hin⟩

namespace Program

/-- What is mentioned exists. -/
structure Rooted (p : Program) : Prop where
  sorted : p.arena.Sorted fun _ => none
  named : ∀ s ∈ p.scripts, ∀ name f, s.functions.get? name = some f → .func f ∈ p.arena.entries
  main : ∀ s ∈ p.scripts, .func s.main ∈ p.arena.entries

namespace Rooted

variable {p : Program}

theorem empty : ({} : Program).Rooted where
  sorted e he := by cases e <;> exact absurd he (Nat.not_lt_zero _)
  named s hs := by cases hs
  main s hs := by cases hs

theorem rehoused (h : p.Rooted) {a : Arena} (ha : p.arena.Rehouses a) :
    ({ p with arena := a } : Program).Rooted where
  sorted := by
    obtain ⟨home, -, hsorted⟩ := ha.sorted _ h.sorted
    exact hsorted.coarse
  named s hs name f hf := ha.mild.entries (h.named s hs name f hf)
  main s hs := ha.mild.entries (h.main s hs)

theorem optimize (h : p.Rooted) : p.optimize.2.Rooted :=
  h.rehoused (.optimizeAll p.arena p.funcs)

theorem simplify (h : p.Rooted) : p.simplify.2.Rooted :=
  h.rehoused (.simplifyAll p.arena p.funcs)

/-- Another file may be lowered, or fail on the way. -/
theorem add (h : p.Rooted) (path : String) (prepared : Except Error (List Stmt × Labels)) :
    (p.add path prepared).Rooted := by
  unfold Program.add
  cases prepared with
  | error e => exact ⟨h.sorted, h.named, h.main⟩
  | ok file =>
    obtain ⟨stmts, labels⟩ := file
    have hadjoins := adjoins_lowerFile p.arena path labels stmts
    have hsorted := (sorted_settle h.sorted hadjoins none).coarse
    dsimp only
    cases hfile : lowerFile p.arena path labels stmts with
    | mk made a =>
      rw [hfile] at hadjoins hsorted
      cases made with
      | error e =>
        exact ⟨hsorted, fun s hs name f hf => hadjoins.entries (h.named s hs name f hf),
          fun s hs => hadjoins.entries (h.main s hs)⟩
      | ok script =>
        obtain ⟨b, rfl, rfl, hb⟩ := Lower.settled_lowerFile hfile
        refine ⟨hsorted, fun s hs name f hf => ?_, fun s hs => ?_⟩
        · rcases List.mem_append.1 hs with hs | hs
          · exact hadjoins.entries (h.named s hs name f hf)
          · obtain rfl := List.mem_singleton.1 hs
            exact (hb.roots _ (.named hf)).2
        · rcases List.mem_append.1 hs with hs | hs
          · exact hadjoins.entries (h.main s hs)
          · obtain rfl := List.mem_singleton.1 hs
            exact (hb.roots _ .main).2

theorem ofFiles (files : List Prepared) : (Program.ofFiles files).Rooted := by
  have hlowered : (files.foldl Program.addPrepared {}).Rooted := by
    induction files using List.reverseRecOn with
    | nil => exact empty
    | append_singleton files file ih =>
      rw [List.foldl_append]
      exact ih.add file.1 file.2
  exact hlowered.optimize.simplify

/-- Making an operand for null keeps it so. -/
theorem withNull (h : p.Rooted) : p.withNull.Rooted where
  sorted := .of_closed fun l => (h.sorted.closed l).newOperand fun _ _ hx => by cases hx
  named s hs name f hf := Arena.entries_newOperand _ _ (h.named s hs name f hf)
  main s hs := Arena.entries_newOperand _ _ (h.main s hs)

/-- Calls call functions that exist. -/
theorem grounded (h : p.Rooted) (limits : Limits) : (p.terrain limits).resolver.Grounded where
  named i name f hf := by
    obtain ⟨s, hs, full, hfull⟩ := Resolver.function_of_namesOf hf
    exact h.withNull.named s (List.mem_of_getElem? hs) full f hfull
  closures op f hf := by
    by_cases hop : .op op ∈ p.withNull.arena.entries
    · exact ((h.withNull.sorted _ hop).2.2 f hf).2
    · have hdefault : (p.terrain limits).resolver.arena.op op = default :=
        Arena.op_of_le _ (Nat.le_of_not_lt hop)
      rw [hdefault] at hf
      cases hf

end Rooted

end Program

/-!
## Exploring one of two programs

A program that holds two others has the terrains of both, if no script of one includes one of the other
(`Program.Separate`): calls are resolved there as they are in each of the two
(`Program.Woven.terrain`). The operand for null, which each of the three programs makes for itself, is
the last entry, so both sides share the one that is made for both. The top levels that are walked are
those that are walked on each side, in the order of the scripts (`Program.Woven.mains`).
-/

/-! ### Elements in turns -/

section Turns

variable {α β : Type}

/-- The layout of items that are taken one after the other. -/
def unitTurns (items : List (Bool × α)) : List (Bool × Nat) := items.map fun e => (e.1, 1)

theorem getElem?_place (items : List (Bool × α)) (t : Bool) (i : Nat) :
    items[place (unitTurns items) t i]? = (ofSide items t)[i]?.map (t, ·) := by
  induction items generalizing i with
  | nil => rfl
  | cons item rest ih =>
    obtain ⟨side, x⟩ := item
    rw [ofSide_cons, unitTurns, List.map_cons]
    by_cases hside : side = t
    · subst hside
      rw [if_pos rfl]
      cases i with
      | zero =>
        rw [place_now _ _ _ Nat.zero_lt_one]
        rfl
      | succ i =>
        rw [Nat.add_comm i 1, place_later, Nat.add_comm 1 i, Nat.add_comm 1, List.getElem?_cons_succ,
          List.getElem?_cons_succ]
        exact ih i
    · rw [if_neg hside, place_other _ _ _ _ hside, Nat.add_comm, List.getElem?_cons_succ]
      exact ih i

theorem exists_place {items : List (Bool × α)} {j : Nat} {t : Bool} {x : α}
    (hj : items[j]? = some (t, x)) : ∃ i, place (unitTurns items) t i = j := by
  induction items generalizing j with
  | nil => cases hj
  | cons item rest ih =>
    obtain ⟨side, y⟩ := item
    rw [unitTurns, List.map_cons]
    cases j with
    | zero =>
      rw [List.getElem?_cons_zero] at hj
      cases hj
      exact ⟨0, place_now _ _ _ Nat.zero_lt_one⟩
    | succ j =>
      obtain ⟨i, hi⟩ := ih hj
      by_cases hside : side = t
      · subst hside
        exact ⟨1 + i, by rw [place_later, ← unitTurns, hi, Nat.add_comm]⟩
      · exact ⟨i, by rw [place_other _ _ _ _ hside, ← unitTurns, hi, Nat.add_comm]⟩

/-- The elements at certain positions. -/
def chosen : (Nat → Bool) → List α → List α
  | _, [] => []
  | at?, x :: rest =>
    if at? 0 then x :: chosen (fun i => at? (i + 1)) rest else chosen (fun i => at? (i + 1)) rest

theorem filterMap_range (at? : Nat → Bool) (l : List α) (f : α → β) :
    ((List.range l.length).filter at?).filterMap (fun i => l[i]?.map f) = (chosen at? l).map f := by
  induction l generalizing at? with
  | nil => rfl
  | cons x rest ih =>
    have hrest : (((List.range rest.length).map Nat.succ).filter at?).filterMap
        (fun i => (x :: rest)[i]?.map f) = (chosen (fun i => at? (i + 1)) rest).map f := by
      rw [List.filter_map, List.filterMap_map]
      exact ih fun i => at? (i + 1)
    rw [List.length_cons, List.range_succ_eq_map, List.filter_cons, chosen]
    split
    · rw [List.filterMap_cons, hrest]
      rfl
    · exact hrest

theorem mem_of_mem_chosen {at? : Nat → Bool} {l : List α} {x : α} (h : x ∈ chosen at? l) : x ∈ l := by
  induction l generalizing at? with
  | nil => exact h
  | cons y rest ih =>
    rw [chosen] at h
    by_cases hy : at? 0 = true
    · rw [if_pos hy] at h
      rcases List.mem_cons.1 h with rfl | h
      · exact List.mem_cons_self
      · exact List.mem_cons_of_mem _ (ih h)
    · rw [if_neg hy] at h
      exact List.mem_cons_of_mem _ (ih h)

theorem forall₂_chosen {R : α → β → Prop} {l : List α} {l' : List β} (h : List.Forall₂ R l l')
    (at? : Nat → Bool) : List.Forall₂ R (chosen at? l) (chosen at? l') := by
  induction h generalizing at? with
  | nil => exact .nil
  | cons hx _ ih =>
    rw [chosen, chosen]
    split
    · exact .cons hx (ih _)
    · exact ih _

/-- The chosen elements of one side are those at the positions that have chosen places. -/
theorem ofSide_chosen (items : List (Bool × α)) (at? : Nat → Bool) (t : Bool) :
    ofSide (chosen at? items) t =
      chosen (fun i => at? (place (unitTurns items) t i)) (ofSide items t) := by
  induction items generalizing at? with
  | nil => rfl
  | cons item rest ih =>
    obtain ⟨side, x⟩ := item
    have hrest := ih fun i => at? (i + 1)
    rw [chosen, ofSide_cons side x rest, unitTurns, List.map_cons]
    by_cases hside : side = t
    · subst hside
      have hlater (i : Nat) : place ((side, 1) :: unitTurns rest) side (i + 1) =
          place (unitTurns rest) side i + 1 := by
        rw [Nat.add_comm i 1, place_later, Nat.add_comm]
      rw [if_pos rfl, chosen, place_now _ _ _ Nat.zero_lt_one, ← unitTurns]
      simp only [hlater, ← hrest]
      split
      · rw [ofSide_cons, if_pos rfl]
      · rfl
    · have hplace (i : Nat) : place ((side, 1) :: unitTurns rest) t i =
          place (unitTurns rest) t i + 1 := by
        rw [place_other _ _ _ _ hside, Nat.add_comm]
      rw [if_neg hside, ← unitTurns]
      simp only [hplace, ← hrest]
      split
      · rw [ofSide_cons, if_neg hside]
      · rfl

theorem ofSide_mapped (items : List (Bool × α)) (f : α → β) (t : Bool) :
    ofSide (items.map fun e => (e.1, f e.2)) t = (ofSide items t).map f := by
  rw [ofSide, List.filter_map, List.map_map, ofSide, List.map_map]
  rfl

theorem rel_getElem? {R : α → β → Prop} {l : List α} {l' : List β} (h : List.Forall₂ R l l')
    (i : Nat) : Option.Rel R l[i]? l'[i]? := by
  induction h generalizing i with
  | nil => exact .none
  | cons hx _ ih =>
    cases i with
    | zero => exact .some hx
    | succ i => exact ih i

end Turns

/-! ### The operand for null -/

namespace Interlaid

variable {τ : Type} {r : Bool → Nat → Nat} {f : Bool → τ → τ} {xs : Bool → Array τ} {ys : Array τ}
  {side : Bool}

/-- At the end each of the two may make an entry more. -/
theorem inlaid_last (h : Interlaid r f xs ys []) {limit : Nat} (hlimit : limit ≤ (xs side).size + 1) :
    Inlaid (r side) (f side) ys (xs side) ys limit where
  inside := h.inside side
  outside _ _ := rfl
  next k hk := by
    obtain rfl : k = 0 := by omega
    rw [h.next]
    cases side <;> rfl

/-- What a side has made has no place on the other side. -/
theorem ne_of_lt {layout : List (Bool × Nat)} (h : Interlaid r f xs ys layout) {t : Bool}
    (hne : side ≠ t) (i : Nat) {j : Nat} (hj : j < (xs t).size) : r side i ≠ r t j := by
  intro heq
  have hle := h.le_of_eq hne heq
  have hinside := h.inside t j
  rw [Array.getElem?_eq_none (by omega), Array.getElem?_eq_getElem hj] at hinside
  cases hinside

end Interlaid

namespace Program

/-- No script of one program includes one of the other. -/
def Separate (p : Bool → Program) : Prop :=
  ∀ t u, t ≠ u → ∀ s ∈ (p t).scripts, ∀ s' ∈ (p u).scripts, s'.path ∉ s.includes

instance (p : Bool → Program) : Decidable (Separate p) :=
  inferInstanceAs (Decidable (∀ t u, t ≠ u → ∀ s ∈ _, ∀ s' ∈ _, _))

namespace Woven

variable {ρ : Bool → Relabel} {tagged : List (Bool × Script)} {p : Bool → Program} {q : Program}

/-- How the arena of one side is embedded when it has an operand for null. -/
def graft (ρ : Bool → Relabel) (p : Bool → Program) (q : Program) (t : Bool) : Graft :=
  Arena.Woven.graft (ρ t) q.arena (p t).withNull.arena

theorem withNull (h : Program.Woven ρ tagged p q []) (t : Bool) :
    (q.arena.newOperand .null).1 = (ρ t).operand ((p t).arena.newOperand .null).1 ∧
      (p t).withNull.arena.Embeds (graft ρ p q t) q.withNull.arena := by
  have hembeds : (p t).arena.Embeds (graft ρ p q t) q.arena :=
    ⟨h.arena.operands.inlaid_last (by simp [graft, Arena.Woven.graft, Program.withNull, Arena.newOperand]),
      h.arena.ops.inlaid_last (Nat.le_succ _), h.arena.blocks.inlaid_last (Nat.le_succ _),
      h.arena.funcs.inlaid_last (Nat.le_succ _)⟩
  exact hembeds.newOperand .null (.refl _)

/-! ### Scripts -/

/-- The numbers of the scripts of a side. -/
abbrev scriptPlace (tagged : List (Bool × Script)) (t : Bool) : Nat → Nat :=
  place (unitTurns tagged) t

theorem among (h : Program.Woven ρ tagged p q []) (hrooted : ∀ t, (p t).Rooted) (hsep : Separate p)
    (t : Bool) : Script.Among (ρ t) (scriptPlace tagged t) (p t).scripts q.scripts where
  mono := place_strictMono _ t
  inside i := by
    have hrel := rel_getElem? h.twins (scriptPlace tagged t i)
    rw [getElem?_place, ← h.own] at hrel
    cases hs : (p t).scripts[i]? with
    | none =>
      rw [hs] at hrel
      rw [eq_none_of_rel hrel]
      exact .none
    | some s =>
      rw [hs] at hrel
      obtain ⟨s', hs', htwin⟩ := exists_of_rel_some hrel
      rw [hs']
      exact .some htwin
  foreign j s' hs' hj := by
    have hrel := rel_getElem? h.twins j
    rw [hs'] at hrel
    obtain ⟨⟨u, s₂⟩, he, htwin⟩ := exists_of_rel_some_right hrel
    have hne : t ≠ u := fun heq => by
      obtain ⟨i, hi⟩ := exists_place (heq ▸ he)
      exact hj i hi
    have hmem : s₂ ∈ (p u).scripts := by
      rw [h.own, mem_ofSide]
      exact List.mem_of_getElem? he
    constructor
    · intro s hs
      rw [htwin.path]
      exact hsep t u hne s hs s₂ hmem
    · intro name f' hf' f heq
      have hfunctions : s'.functions.get? name = (s₂.functions.get? name).map (ρ u).func :=
        htwin.functions name
      rw [hf'] at hfunctions
      obtain ⟨f₂, hf₂, rfl⟩ := Option.map_eq_some_iff.1 hfunctions.symm
      have hmade : f₂.index < (p u).arena.funcs.size := (hrooted u).named s₂ hmem name f₂ hf₂
      exact h.arena.funcs.ne_of_lt hne f.index hmade (congrArg FuncId.index heq)

theorem terrain (h : Program.Woven ρ tagged p q []) (hrooted : ∀ t, (p t).Rooted)
    (hsep : Separate p) (limits : Bool → Limits) (limits' : Limits)
    (hdepth : ∀ t, limits'.maxDepth = (limits t).maxDepth) (t : Bool) :
    ((p t).terrain (limits t)).Twin (graft ρ p q t) (scriptPlace tagged t) (q.terrain limits') where
  resolver := Resolver.twin_ofScripts (h.withNull t).2 (h.among hrooted hsep t)
  grounded := (hrooted t).grounded (limits t)
  null := (h.withNull t).1
  maxDepth := hdepth t

theorem opsApart (h : Program.Woven ρ tagged p q []) :
    TaintOutcome.OpsApart (graft ρ p q) fun t => (p t).withNull.arena :=
  fun _ _ x _ hne hy heq => h.arena.ops.ne_of_lt hne x.index hy (congrArg OpId.index heq)

end Woven

/-! ### The top levels that are walked -/

/-- Whether a function that reads input is visible from a script. -/
def sees (p : Program) (resolver : Resolver) (readsInput : FuncId → Bool) (i : Nat) : Bool :=
  (resolver.visibleOf i).any fun j =>
    match p.scripts[j]? with
    | some s => s.ordered.any readsInput
    | none => false

theorem mains_eq (p : Program) (limits : Limits) (readsInput : Arena → FuncId → Bool) :
    p.mains limits readsInput =
      (chosen (p.sees (p.terrain limits).resolver (readsInput p.withNull.arena)) p.scripts).map
        (·.main) :=
  filterMap_range _ p.scripts (·.main)

namespace Woven

variable {ρ : Bool → Relabel} {tagged : List (Bool × Script)} {p : Bool → Program} {q : Program}

theorem sees (h : Program.Woven ρ tagged p q []) (hrooted : ∀ t, (p t).Rooted) (hsep : Separate p)
    (limits : Bool → Limits) (limits' : Limits) (laravel : Bool) (t : Bool) (i : Nat) :
    q.sees (q.terrain limits').resolver (Taxonomy.readsInput laravel q.withNull.arena)
        (scriptPlace tagged t i) =
      (p t).sees ((p t).terrain (limits t)).resolver
        (Taxonomy.readsInput laravel (p t).withNull.arena) i := by
  have hembeds := (h.withNull t).2
  have hamong := h.among hrooted hsep t
  have hresolver := Resolver.twin_ofScripts hembeds hamong
  unfold Program.sees
  dsimp only [Program.terrain]
  rw [hresolver.visible, List.any_map]
  refine congrArg (List.any _) (funext fun j => ?_)
  rw [Function.comp_apply]
  cases hs : (p t).scripts[j]? with
  | none => rw [hamong.getElem?_eq_none hs]
  | some s =>
    obtain ⟨s', hs', htwin⟩ := hamong.getElem?_eq_some hs
    rw [hs']
    dsimp only
    rw [htwin.ordered, List.any_map]
    exact congrArg (List.any _) (funext fun f => hembeds.readsInput laravel f)

/-- The top levels that are walked are those of the sides, in the order of the scripts. -/
theorem mains (h : Program.Woven ρ tagged p q []) (hrooted : ∀ t, (p t).Rooted) (hsep : Separate p)
    (limits : Bool → Limits) (limits' : Limits) (laravel : Bool) :
    ∃ mains : List (Bool × FuncId),
      (∀ t, (p t).mains (limits t) (Taxonomy.readsInput laravel) = ofSide mains t) ∧
      q.mains limits' (Taxonomy.readsInput laravel) = mains.map (fun e => (ρ e.1).func e.2) ∧
      ∀ e ∈ mains, .func e.2 ∈ (p e.1).withNull.arena.entries := by
  let at? := q.sees (q.terrain limits').resolver (Taxonomy.readsInput laravel q.withNull.arena)
  refine ⟨(chosen at? tagged).map fun e => (e.1, e.2.main), fun t => ?_, ?_, ?_⟩
  · have hsees : (fun i => at? (place (unitTurns tagged) t i)) = (p t).sees
        ((p t).terrain (limits t)).resolver (Taxonomy.readsInput laravel (p t).withNull.arena) :=
      funext fun i => h.sees hrooted hsep limits limits' laravel t i
    rw [mains_eq, ofSide_mapped, ofSide_chosen, ← h.own, hsees]
  · rw [mains_eq, List.map_map]
    have htwins := forall₂_chosen h.twins at?
    change (chosen at? q.scripts).map (·.main) = _
    generalize chosen at? tagged = own at htwins ⊢
    generalize chosen at? q.scripts = both at htwins ⊢
    induction htwins with
    | nil => rfl
    | cons htwin _ ih => rw [List.map_cons, List.map_cons, ih, htwin.main]; rfl
  · intro e he
    obtain ⟨⟨t, s⟩, hs, rfl⟩ := List.mem_map.1 he
    have hmem : s ∈ (p t).scripts := by
      rw [h.own, mem_ofSide]
      exact mem_of_mem_chosen hs
    exact (hrooted t).withNull.main s hmem

end Woven

end Program

end QueryTaint
