import QueryTaint.Proofs.Program.Entry
import QueryTaint.Proofs.Relabel.Instant
import QueryTaint.Proofs.Relabel.Terrain

/-!
# Independent files do not influence each other

Files of two lists that do not include each other are lowered into one arena, in turns, and the program
is folded, simplified, explored and searched for findings. What comes out is what comes out for each
list alone, up to the numbers of entries and invocations (`Program.independent_of_separate`).
-/

namespace QueryTaint

namespace Program

/-- Under budgets that are large enough, exploring a program that holds two others finds the walks of
both. The invocations get numbers in the order of the functions that are explored. -/
theorem Woven.exists_walks {ρ : Bool → Relabel} {tagged : List (Bool × Script)} {p : Bool → Program}
    {q : Program} (h : Program.Woven ρ tagged p q []) (hrooted : ∀ t, (p t).Rooted)
    (hsep : Separate p) (laravel : Bool) (maxDepth least : Nat) :
    ∃ (k : Nat) (κ : Bool → Nat → Nat) (walks : List (Bool × Walk)), least ≤ k ∧
      (∀ t, StrictMono (κ t)) ∧
      (∀ t, ((p t).explore ⟨maxDepth, k⟩ (Taxonomy.readsInput laravel)).1.walks = ofSide walks t) ∧
      List.Forall₂ (fun w w' => w.2.Twin (ρ w.1) (κ w.1) w') walks
        (q.explore ⟨maxDepth, k⟩ (Taxonomy.readsInput laravel)).1.walks := by
  obtain ⟨mains, hown, hboth, hmade⟩ :=
    h.mains hrooted hsep (fun _ => ⟨maxDepth, 0⟩) ⟨maxDepth, 0⟩ laravel
  obtain ⟨steps, hsteps⟩ := Explorer.exists_halts (fun t => (p t).terrain ⟨maxDepth, 0⟩) mains
  -- a budget above the number of steps is never used up
  let k := max least (mains.length * steps + 1)
  let terrain (t : Bool) : Terrain := (p t).terrain ⟨maxDepth, k⟩
  have hk : mains.length * steps < k := by omega
  have hidle : ({} : Explorer).Idle := ⟨rfl, rfl, rfl⟩
  let κ (t : Bool) : Nat → Nat := place (Explorer.invocationTurns terrain mains fun _ => {}) t
  have hlaid : Explorer.LaidOut κ terrain mains (fun _ => {}) {} := fun t i => by
    rw [Nat.zero_add, Nat.zero_add]
  have naming (t : Bool) : (graft ρ p q t).toRelabel.Naming := Classical.choice (Relabel.exists_naming _)
  have hbudget : ({} : Explorer).stats.walks + mains.length * steps < k := by
    rw [Nat.zero_add]
    exact hk
  obtain ⟨walks, walks', hwalks, hwalks', htwins⟩ := Explorer.exploreFuncs_turns naming
    (h.terrain hrooted hsep (fun _ => ⟨maxDepth, k⟩) ⟨maxDepth, k⟩ fun _ => rfl)
    (fun t => (place_strictMono _ t).injective) (hsteps fun _ => ⟨maxDepth, k⟩) hmade
    (fun _ => hidle) hidle (fun _ => hbudget) hbudget hlaid
  refine ⟨k, κ, walks, Nat.le_max_left .., fun t => place_strictMono _ t, fun t => ?_, ?_⟩
  · have hside := hwalks t
    rw [← hown t] at hside
    exact hside
  · have hfound : (q.explore ⟨maxDepth, k⟩ (Taxonomy.readsInput laravel)).1.walks = walks' := by
      change (({} : Explorer).exploreFuncs (q.terrain ⟨maxDepth, k⟩)
        (q.mains ⟨maxDepth, 0⟩ (Taxonomy.readsInput laravel))).found.toList = walks'
      rw [hboth]
      exact hwalks'
    rw [hfound]
    exact htwins

/-- Exploring changes nothing after the operand for null is made. -/
theorem arena_explore (p : Program) (limits : Limits) (readsInput : Arena → FuncId → Bool) :
    (p.explore limits readsInput).2.arena = p.withNull.arena := rfl

/-- The walks under one budget are those under every other one that is not used up, and the findings
are those on the walks. -/
theorem Woven.explored {ρ : Bool → Relabel} {tagged : List (Bool × Script)} {p : Bool → Program}
    {q : Program} (h : Program.Woven ρ tagged p q []) (hrooted : ∀ t, (p t).Rooted)
    (hsep : Separate p) (laravel : Bool) (maxDepth : Nat) :
    let explored (p : Program) (k : Nat) := p.explore ⟨maxDepth, k⟩ (Taxonomy.readsInput laravel)
    let findings (p : Program) (k : Nat) := (TaintOutcome.ofWalks laravel (explored p k).2.arena
      (explored p k).1.walks).findings.toList
    (∃ enough, ∀ k, enough ≤ k → (∀ t, (explored (p t) k).1.stats.truncated = false) ∧
      (explored q k).1.stats.truncated = false) ∧
    ∃ (κ : Bool → Nat → Nat) (walks : List (Bool × Walk)) (found : List (Bool × Finding)),
      (∀ t, StrictMono (κ t)) ∧
        (∀ t k, (explored (p t) k).1.stats.truncated = false →
          (explored (p t) k).1.walks = ofSide walks t ∧ findings (p t) k = ofSide found t) ∧
        ∀ k, (explored q k).1.stats.truncated = false →
          List.Forall₂ (fun w w' => w.2.Twin (ρ w.1) (κ w.1) w') walks (explored q k).1.walks ∧
            findings q k = found.map fun f => f.2.relabel (ρ f.1) := by
  dsimp only
  have hown (t : Bool) := walks_explore (p t) maxDepth (Taxonomy.readsInput laravel)
  choose enough hall using hown
  obtain ⟨enough', hall'⟩ := walks_explore q maxDepth (Taxonomy.readsInput laravel)
  let least := max enough' (max (enough true) (enough false))
  have hle (t : Bool) : enough t ≤ least := by cases t <;> omega
  have hle' : enough' ≤ least := Nat.le_max_left ..
  obtain ⟨k, κ, walks, hk, hκ, hwalks, htwins⟩ :=
    h.exists_walks hrooted hsep laravel maxDepth least
  obtain ⟨-, -, hsame'⟩ := hall' k (Nat.le_trans hle' hk)
  obtain ⟨found, hfound, hfound'⟩ := TaintOutcome.ofWalks_twin laravel h.opsApart
    (fun t => (h.withNull t).2) htwins
  refine ⟨⟨least, fun j hj => ⟨fun t => ?_, ?_⟩⟩, κ, walks, found, hκ, fun t j hflag => ?_,
    fun j hflag => ?_⟩
  · exact (hall t j (Nat.le_trans (hle t) hj)).1
  · exact (hall' j (Nat.le_trans hle' hj)).1
  · obtain ⟨-, -, hsame⟩ := hall t k (Nat.le_trans (hle t) hk)
    rw [hsame j hflag, hwalks, arena_explore]
    exact ⟨rfl, hfound t⟩
  · rw [hsame' j hflag, arena_explore]
    exact ⟨htwins, hfound'⟩

/-- Independent files do not influence each other. Let files be lowered into one program in turns, fold
and simplify it, and do the same with the files of each side alone, where no script of one side
includes one of the other. Then the program holds the two others under new numbers, budgets that are
large enough are never used up, and whenever no budget is used up, the walks and the findings are those
of the two others, in the order of their turns and with new numbers of entries and invocations. -/
theorem independent_of_separate (files : List (Bool × Prepared)) (laravel : Bool) (maxDepth : Nat)
    (hsep : Separate fun t => ofFiles (ofSide files t)) :
    let own (t : Bool) := ofFiles (ofSide files t)
    let both := ofFiles (files.map (·.2))
    let explored (p : Program) (k : Nat) := p.explore ⟨maxDepth, k⟩ (Taxonomy.readsInput laravel)
    let findings (p : Program) (k : Nat) := (TaintOutcome.ofWalks laravel (explored p k).2.arena
      (explored p k).1.walks).findings.toList
    (∃ enough, ∀ k, enough ≤ k → (∀ t, (explored (own t) k).1.stats.truncated = false) ∧
      (explored both k).1.stats.truncated = false) ∧
    ∃ (ρ : Bool → Relabel) (κ : Bool → Nat → Nat) (scripts : List (Bool × Script))
      (walks : List (Bool × Walk)) (found : List (Bool × Finding)),
      Program.Woven ρ scripts own both [] ∧ (∀ t, StrictMono (κ t)) ∧
        (∀ t k, (explored (own t) k).1.stats.truncated = false →
          (explored (own t) k).1.walks = ofSide walks t ∧ findings (own t) k = ofSide found t) ∧
        ∀ k, (explored both k).1.stats.truncated = false →
          List.Forall₂ (fun w w' => w.2.Twin (ρ w.1) (κ w.1) w') walks (explored both k).1.walks ∧
            findings both k = found.map fun f => f.2.relabel (ρ f.1) := by
  obtain ⟨ρ, scripts, hwoven⟩ := exists_woven files
  obtain ⟨hbudget, κ, walks, found, hκ, hown, hboth⟩ :=
    hwoven.explored (fun _ => .ofFiles _) hsep laravel maxDepth
  dsimp only at hbudget hown hboth ⊢
  exact ⟨hbudget, ρ, κ, scripts, walks, found, hwoven, hκ, hown, hboth⟩

/-! ### Three pages in turns -/

/-- A page that queries by a value of the request. -/
def queryPage (path key : String) : Prepared :=
  let run (kind : ExprKind) : Stmt := .mk (.expr (.mk kind .none)) .none
  let name (s : String) : Expr := .mk (.identifier s) .none
  let id : Expr := .mk (.variable "id") .none
  let value : Expr := .mk (.element (.mk (.variable "_GET") .none)
    (some (.mk (.literal (.string key)) .none))) .none
  (path, .ok ([run (.assign id value), run (.staticCall (name "DB") (name "raw") [⟨id, false⟩])],
    ⟨"", 0, 0⟩))

/-- Two pages of one site, with a page of another site between them. -/
def pagesInTurns : List (Bool × Prepared) :=
  [(true, queryPage "a.php" "x"), (false, queryPage "b.php" "y"), (true, queryPage "c.php" "z")]

theorem independent_of_separate_pagesInTurns :
    (Separate fun t => ofFiles (ofSide pagesInTurns t)) ∧
      let own (t : Bool) := ofFiles (ofSide pagesInTurns t)
      let both := ofFiles (pagesInTurns.map (·.2))
      let explored (p : Program) (k : Nat) := p.explore ⟨5, k⟩ (Taxonomy.readsInput false)
      let findings (p : Program) (k : Nat) := (TaintOutcome.ofWalks false (explored p k).2.arena
        (explored p k).1.walks).findings.toList
      ∃ (k : Nat) (ρ : Bool → Relabel) (found : List (Bool × Finding)),
        (∀ t, findings (own t) k = ofSide found t) ∧
          findings both k = found.map fun f => f.2.relabel (ρ f.1) := by
  have hnone : ∀ t, ∀ s ∈ ((ofSide pagesInTurns t).foldl addPrepared {}).scripts, s.includes = [] := by
    decide +kernel
  have hsep : Separate fun t => ofFiles (ofSide pagesInTurns t) := fun t u _ s hs s' _ => by
    rw [hnone t s hs]
    exact List.not_mem_nil
  obtain ⟨⟨k, hk⟩, ρ, κ, scripts, walks, found, -, -, hown, hboth⟩ :=
    independent_of_separate pagesInTurns false 5 hsep
  obtain ⟨hflag, hflag'⟩ := hk k (Nat.le_refl k)
  exact ⟨hsep, k, ρ, found, fun t => (hown t k (hflag t)).2, (hboth k hflag').2⟩

end Program

end QueryTaint
