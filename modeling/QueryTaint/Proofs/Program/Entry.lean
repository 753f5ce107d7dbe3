import QueryTaint.Proofs.Program.Home
import QueryTaint.Proofs.Taint.Flow
import QueryTaint.Proofs.Walk.Budget
import QueryTaint.Proofs.Walk.Confine
import QueryTaint.Proofs.Walk.Visible

/-!
# Scripts that need not be walked

A script is walked only if some function of a visible script reads an input or calls a source. This
loses no finding (`Program.findings_entries_iff`): a walk from the top level of a script stays among
the entries of the visible scripts (`Program.Housed.confines`), a finding needs a source on the walk,
and a source is an operation that a function of its script lists, or that reads an input which a
function of its script is marked for (`Program.Housed.readsInput_of_source`).
-/

namespace QueryTaint

/-! ## Sources -/

/-- A source is a call that its function lists, or it reads an input. -/
theorem Taxonomy.listed_or_symbolic_of_isSource {laravel : Bool} {a : Arena} {kind : OpKind}
    (h : isSource laravel a kind = true) :
    kind.isListedCall = true ∨ ∃ x ∈ kind.operands, a.isSymbolic x = true := by
  unfold isSource at h
  split at h
  · rename_i answer hdecided
    unfold decidedSource? at hdecided
    split at hdecided
    · split at hdecided
      · rename_i var dim result hsymbolic
        exact .inr ⟨var, by simp, hsymbolic⟩
      · cases hdecided
    · split at hdecided
      · rename_i var expr result hsymbolic
        exact .inr ⟨expr, by simp, hsymbolic⟩
      · cases hdecided
    · exact .inl rfl
    · exact .inl rfl
    · cases hdecided
  · obtain ⟨x, hx, hsymbolic⟩ := List.any_eq_true.1 (Bool.and_eq_true_iff.1 h).2
    exact .inr ⟨x, OpKind.mem_operands_of_mem_reads hx, hsymbolic⟩

theorem Arena.isInput_valueOf {a : Arena} {x : OperandId} (h : a.isSymbolic x = true) :
    (a.operand (a.valueOf x)).kind.isInput = true := by
  unfold isSymbolic at h
  split at h
  · rename_i heq
    rw [heq]
    rfl
  · cases h

namespace Program

variable {p : Program} {home : Entry → Option Nat} {i : Nat}

/-- A function of the script where a source is at home reads input. -/
theorem Housed.readsInput_of_source (h : p.Housed home) {s : Script} (hs : p.scripts[i]? = some s)
    {op : OpId} (hop : .op op ∈ p.arena.entries) (hhome : home (.op op) = some i) {laravel : Bool}
    (hsource : Taxonomy.isSource laravel p.arena (p.arena.op op).kind = true) :
    ∃ f ∈ s.ordered, Taxonomy.readsInput laravel p.arena f = true := by
  have hlives := h.scripts i s hs
  rcases Taxonomy.listed_or_symbolic_of_isSource hsource with hlisted | ⟨x, hx, hsymbolic⟩
  · obtain ⟨f, hf, hmem⟩ := hlives.calls op hhome hlisted
    refine ⟨f, hf, ?_⟩
    rw [Taxonomy.readsInput, List.any_eq_true.2 ⟨op, hmem, hsource⟩, Bool.or_true]
  · have hvalue : .operand (p.arena.valueOf x) ∈ p.arena.house home (.op op) := by
      refine Arena.valueOf_mem (fun e he => ?_) ((h.sorted _ hop).1 x hx)
      exact Arena.house_congr he ▸ h.sorted e he.2
    obtain ⟨f, hf, hreads⟩ :=
      hlives.inputs _ (hvalue.1.trans hhome) (Arena.isInput_valueOf hsymbolic)
    refine ⟨f, hf, ?_⟩
    rw [Taxonomy.readsInput, hreads, Bool.true_or]

/-! ## Where a program is explored -/

/-- The program with an operand for null. -/
def withNull (p : Program) : Program := { p with arena := (p.arena.newOperand .null).2 }

/-- Where the walks of a program are. -/
def terrain (p : Program) (limits : Limits) : Terrain :=
  ⟨.ofScripts p.withNull.arena p.scripts, (p.arena.newOperand .null).1, limits⟩

/-- The entries that walks from a script can come to: null, and those at home in visible scripts. -/
def confinement (p : Program) (home : Entry → Option Nat) (i : Nat) : Set Entry :=
  {e | e = .operand (p.arena.newOperand .null).1 ∨ ∃ j ∈ visibleFrom p.scripts i, home e = some j} ∩
    p.withNull.arena.entries

theorem Housed.withNull (h : p.Housed home) : p.withNull.Housed home where
  sorted := .of_closed fun l => (h.sorted.closed l).newOperand fun _ _ hx => by cases hx
  scripts j s hs := (h.scripts j s hs).rehoused (.newOperand p.arena rfl) fun _ _ => rfl

theorem Housed.within_confinement (h : p.Housed home) {e : Entry} (he : e ∈ p.confinement home i) :
    p.withNull.arena.Within (p.confinement home i) e := by
  obtain ⟨rfl | ⟨j, hj, hhome⟩, hin⟩ := he
  · have hnull : p.withNull.arena.operand (p.arena.newOperand .null).1 = { kind := .null } :=
      (Arena.operand_newOperand ..).trans (if_pos rfl)
    rw [Arena.Within, hnull]
    exact ⟨List.forall_mem_nil _, List.forall_mem_nil _, List.forall_mem_nil _, List.forall_mem_nil _⟩
  · refine (h.withNull.sorted e hin).mono ?_
    rintro e' ⟨hsame, hin'⟩
    exact ⟨.inr ⟨j, hj, hsame.trans hhome⟩, hin'⟩

/-- Walks stay among the entries of the scripts that are visible from where they start. -/
theorem Housed.confines (h : p.Housed home) (i : Nat) (limits : Limits) :
    (p.terrain limits).Confines (p.confinement home i) where
  within _ he := h.within_confinement he
  null := ⟨.inl rfl, by simp [terrain, Program.withNull, Arena.newOperand]⟩
  named f hf script hscript k hk name g hg := by
    obtain ⟨s, hs, full, hfull⟩ := Resolver.function_of_scriptOf? hscript
    have hlt : script < p.scripts.length := (List.getElem?_eq_some_iff.1 hs).1
    have hhome := ((h.withNull.scripts script s hs).named full f hfull).2
    obtain ⟨hnull | ⟨j, hj, hhome'⟩, -⟩ := hf
    · cases hnull
    obtain rfl : script = j := Option.some.inj (hhome.symm.trans hhome')
    have hk : k ∈ visibleFrom p.scripts script := Resolver.visibleOf_ofScripts hlt ▸ hk
    obtain ⟨s', hs', full', hfull'⟩ := Resolver.function_of_namesOf hg
    obtain ⟨hin, hhome⟩ := (h.withNull.scripts k s' hs').named full' g hfull'
    exact ⟨.inr ⟨k, visibleFrom_trans hj hk, hhome⟩, hin⟩

/-- A walk from the top level of a script that has a finding comes to a source, and so a function of
a visible script reads input. -/
theorem Housed.visible_readsInput (h : p.Housed home) {s : Script} (hs : p.scripts[i]? = some s)
    {limits : Limits} {w : Walk} (hw : w ∈ (p.terrain limits).walks s.main) {laravel : Bool}
    {f : Finding} (hf : f ∈ TaintOutcome.ofWalk laravel p.withNull.arena w) :
    ∃ j ∈ visibleFrom p.scripts i, ∃ s', p.scripts[j]? = some s' ∧
      ∃ g ∈ s'.ordered, Taxonomy.readsInput laravel p.withNull.arena g = true := by
  have hlives := h.withNull.scripts i s hs
  have hmain : .func s.main ∈ p.confinement home i := by
    obtain ⟨hin, hhome⟩ := hlives.ordered s.main hlives.main
    exact ⟨.inr ⟨i, self_mem_visibleFrom (List.getElem?_eq_some_iff.1 hs).1, hhome⟩, hin⟩
  obtain ⟨op, hop, hsource⟩ := TaintOutcome.source_of_mem_ofWalk hf
  obtain ⟨hnull | ⟨j, hj, hhome⟩, hin⟩ :=
    Terrain.confined_of_walks (h.confines i limits) hmain hw hop
  · cases hnull
  obtain ⟨s', hs'⟩ : ∃ s', p.scripts[j]? = some s' :=
    ⟨_, List.getElem?_eq_getElem (lt_of_mem_visibleFrom hj)⟩
  exact ⟨j, hj, s', hs', h.withNull.readsInput_of_source hs' hin hhome hsource⟩

/-! ## Entries -/

variable {readsInput : Arena → FuncId → Bool}

/-- A script is an entry if a function of a visible script reads input. -/
theorem mem_entries_explore {limits : Limits} :
    i ∈ (p.explore limits readsInput).1.entries ↔ ∃ j ∈ visibleFrom p.scripts i,
      ∃ s, p.scripts[j]? = some s ∧ ∃ f ∈ s.ordered, readsInput p.withNull.arena f = true := by
  have hentry : i ∈ (p.explore limits readsInput).1.entries ↔ i < p.scripts.length ∧
      ∃ j ∈ (Resolver.ofScripts p.withNull.arena p.scripts).visibleOf i,
        ∃ s, p.scripts[j]? = some s ∧ s.ordered.any (readsInput p.withNull.arena) = true := by
    change i ∈ List.filter _ _ ↔ _
    rw [List.mem_filter, List.mem_range, List.any_eq_true]
    refine and_congr_right fun _ => exists_congr fun j => and_congr_right fun _ => ?_
    split
    · rename_i s hs
      refine ⟨fun hany => ⟨s, hs, hany⟩, ?_⟩
      rintro ⟨s', hs', hany⟩
      cases hs.symm.trans hs'
      exact hany
    · rename_i hs
      refine ⟨fun hany => absurd hany Bool.false_ne_true, ?_⟩
      rintro ⟨s', hs', -⟩
      cases hs.symm.trans hs'
  rw [hentry]
  constructor
  · rintro ⟨hi, j, hj, s, hs, hany⟩
    exact ⟨j, Resolver.visibleOf_ofScripts hi ▸ hj, s, hs, List.any_eq_true.1 hany⟩
  · rintro ⟨j, hj, s, hs, hany⟩
    have hi := (mem_visibleFrom_iff.1 hj).1
    exact ⟨hi, j, (Resolver.visibleOf_ofScripts hi).symm ▸ hj, s, hs, List.any_eq_true.2 hany⟩

/-- The top levels that are walked. -/
def mains (p : Program) (limits : Limits) (readsInput : Arena → FuncId → Bool) : List FuncId :=
  (p.explore limits readsInput).1.entries.filterMap fun i => (p.scripts[i]?).map (·.main)

/-- If no limit cuts walks off, the walks of a program are those of its entries; numbers of
invocations apart. -/
theorem walks_explore (p : Program) (maxDepth : Nat) (readsInput : Arena → FuncId → Bool) :
    ∃ enough, ∀ k, enough ≤ k →
      let r := (p.explore ⟨maxDepth, k⟩ readsInput).1
      r.stats.truncated = false ∧
        r.walks.map Walk.anonymous =
          (p.mains ⟨maxDepth, 0⟩ readsInput).flatMap (p.terrain ⟨maxDepth, k⟩).walks ∧
        ∀ j, let r' := (p.explore ⟨maxDepth, j⟩ readsInput).1
          r'.stats.truncated = false → r'.walks = r.walks := by
  obtain ⟨all, enough, h⟩ := Explorer.found_budgeted (p.terrain ⟨maxDepth, 0⟩)
    (p.mains ⟨maxDepth, 0⟩ readsInput)
  refine ⟨max enough (all.length + 1), fun k hk => ?_⟩
  obtain ⟨hwalks, htruncated⟩ := (h k).1 (Nat.le_trans (Nat.le_max_left ..) hk)
  refine ⟨htruncated, ?_, fun j hj => ((h j).2.2 hj).trans hwalks.symm⟩
  have htake := Explorer.found_exploreFuncs_of_atRest (e := {})
    ((p.terrain ⟨maxDepth, 0⟩).budgeted k) (p.mains ⟨maxDepth, 0⟩ readsInput) ⟨rfl, rfl, rfl⟩
  have hnone : ({} : Explorer).found.toList.map Walk.anonymous = [] := rfl
  have hremaining : ({} : Explorer).remaining ((p.terrain ⟨maxDepth, 0⟩).budgeted k) = k := rfl
  rw [hwalks, hnone, hremaining, List.nil_append] at htake
  -- the budget exceeds the number of walks, so it cuts nothing off
  have hlength := congrArg List.length htake
  rw [List.length_map, List.length_take] at hlength
  rw [List.take_of_length_le (by omega)] at htake
  exact (congrArg (List.map Walk.anonymous) hwalks).trans htake

/-- A finding on a walk is found from an entry. -/
theorem mem_findings_explore {maxDepth k : Nat} {laravel : Bool} {f : Finding}
    (h : (p.explore ⟨maxDepth, k⟩ readsInput).1.walks.map Walk.anonymous =
      (p.mains ⟨maxDepth, 0⟩ readsInput).flatMap (p.terrain ⟨maxDepth, k⟩).walks) :
    f ∈ (TaintOutcome.ofWalks laravel p.withNull.arena
        (p.explore ⟨maxDepth, k⟩ readsInput).1.walks).findings ↔
      ∃ i ∈ (p.explore ⟨maxDepth, 0⟩ readsInput).1.entries, ∃ s, p.scripts[i]? = some s ∧
        ∃ w ∈ (p.terrain ⟨maxDepth, k⟩).walks s.main,
          f ∈ TaintOutcome.ofWalk laravel p.withNull.arena w := by
  have hevents : (∃ w ∈ (p.explore ⟨maxDepth, k⟩ readsInput).1.walks,
        f ∈ TaintOutcome.ofWalk laravel p.withNull.arena w) ↔
      ∃ w ∈ (p.explore ⟨maxDepth, k⟩ readsInput).1.walks.map Walk.anonymous,
        f ∈ TaintOutcome.ofWalk laravel p.withNull.arena w := by
    simp only [List.mem_map, exists_exists_and_eq_and]
    refine exists_congr fun w => and_congr_right fun _ => ?_
    rw [TaintOutcome.ofWalk_congr (show w.anonymous.events = w.events from rfl)]
  rw [TaintOutcome.mem_findings_ofWalks, hevents, h]
  simp only [mains, List.mem_flatMap, List.mem_filterMap, Option.map_eq_some_iff]
  constructor
  · rintro ⟨w, ⟨_, ⟨i, hi, s, hs, rfl⟩, hw⟩, hf⟩
    exact ⟨i, hi, s, hs, w, hw, hf⟩
  · rintro ⟨i, hi, s, hs, w, hw, hf⟩
    exact ⟨w, ⟨_, ⟨i, hi, s, hs, rfl⟩, hw⟩, hf⟩

/-- Without the choice of entries every script is walked. -/
theorem Housed.entries_explore_all (h : p.Housed home) (limits : Limits) :
    (p.explore limits fun _ _ => true).1.entries = List.range p.scripts.length := by
  have hall (i : Nat) (hi : i < p.scripts.length) :
      i ∈ (p.explore limits fun _ _ => true).1.entries := by
    have hs : p.scripts[i]? = some p.scripts[i] := List.getElem?_eq_getElem hi
    exact mem_entries_explore.2
      ⟨i, self_mem_visibleFrom hi, _, hs, _, (h.scripts i _ hs).main, rfl⟩
  refine List.filter_eq_self.2 fun i hi => ?_
  exact (List.mem_filter.1 (hall i (List.mem_range.1 hi))).2

/-- Walking the entries only gives the findings that walking every script gives, whatever the scripts
include. -/
theorem Housed.findings_entries (h : p.Housed home) (laravel : Bool) (maxDepth : Nat) :
    let full (k : Nat) := p.explore ⟨maxDepth, k⟩ fun _ _ => true
    let kept (k : Nat) := p.explore ⟨maxDepth, k⟩ (Taxonomy.readsInput laravel)
    (∃ enough, ∀ k, enough ≤ k →
        (full k).1.stats.truncated = false ∧ (kept k).1.stats.truncated = false) ∧
      ∀ k, (full k).1.stats.truncated = false → (kept k).1.stats.truncated = false → ∀ f,
        f ∈ (TaintOutcome.ofWalks laravel (kept k).2.arena (kept k).1.walks).findings ↔
          f ∈ (TaintOutcome.ofWalks laravel (full k).2.arena (full k).1.walks).findings := by
  intro full kept
  obtain ⟨n, hfull⟩ := walks_explore p maxDepth fun _ _ => true
  obtain ⟨m, hkept⟩ := walks_explore p maxDepth (Taxonomy.readsInput laravel)
  refine ⟨⟨max n m, fun k hk => ?_⟩, fun k htf htk f => ?_⟩
  · exact ⟨(hfull k (Nat.le_trans (Nat.le_max_left ..) hk)).1,
      (hkept k (Nat.le_trans (Nat.le_max_right ..) hk)).1⟩
  obtain ⟨-, hwalksFull, hsameFull⟩ := hfull (max n m) (Nat.le_max_left ..)
  obtain ⟨-, hwalksKept, hsameKept⟩ := hkept (max n m) (Nat.le_max_right ..)
  change f ∈ (TaintOutcome.ofWalks laravel p.withNull.arena (kept k).1.walks).findings ↔
    f ∈ (TaintOutcome.ofWalks laravel p.withNull.arena (full k).1.walks).findings
  rw [hsameFull k htf, hsameKept k htk, mem_findings_explore hwalksFull,
    mem_findings_explore hwalksKept]
  constructor
  · rintro ⟨i, hi, s, hs, hfound⟩
    refine ⟨i, ?_, s, hs, hfound⟩
    rw [h.entries_explore_all]
    exact List.mem_range.2 (List.getElem?_eq_some_iff.1 hs).1
  · rintro ⟨i, -, s, hs, w, hw, hf⟩
    exact ⟨i, mem_entries_explore.2 (h.visible_readsInput hs hw hf), s, hs, w, hw, hf⟩

/-- Walking the entries only gives the findings that walking every script gives, for scripts that
are lowered from files, folded and simplified, none of which declares two functions of one name. It
makes no difference whether the scripts were made to include the files of their classes before.
From some budget on neither runs out of walks, and whenever neither does the findings are the
same. -/
theorem findings_entries_iff (files : List (String × Except Error (List Stmt × Labels)))
    (hnames : ({} : Program).AddsAllDistinct files) (laravel : Bool) (maxDepth : Nat)
    (fileOf? : Option (String → Option String)) :
    let lowered := files.foldl (fun p file => p.add file.1 file.2) ({} : Program)
    let loaded := fileOf?.elim lowered lowered.autoload
    let p := loaded.optimize.2.simplify.2
    let full (k : Nat) := p.explore ⟨maxDepth, k⟩ fun _ _ => true
    let kept (k : Nat) := p.explore ⟨maxDepth, k⟩ (Taxonomy.readsInput laravel)
    (∀ k, (full k).1.entries = List.range p.scripts.length) ∧
      (∃ enough, ∀ k, enough ≤ k →
        (full k).1.stats.truncated = false ∧ (kept k).1.stats.truncated = false) ∧
      ∀ k, (full k).1.stats.truncated = false → (kept k).1.stats.truncated = false → ∀ f,
        f ∈ (TaintOutcome.ofWalks laravel (kept k).2.arena (kept k).1.walks).findings ↔
          f ∈ (TaintOutcome.ofWalks laravel (full k).2.arena (full k).1.walks).findings := by
  intro lowered loaded p full kept
  obtain ⟨home, hlowered⟩ := housed_of_files hnames
  have hloaded : loaded.Housed home := by
    cases fileOf? with
    | none => exact hlowered
    | some fileOf? => exact hlowered.autoload fileOf?
  obtain ⟨home₁, hfolded⟩ := hloaded.optimize
  obtain ⟨home₂, h⟩ := hfolded.simplify
  exact ⟨fun k => h.entries_explore_all _, h.findings_entries laravel maxDepth⟩

/-! ### Three pages -/

/-- A page with a method that queries by its argument, one that includes it and calls the method
with a value of the request, and one that reads nothing. -/
def threePages : List (String × Except Error (List Stmt × Labels)) :=
  let var (name : String) : Expr := .mk (.variable name) .none
  let text (s : String) : Expr := .mk (.literal (.string s)) .none
  let run (kind : ExprKind) : Stmt := .mk (.expr (.mk kind .none)) .none
  let call (cls method : String) (arg : Expr) : Stmt :=
    run (.staticCall (.mk (.identifier cls) .none) (.mk (.identifier method) .none) [⟨arg, false⟩])
  let find : Stmt := .mk (.method "find" 0 [⟨"id", none, false, false, none, .none⟩] false none
    (some [call "DB" "raw" (var "id")])) .none
  let value : Expr := .mk (.element (var "_GET") (some (text "id"))) .none
  [("find.php", .ok ([.mk (.classDecl .plain ⟨.plain, ["Page"], .none⟩ 0 none [] [find]) .none],
      ⟨"", 0, 0⟩)),
    ("index.php", .ok ([run (.includeFile .required (text "find.php")),
      run (.assign (var "id") value), call "Page" "find" (var "id")], ⟨"", 0, 0⟩)),
    ("about.php", .ok ([.mk (.echo [text "hello"]) .none], ⟨"", 0, 0⟩))]

theorem findings_entries_iff_threePages :
    ({} : Program).AddsAllDistinct threePages ∧
      ∀ fileOf? ∈ [none, some fun _ => some "find.php"],
        let lowered := threePages.foldl (fun p file => p.add file.1 file.2) ({} : Program)
        let p := (fileOf?.elim lowered lowered.autoload).optimize.2.simplify.2
        ∃ k, let full := p.explore ⟨5, k⟩ fun _ _ => true
          let kept := p.explore ⟨5, k⟩ (Taxonomy.readsInput false)
          full.1.stats.truncated = false ∧ kept.1.stats.truncated = false ∧ ∀ f,
            f ∈ (TaintOutcome.ofWalks false kept.2.arena kept.1.walks).findings ↔
              f ∈ (TaintOutcome.ofWalks false full.2.arena full.1.walks).findings := by
  have hnames : ({} : Program).AddsAllDistinct threePages := by decide +kernel
  refine ⟨hnames, fun fileOf? _ => ?_⟩
  obtain ⟨-, ⟨enough, h⟩, hsame⟩ := findings_entries_iff threePages hnames false 5 fileOf?
  obtain ⟨hfull, hkept⟩ := h enough (Nat.le_refl _)
  exact ⟨enough, hfull, hkept, hsame enough hfull hkept⟩

end Program

/-!
## What the flag of the budget says

The flag is set where a task is given up because the budget has run out. So it tells that as many
walks were found as the budget allows (`Program.walks_of_truncated`). It does not tell that a walk is
missing (`Program.truncated_onePage`): any task that is left over sets it, also one that takes a
block off the walk or an assumption back, and such a task stands after the last walk of every
function.
-/

/-- What exploring found is counted, and the flag is set only if the budget has run out. -/
theorem Explorer.counted_exploreFuncs (t : Terrain) (funcs : List FuncId) :
    Instant.Counted t (({} : Explorer).exploreFuncs t funcs) := by
  obtain ⟨n, hn⟩ := Instant.halts_start t.resolver t.null funcs
  have hexplorer := (hn t.limits {} [] rfl).explorer_eq
  exact hexplorer ▸ (Instant.counted_start t funcs).run n

namespace Program

variable {p : Program} {limits : Limits} {readsInput : Arena → FuncId → Bool}

/-- Exploring a program is exploring the top levels that are walked. -/
theorem explore_eq (p : Program) (limits : Limits) (readsInput : Arena → FuncId → Bool) :
    let e := ({} : Explorer).exploreFuncs (p.terrain limits) (p.mains limits readsInput)
    (p.explore limits readsInput).1.walks = e.found.toList ∧
      (p.explore limits readsInput).1.stats = e.stats :=
  ⟨rfl, rfl⟩

/-- If the flag is set, as many walks were found as the budget allows. -/
theorem length_walks_of_truncated (h : (p.explore limits readsInput).1.stats.truncated = true) :
    (p.explore limits readsInput).1.walks.length = limits.maxWalks := by
  have hcounted := Explorer.counted_exploreFuncs (p.terrain limits) (p.mains limits readsInput)
  have hspent := Explorer.Instant.remaining_eq_zero.1 (hcounted.flagged h)
  exact hcounted.size.trans (Nat.le_antisymm hcounted.within hspent)

/-- A budget of at least as many walks as there are finds all of them. -/
theorem walks_explore_of_length_le (p : Program) {maxDepth j k : Nat}
    {readsInput : Arena → FuncId → Bool}
    (hflag : (p.explore ⟨maxDepth, j⟩ readsInput).1.stats.truncated = false)
    (hle : (p.explore ⟨maxDepth, j⟩ readsInput).1.walks.length ≤ k) :
    (p.explore ⟨maxDepth, k⟩ readsInput).1.walks = (p.explore ⟨maxDepth, j⟩ readsInput).1.walks := by
  obtain ⟨all, enough, h⟩ := Explorer.found_budgeted (p.terrain ⟨maxDepth, 0⟩)
    (p.mains ⟨maxDepth, 0⟩ readsInput)
  have hall : (p.explore ⟨maxDepth, j⟩ readsInput).1.walks = all := (h j).2.2 hflag
  have htake : (p.explore ⟨maxDepth, k⟩ readsInput).1.walks = all.take (min k all.length) :=
    (h k).2.1
  rw [hall] at hle ⊢
  rw [htake, Nat.min_eq_right hle, List.take_length]

/-- The only script of a program is walked if it reads input. -/
theorem mains_of_single {s : Script} (hs : p.scripts = [s])
    (hreads : ∃ f ∈ s.ordered, readsInput p.withNull.arena f = true) :
    p.mains limits readsInput = [s.main] := by
  have hentry : 0 ∈ (p.explore limits readsInput).1.entries :=
    mem_entries_explore.2 ⟨0, self_mem_visibleFrom (by simp [hs]), s, by simp [hs], hreads⟩
  have hentries : (p.explore limits readsInput).1.entries = [0] := by
    have hrange : List.range p.scripts.length = [0] := by rw [hs]; rfl
    change List.filter _ (List.range p.scripts.length) = _
    rw [hrange]
    refine List.filter_eq_self.2 fun i hi => ?_
    obtain rfl := List.mem_singleton.1 hi
    exact (List.mem_filter.1 hentry).2
  rw [mains, hentries, hs]
  rfl

/-- The flag is set only if the budget is used up. There are walks that exploring a program gives
under every budget from some number on; and if a budget sets the flag then it gives as many walks as
it allows, and a further one of these walks is missing unless they are exactly that many. -/
theorem walks_of_truncated (p : Program) (maxDepth : Nat) (readsInput : Arena → FuncId → Bool) :
    ∃ (all : List Walk) (enough : Nat), ∀ k,
      let r := (p.explore ⟨maxDepth, k⟩ readsInput).1
      (enough ≤ k → r.walks = all ∧ r.stats.truncated = false) ∧
        (r.stats.truncated = true → r.walks.length = k ∧
          ((∃ w more, all = r.walks ++ w :: more) ∨ all.length = k)) := by
  obtain ⟨all, enough, h⟩ := Explorer.found_budgeted (p.terrain ⟨maxDepth, 0⟩)
    (p.mains ⟨maxDepth, 0⟩ readsInput)
  refine ⟨all, enough, fun k => ⟨(h k).1, fun htruncated => ?_⟩⟩
  have hlength := length_walks_of_truncated htruncated
  have htake : (p.explore ⟨maxDepth, k⟩ readsInput).1.walks = all.take (min k all.length) :=
    (h k).2.1
  have hle : k ≤ all.length := by
    rw [htake, List.length_take] at hlength
    dsimp only at hlength
    omega
  refine ⟨hlength, ?_⟩
  rw [htake, Nat.min_eq_left hle]
  rcases Nat.eq_or_lt_of_le hle with heq | hlt
  · exact .inr heq.symm
  · refine .inl ⟨all[k], all.drop (k + 1), ?_⟩
    rw [List.getElem_cons_drop, List.take_append_drop]

/-! ### A page with one walk -/

/-- A page that prints a value of the request, and then something else under a condition that always
holds. -/
def onePage : Program :=
  let value : Expr := .mk (.element (.mk (.variable "_GET") .none)
    (some (.mk (.literal (.string "q")) .none))) .none
  let body : Stmt := .mk (.echo [.mk (.literal (.string "a")) .none]) .none
  ({} : Program).add "a.php" (.ok ([.mk (.echo [value]) .none,
    .mk (.ifElse (.mk (.constFetch ⟨.plain, ["true"], .none⟩) .none) [body] [] none) .none],
    ⟨"", 0, 0⟩))

theorem mains_onePage (limits : Limits) : onePage.mains limits readsRequest = [⟨0⟩] := by
  have hreads : readsRequest onePage.withNull.arena ⟨0⟩ = true := by decide +kernel
  have hmains : onePage.scripts.map (·.main) = [⟨0⟩] := by decide +kernel
  have hordered : onePage.scripts.map (·.ordered) = [[⟨0⟩]] := by decide +kernel
  obtain ⟨s, hs, hmain⟩ := List.map_eq_singleton_iff.1 hmains
  rw [hs, List.map_singleton] at hordered
  have hlisted : (⟨0⟩ : FuncId) ∈ s.ordered := by
    rw [List.singleton_inj.1 hordered]
    exact List.mem_singleton.2 rfl
  rw [mains_of_single hs ⟨⟨0⟩, hlisted, hreads⟩, hmain]

/-- Exploring the page is over after twenty steps, under a budget of one walk or of two. The smaller
one sets the flag. -/
theorem explored_onePage : ∀ k ∈ [1, 2],
    (onePage.explore ⟨5, k⟩ readsRequest).1.walks.length = 1 ∧
      (onePage.explore ⟨5, k⟩ readsRequest).1.stats.truncated = decide (k = 1) := by
  intro k hk
  rw [(explore_eq onePage ⟨5, k⟩ readsRequest).1, (explore_eq onePage ⟨5, k⟩ readsRequest).2,
    mains_onePage]
  refine Explorer.exploreFuncs_of_idle 20
    (P := fun e => e.found.toList.length = 1 ∧ e.stats.truncated = decide (k = 1)) ?_
  revert k
  decide +kernel

/-- The page has one walk, and a budget of one walk sets the flag although that is all. When the walk
is complete, the task that takes its last block off is on top of the stack; this one is given up, and
not only the other arm of the condition below it. A page without a condition would do as well. -/
theorem truncated_onePage :
    let run (k : Nat) := (onePage.explore ⟨5, k⟩ readsRequest).1
    (run 1).stats.truncated = true ∧ ∀ k, 1 ≤ k → (run k).walks = (run 1).walks := by
  intro run
  obtain ⟨hlength, hflag⟩ := explored_onePage 2 (by simp)
  have hsame (k : Nat) (hk : 1 ≤ k) : (run k).walks = (run 2).walks :=
    onePage.walks_explore_of_length_le hflag (hlength.trans_le hk)
  exact ⟨(explored_onePage 1 (by simp)).2,
    fun k hk => (hsame k hk).trans (hsame 1 (Nat.le_refl 1)).symm⟩

end Program

end QueryTaint
