import QueryTaint.Program
import QueryTaint.Proofs.Origin.Home
import QueryTaint.Proofs.Origin.Declare
import QueryTaint.Scan.Basic

/-!
# Every script has entries of its own

The entries of a program can be told apart by the file that they were made for: there are homes such
that entries mention entries of the same home only, and the functions of a script are at home there
(`Program.Housed`). The functions that a script lists say which inputs are read and which calls are
made by the entries of its home. This is so for programs that are lowered, folded and simplified,
provided that no file declares two functions of one name. Which scripts include which others has no
part in it.
-/

namespace QueryTaint

/-- A script and its functions have a home, and the functions that it lists say which inputs are read
and which calls are made there. -/
structure Script.LivesAt (s : Script) (a : Arena) (home : Entry → Option Nat) (i : Nat) : Prop where
  named : ∀ name f, s.functions.get? name = some f →
    .func f ∈ a.entries ∧ home (.func f) = some i
  ordered : ∀ f ∈ s.ordered, .func f ∈ a.entries ∧ home (.func f) = some i
  main : s.main ∈ s.ordered
  inputs : ∀ x, home (.operand x) = some i → (a.operand x).kind.isInput = true →
    ∃ f ∈ s.ordered, (a.func f).readsInput = true
  calls : ∀ op, home (.op op) = some i → (a.op op).kind.isListedCall = true →
    ∃ f ∈ s.ordered, op ∈ (a.func f).calls

/-- Entries mention entries of the same home only, and each script has a home of its own. -/
structure Program.Housed (p : Program) (home : Entry → Option Nat) : Prop where
  sorted : p.arena.Sorted home
  scripts : ∀ (i : Nat) (s : Script), p.scripts[i]? = some s → s.LivesAt p.arena home i

section Keep

variable {s : Script} {a a' : Arena} {home home' : Entry → Option Nat} {i : Nat}

/-- A change that makes no input and no call in the home of a script. -/
theorem Script.LivesAt.keep (h : s.LivesAt a home i) (htame : a.Tame a')
    (hhome : Set.EqOn home' home a.entries)
    (hinput : ∀ x, home' (.operand x) = some i → (a'.operand x).kind.isInput = true →
      home (.operand x) = some i ∧ (a.operand x).kind.isInput = true)
    (hcall : ∀ op, home' (.op op) = some i → (a'.op op).kind.isListedCall = true →
      home (.op op) = some i ∧ (a.op op).kind.isListedCall = true) : s.LivesAt a' home' i where
  named name f hf := by
    obtain ⟨hin, heq⟩ := h.named name f hf
    exact ⟨htame.entries hin, (hhome hin).trans heq⟩
  ordered f hf := by
    obtain ⟨hin, heq⟩ := h.ordered f hf
    exact ⟨htame.entries hin, (hhome hin).trans heq⟩
  main := h.main
  inputs x hx hin := by
    obtain ⟨hx, hin⟩ := hinput x hx hin
    obtain ⟨f, hf, hreads⟩ := h.inputs x hx hin
    exact ⟨f, hf, (htame.func f (h.ordered f hf).1).readsInput hreads⟩
  calls op hop hin := by
    obtain ⟨hop, hin⟩ := hcall op hop hin
    obtain ⟨f, hf, hmem⟩ := h.calls op hop hin
    exact ⟨f, hf, (htame.func f (h.ordered f hf).1).calls hmem⟩

theorem Script.LivesAt.rehoused (h : s.LivesAt a home i) (hmild : a.Mild a')
    (hhome : Set.EqOn home' home a.entries) : s.LivesAt a' home' i := by
  refine h.keep hmild.toTame hhome (fun x hx hin => ?_) fun op hop hin => ?_
  · have hold := hmild.input x hin
    exact ⟨(hhome (Arena.operand_mem_of_isInput hold)).symm.trans hx, hold⟩
  · have hold := hmild.call op hin
    exact ⟨(hhome (Arena.op_mem_of_isListedCall hold)).symm.trans hop, hold⟩

end Keep

namespace Program

variable {p : Program} {home : Entry → Option Nat} {i : Nat}

theorem Housed.rehoused (h : p.Housed home) {a : Arena} (ha : p.arena.Rehouses a) :
    ∃ home', ({ p with arena := a } : Program).Housed home' := by
  obtain ⟨home', heq, hsorted⟩ := ha.sorted home h.sorted
  exact ⟨home', hsorted, fun i s hs => (h.scripts i s hs).rehoused ha.mild heq⟩

theorem Housed.optimize (h : p.Housed home) : ∃ home', p.optimize.2.Housed home' :=
  h.rehoused (.optimizeAll p.arena p.funcs)

theorem Housed.simplify (h : p.Housed home) : ∃ home', p.simplify.2.Housed home' :=
  h.rehoused (.simplifyAll p.arena p.funcs)

/-! ## Files -/

open Classical in
/-- The homes after further entries were made, which all have one home. -/
noncomputable def settle (a : Arena) (home : Entry → Option Nat) (l : Option Nat) (e : Entry) :
    Option Nat :=
  if e ∈ a.entries then home e else l

theorem settle_of_mem {a : Arena} {l : Option Nat} {e : Entry} (h : e ∈ a.entries) :
    settle a home l e = home e := if_pos h

theorem settle_of_notMem {a : Arena} {l : Option Nat} {e : Entry} (h : e ∉ a.entries) :
    settle a home l e = l := if_neg h

theorem sorted_settle {a a' : Arena} (h : a.Sorted home) (hadjoins : a.Adjoins a')
    (l : Option Nat) : a'.Sorted (settle a home l) := by
  intro e he
  by_cases hold : e ∈ a.entries
  · refine (hadjoins.same e hold).within (Arena.Within.mono ?_ (h e hold))
    rintro e' ⟨heq, hin⟩
    refine ⟨?_, hadjoins.entries hin⟩
    change settle a home l e' = settle a home l e
    rw [settle_of_mem hin, settle_of_mem hold]
    exact heq
  · refine Arena.Within.mono ?_ (hadjoins.closed e hold he)
    rintro e' ⟨hnew, hin⟩
    refine ⟨?_, hin⟩
    change settle a home l e' = settle a home l e
    rw [settle_of_notMem hnew, settle_of_notMem hold]

/-- A script keeps its home when another file is lowered. -/
theorem livesAt_settle {a a' : Arena} {s : Script} {i : Nat} {l : Option Nat}
    (h : s.LivesAt a home i) (hadjoins : a.Adjoins a') (hl : l ≠ some i) :
    s.LivesAt a' (settle a home l) i := by
  have hold {e : Entry} (he : settle a home l e = some i) : e ∈ a.entries := by
    by_contra hnew
    exact hl ((settle_of_notMem hnew).symm.trans he)
  have hfunc (f : FuncId) (hf : f.index < a.funcs.size) : (a.func f).Grown (a'.func f) := by
    have hsame : a'.func f = a.func f := hadjoins.same (.func f) hf
    exact hsame ▸ .refl _
  refine h.keep ⟨hadjoins.entries, hfunc⟩ (fun e => settle_of_mem) (fun x hx hin => ?_)
    fun op hop hin => ?_
  · have hsame : a'.operand x = a.operand x := hadjoins.same (.operand x) (hold hx)
    exact ⟨(settle_of_mem (hold hx)).symm.trans hx, hsame ▸ hin⟩
  · have hsame : a'.op op = a.op op := hadjoins.same (.op op) (hold hop)
    exact ⟨(settle_of_mem (hold hop)).symm.trans hop, hsame ▸ hin⟩

theorem livesAt_lowered {a a' : Arena} {s : Script} {i : Nat} (h : s.Tells a a')
    (hfree : ∀ e ∈ a.entries, home e ≠ some i) : s.LivesAt a' (settle a home (some i)) i := by
  have hnew {e : Entry} (he : settle a home (some i) e = some i) : e ∉ a.entries := fun hold =>
    hfree e hold ((settle_of_mem hold).symm.trans he)
  exact ⟨fun name f hf => ⟨(h.named name f hf).2, settle_of_notMem (h.named name f hf).1⟩,
    fun f hf => ⟨(h.ordered f hf).2, settle_of_notMem (h.ordered f hf).1⟩, h.main,
    fun x hx => h.inputs x (hnew hx), fun op hop => h.calls op (hnew hop)⟩

/-- A file that is added declares no two functions of one name, if it can be lowered. -/
def AddsDistinct (p : Program) (path : String) : Except Error (List Stmt × Labels) → Prop
  | .error _ => True
  | .ok (stmts, labels) => (lowerFile p.arena path labels stmts).1.isOk = true →
    p.arena.DistinctNames (lowerFile p.arena path labels stmts).2

instance (p : Program) (path : String) :
    (prepared : Except Error (List Stmt × Labels)) → Decidable (p.AddsDistinct path prepared)
  | .error _ => isTrue trivial
  | .ok _ => inferInstanceAs (Decidable (_ → _))

/-- The homes of a program are those of its scripts. -/
def Bounded (p : Program) (home : Entry → Option Nat) : Prop :=
  ∀ e ∈ p.arena.entries, ∀ i, home e = some i → i < p.scripts.length

theorem Housed.add (h : p.Housed home) (hbound : p.Bounded home) {path : String}
    {prepared : Except Error (List Stmt × Labels)} (hnames : p.AddsDistinct path prepared) :
    ∃ home', (p.add path prepared).Housed home' ∧ (p.add path prepared).Bounded home' := by
  unfold Program.add
  split
  · exact ⟨home, ⟨h.sorted, h.scripts⟩, hbound⟩
  · rename_i stmts labels
    have hadjoins := adjoins_lowerFile p.arena path labels stmts
    split
    · rename_i e a hfile
      rw [hfile] at hadjoins
      refine ⟨settle p.arena home none, ⟨sorted_settle h.sorted hadjoins none, fun i s hs => ?_⟩,
        fun e _ i hi => ?_⟩
      · exact livesAt_settle (h.scripts i s hs) hadjoins (Option.some_ne_none i).symm
      · by_cases hold : e ∈ p.arena.entries
        · exact hbound e hold i ((settle_of_mem hold).symm.trans hi)
        · cases (settle_of_notMem hold).symm.trans hi
    · rename_i s a hfile
      rw [hfile] at hadjoins
      have hfree (e : Entry) (he : e ∈ p.arena.entries) : home e ≠ some p.scripts.length :=
        fun heq => Nat.lt_irrefl _ (hbound e he _ heq)
      have hdistinct : p.arena.DistinctNames a := by
        have hnames := hnames
        rw [AddsDistinct, hfile] at hnames
        exact hnames rfl
      have htells := tells_lowerFile hfile hdistinct
      refine ⟨settle p.arena home (some p.scripts.length),
        ⟨sorted_settle h.sorted hadjoins _, fun i s' hs => ?_⟩, fun e _ i hi => ?_⟩
      · rcases Nat.lt_trichotomy i p.scripts.length with hlt | rfl | hgt
        · rw [List.getElem?_append_left hlt] at hs
          exact livesAt_settle (h.scripts i s' hs) hadjoins
            fun heq => Nat.ne_of_gt hlt (Option.some.inj heq)
        · rw [List.getElem?_concat_length] at hs
          exact Option.some.inj hs ▸ livesAt_lowered htells hfree
        · rw [List.getElem?_eq_none (by simpa using Nat.succ_le_of_lt hgt)] at hs
          cases hs
      · rw [List.length_append]
        by_cases hold : e ∈ p.arena.entries
        · exact Nat.lt_succ_of_lt (hbound e hold i ((settle_of_mem hold).symm.trans hi))
        · exact Option.some.inj ((settle_of_notMem hold).symm.trans hi) ▸ Nat.lt_succ_self _

/-- No file declares two functions of one name. -/
def AddsAllDistinct (p : Program) : List (String × Except Error (List Stmt × Labels)) → Prop
  | [] => True
  | file :: rest => p.AddsDistinct file.1 file.2 ∧ (p.add file.1 file.2).AddsAllDistinct rest

instance decidableAddsAllDistinct : (p : Program) →
    (files : List (String × Except Error (List Stmt × Labels))) → Decidable (p.AddsAllDistinct files)
  | _, [] => isTrue trivial
  | p, file :: rest =>
    have := decidableAddsAllDistinct (p.add file.1 file.2) rest
    inferInstanceAs (Decidable (p.AddsDistinct file.1 file.2 ∧ _))

theorem Housed.addAll {files : List (String × Except Error (List Stmt × Labels))}
    (h : p.Housed home) (hbound : p.Bounded home) (hnames : p.AddsAllDistinct files) :
    ∃ home', (files.foldl (fun p file => p.add file.1 file.2) p).Housed home' := by
  induction files generalizing p home with
  | nil => exact ⟨home, h⟩
  | cons file rest ih =>
    obtain ⟨home', h', hbound'⟩ := h.add hbound hnames.1
    exact ih h' hbound' hnames.2

theorem housed_of_files {files : List (String × Except Error (List Stmt × Labels))}
    (h : ({} : Program).AddsAllDistinct files) :
    ∃ home, (files.foldl (fun p file => p.add file.1 file.2) ({} : Program)).Housed home := by
  have hempty {e : Entry} (he : e ∈ ({} : Arena).entries) : False := by
    cases e <;> exact Nat.not_lt_zero _ he
  have hstart : ({} : Program).Housed fun _ => none :=
    ⟨fun e he => (hempty he).elim, fun i s hs => by cases hs⟩
  exact hstart.addAll (fun e he => (hempty he).elim) h

/-- What a script includes is no matter of its home. -/
theorem livesAt_includeClasses {s : Script} (h : s.LivesAt a home i) (p : Program)
    (fileOf? : String → Option String) : (p.includeClasses fileOf? s).LivesAt a home i := by
  unfold includeClasses
  generalize p.classesOf s = classes
  induction classes generalizing s with
  | nil => exact h
  | cons cls classes ih =>
    refine ih ?_
    dsimp only
    split
    · split
      · exact ⟨h.named, h.ordered, h.main, h.inputs, h.calls⟩
      · exact h
    · exact h

/-- Loading classes on demand keeps homes. -/
theorem Housed.autoload (h : p.Housed home) (fileOf? : String → Option String) :
    (p.autoload fileOf?).Housed home where
  sorted := h.sorted
  scripts i s hs := by
    rw [Program.autoload, List.getElem?_map, Option.map_eq_some_iff] at hs
    obtain ⟨s, hs, rfl⟩ := hs
    exact livesAt_includeClasses (h.scripts i s hs) p fileOf?

end Program

end QueryTaint
