import QueryTaint.Proofs.Origin.Declare
import QueryTaint.Proofs.Program.Flow
import QueryTaint.Proofs.Custody.Declare
import QueryTaint.Proofs.Simplify.Fixpoint

/-!
# Folding a program comes to rest

After any files were lowered, no function reads what a later one computes: within a file a function
reads what itself and the top level compute, which comes first, and files do not share operands. So
folding the functions of scripts in their order leaves nothing to be folded
(`Program.optimizeAll_fixpoint`).
-/

namespace QueryTaint

variable {a a' : Arena} {f g : FuncId} {op : OpId}

/-! ## Functions of another file -/

section Adjoins

variable (h : a.Adjoins a') (ha : a.Tidy)
include h ha

/-- What a function from before hosts is what it was. -/
theorem Arena.Adjoins.hosts_of_lt (hf : f.index < a.funcs.size) (hop : a'.Hosts f op) :
    a.Hosts f op ∧ op.index < a.ops.size ∧ a'.op op = a.op op := by
  obtain ⟨b, hb, hop⟩ := hop
  have hfunc : a'.func f = a.func f := h.same (.func f) hf
  rw [hfunc] at hb
  have hlt : b.index < a.blocks.size := Nat.lt_of_not_le fun hle => by
    have howner := ha.listed hb
    rw [Arena.block_of_le a hle] at howner
    cases howner
  have hblock : a'.block b = a.block b := h.same (.block b) hlt
  rw [hblock] at hop
  exact ⟨⟨b, hb, hop⟩, ha.made hop, h.same (.op op) (ha.made hop)⟩

/-- What a new function hosts mentions new operands only. -/
theorem Arena.Adjoins.operands_of_hosts (ha' : a'.Tidy) (hf : a.funcs.size ≤ f.index)
    (hop : a'.Hosts f op) : ∀ x ∈ (a'.op op).kind.operands, a.operands.size ≤ x.index := by
  obtain ⟨b, hb, hop⟩ := hop
  have hnew : .block b ∉ a.entries := fun hlt => by
    have hblock : a'.block b = a.block b := h.same (.block b) hlt
    exact absurd (ha.func_lt (hblock ▸ ha'.listed hb)) (Nat.not_lt.2 hf)
  have hop' := (h.closed (.block b) hnew (Arena.block_lt_of_op hop)).ops op hop
  exact fun x hx => Nat.le_of_not_lt ((h.closed (.op op) hop'.1 hop'.2).1 x hx).1

end Adjoins

/-! ## Functions of a file -/

/-- Of the functions of a script, the top level comes first and the others read what themselves and the
top level compute. -/
theorem Script.spared {s : Script} (hfirst : s.ordered.head? = some s.main) (hnodup : s.ordered.Nodup)
    (hcustody : a.Custody s.main) (hmain : ∀ f ∈ s.ordered, s.main.index ≤ f.index) :
    s.ordered.Pairwise fun f g => ∀ op, a.Hosts g op → a.Spared f op := by
  have hstands {f : FuncId} {o : OpId} (ho : a.Hosts f o) : a.StandsIn o f := by
    obtain ⟨b, hb, ho⟩ := ho
    exact ⟨b, ho, hcustody.listed hb⟩
  have hspared {f g : FuncId} (hf : f ∈ s.ordered) (hne : g ≠ f) (hg : g ≠ s.main) (op : OpId)
      (hop : a.Hosts g op) : a.Spared f op := by
    intro o ho hkind x hx hresult
    have hfits := hcustody.reads (hstands ho) (hmain f hf) hkind x hx
    exact (hfits.computes g ⟨op, hstands hop, hresult⟩).elim hne hg
  obtain ⟨rest, hrest⟩ := List.head?_eq_some_iff.1 hfirst
  rw [hrest] at hnodup hspared ⊢
  obtain ⟨hnot, hnodup⟩ := List.nodup_cons.1 hnodup
  have hother {g : FuncId} (hg : g ∈ rest) : g ≠ s.main := fun heq => hnot (heq ▸ hg)
  refine List.pairwise_cons.2 ⟨fun g hg => hspared List.mem_cons_self (hother hg) (hother hg), ?_⟩
  refine hnodup.imp_of_mem fun {f g} hf hg hne => ?_
  exact hspared (List.mem_cons_of_mem _ hf) (Ne.symm hne) (hother hg)

/-- The functions of a file are made when it is lowered. -/
theorem mem_ordered_since {path : String} {labels : Labels} {stmts : List Stmt} {s : Script}
    (h : lowerFile a path labels stmts = (.ok s, a')) (hf : f ∈ s.ordered) :
    a.funcs.size ≤ f.index ∧ f.index < a'.funcs.size := by
  obtain ⟨b, rfl, rfl, hb⟩ := Lower.settled_lowerFile h
  have hsince := hb.roots _ (.listed hf)
  exact ⟨Nat.le_of_not_lt hsince.1, hsince.2⟩

namespace Program

/-- What folding the functions of a program needs. -/
structure Layered (p : Program) : Prop where
  sound : p.arena.Sound
  closed : p.arena.Closed Set.univ
  made : ∀ f ∈ p.funcs, f.index < p.arena.funcs.size
  spared : p.funcs.Pairwise fun f g => ∀ op, p.arena.Hosts g op → p.arena.Spared f op

variable {p : Program}

theorem Layered.lowered (h : p.Layered) {a : Arena} (hadjoins : p.arena.Adjoins a)
    (hsound : a.Sound) : ({ p with arena := a } : Program).Layered where
  sound := hsound
  closed e _ hin := by
    by_cases hold : e ∈ p.arena.entries
    · refine ((hadjoins.same e hold).within (h.closed e trivial hold)).mono ?_
      exact Set.inter_subset_inter_right _ hadjoins.entries
    · refine (hadjoins.closed e hold hin).mono ?_
      exact Set.inter_subset_inter_left _ (Set.subset_univ _)
  made f hf := hadjoins.entries (show Entry.func f ∈ p.arena.entries from h.made f hf)
  spared := h.spared.imp_of_mem fun {f g} hf hg hfg op hop o ho hkind x hx => by
    obtain ⟨hop, -, hsame⟩ := hadjoins.hosts_of_lt h.sound.toTidy (h.made g hg) hop
    obtain ⟨ho, -, hsame'⟩ := hadjoins.hosts_of_lt h.sound.toTidy (h.made f hf) ho
    rw [hsame'] at hkind hx
    rw [hsame]
    exact hfg op hop o ho hkind x hx

theorem Layered.add (h : p.Layered) (path : String)
    (prepared : Except Error (List Stmt × Labels)) : (p.add path prepared).Layered := by
  unfold Program.add
  split
  · exact ⟨h.sound, h.closed, h.made, h.spared⟩
  · rename_i stmts labels
    have hadjoins := adjoins_lowerFile p.arena path labels stmts
    have hsound := sound_lowerFile h.sound path labels stmts
    split
    · rename_i e a hfile
      rw [hfile] at hadjoins hsound
      obtain ⟨hsound, hclosed, hmade, hspared⟩ := h.lowered hadjoins hsound
      exact ⟨hsound, hclosed, hmade, hspared⟩
    · rename_i s a hfile
      rw [hfile] at hadjoins hsound
      obtain ⟨hsound, hclosed, hmade, hspared⟩ := h.lowered hadjoins hsound
      obtain ⟨hmain, hfirst, hcustody⟩ := custody_lowerFile h.sound hfile
      have hfuncs : ({ p with arena := a, scripts := p.scripts ++ [s] } : Program).funcs =
          p.funcs ++ s.ordered := by simp [funcs]
      have hsince {f : FuncId} (hf : f ∈ s.ordered) := mem_ordered_since hfile hf
      refine ⟨hsound, hclosed, fun f hf => ?_, ?_⟩
      · rw [hfuncs] at hf
        exact (List.mem_append.1 hf).elim (hmade f) fun hf => (hsince hf).2
      · rw [hfuncs]
        refine List.pairwise_append.2 ⟨hspared, ?_, fun f hf g hg op hop o ho _ x hx hresult => ?_⟩
        · exact s.spared hfirst (tabled_lowerFile hfile).nodup.of_map hcustody fun f hf =>
            hmain ▸ (hsince hf).1
        · -- what the earlier function reads was there before the later one was made
          obtain ⟨-, hlt, hsame⟩ := hadjoins.hosts_of_lt h.sound.toTidy (h.made f hf) ho
          rw [hsame] at hx
          have hold := (h.closed (.op o) trivial hlt).1 x (OpKind.mem_operands_of_mem_reads hx)
          have hnew := hadjoins.operands_of_hosts h.sound.toTidy hsound.toTidy (hsince hg).1 hop x
            (OpKind.mem_operands_of_folded? hresult)
          exact absurd hold.2 (Nat.not_lt.2 hnew)

theorem layered_empty : ({} : Program).Layered where
  sound := by
    have hoperand (x : OperandId) : ({} : Arena).operand x = default :=
      Arena.operand_of_le _ (Nat.zero_le _)
    have hblock (b : BlockId) : ({} : Arena).block b = default := Arena.block_of_le _ (Nat.zero_le _)
    have hfunc (f : FuncId) : ({} : Arena).func f = default := by simp [Arena.func]
    refine ⟨⟨⟨fun hy => ?_, fun hx => ?_⟩, fun hop => ?_, fun hb => ?_, fun hf => ?_,
      fun hf => absurd hf (Nat.not_lt_zero _)⟩, ?_⟩
    · rw [hoperand] at hy
      cases hy
    · rw [hoperand] at hx
      cases hx
    · rw [hblock] at hop
      cases hop
    · rw [hfunc] at hb
      cases hb
    · rw [hblock] at hf
      cases hf
    · rintro f x ⟨op, ⟨b, hop, -⟩, -⟩
      change op ∈ (({} : Arena).block b).ops at hop
      rw [hblock] at hop
      cases hop
  closed e _ he := by cases e <;> exact absurd he (Nat.not_lt_zero _)
  made _ hf := by cases hf
  spared := List.Pairwise.nil

theorem layered_of_files (files : List (String × Except Error (List Stmt × Labels))) :
    (files.foldl (fun p file => p.add file.1 file.2) ({} : Program)).Layered := by
  generalize hstart : ({} : Program) = start
  have h : start.Layered := hstart ▸ layered_empty
  clear hstart
  induction files generalizing start with
  | nil => exact h
  | cons file rest ih => exact ih _ (h.add file.1 file.2)

/-- No function of a program reads what a later one computes. -/
theorem Layered.arena (h : p.Layered) (hshaped : p.arena.Shaped) : p.arena.Separate p.funcs where
  placed {b op} hop := hshaped.placed b op hop
  listed := h.sound.listed
  linked hxy := h.sound.linked (Arena.mem_links_of_linkOf? hxy)
  there {op x} hx := by
    rcases Nat.lt_or_ge op.index p.arena.ops.size with hlt | hle
    · exact ((h.closed (.op op) trivial hlt).1 x hx).2
    · rw [Arena.op_of_le _ hle] at hx
      cases hx
  spared := h.spared

/-- Folding comes to rest in any part of a program that was lowered from files. -/
theorem rests_of_files (files : List (String × Except Error (List Stmt × Labels)))
    {funcs : List FuncId}
    (h : funcs.Sublist (files.foldl (fun p file => p.add file.1 file.2) ({} : Program)).funcs) :
    let p := files.foldl (fun p file => p.add file.1 file.2) ({} : Program)
    let once := p.arena.optimizeAll funcs
    let twice := once.2.optimizeAll funcs
    (∀ f ∈ funcs, ∀ op ∈ once.2.liveOps f, once.2.foldOp? op = none) ∧
      (∀ stats ∈ twice.1, stats.folded = 0) ∧ twice.2 = once.2 :=
  Arena.optimizeAll_rests (((layered_of_files files).arena (shaped_of_files files)).sublist h)

/-- Folding all functions of a program again folds nothing and changes nothing. -/
theorem optimize_optimize_of_files (files : List (String × Except Error (List Stmt × Labels))) :
    let once := (files.foldl (fun p file => p.add file.1 file.2) ({} : Program)).optimize.2
    (∀ stats ∈ once.optimize.1, stats.folded = 0) ∧ once.optimize.2 = once := by
  intro once
  obtain ⟨-, hstats, harena⟩ := rests_of_files files (List.Sublist.refl _)
  exact ⟨hstats, congrArg (fun a => ({ once with arena := a } : Program)) harena⟩

/-- Folding reaches a fixpoint for the functions of each script: none of their operations can be
folded, and folding them again folds nothing and changes nothing. -/
theorem optimizeAll_fixpoint (files : List (String × Except Error (List Stmt × Labels))) {s : Script}
    (hs : s ∈ (files.foldl (fun p file => p.add file.1 file.2) ({} : Program)).scripts) :
    let p := files.foldl (fun p file => p.add file.1 file.2) ({} : Program)
    let once := p.arena.optimizeAll s.ordered
    let twice := once.2.optimizeAll s.ordered
    (∀ f ∈ s.ordered, ∀ op ∈ once.2.liveOps f, once.2.foldOp? op = none) ∧
      (∀ stats ∈ twice.1, stats.folded = 0) ∧ twice.2 = once.2 :=
  rests_of_files files (List.sublist_flatten_of_mem (List.mem_map_of_mem hs))

/-- A page that concatenates a constant, with a function that concatenates it again. -/
def derivedTable : List (String × Except Error (List Stmt × Labels)) :=
  let expr (kind : ExprKind) : Expr := .mk kind .none
  let name (s : String) : Name := ⟨.plain, [s], .none⟩
  let text (s : String) : Expr := expr (.literal (.string s))
  let concat (left right : Expr) : Expr := expr (.binary .concat left right)
  [("index.php", .ok ([
      .mk (.consts [⟨name "TABLE", concat (text "app_") (text "users"), .none⟩]) .none,
      .mk (.function (name "query") [] false none
        [.mk (.returns (some (concat (text "SELECT * FROM ") (expr (.constFetch (name "TABLE")))))) .none])
        .none], ⟨"", 0, 0⟩))]

/-- Both functions of the page are folded, the constant first. -/
theorem optimizeAll_fixpoint_derivedTable :
    let p := derivedTable.foldl (fun p file => p.add file.1 file.2) ({} : Program)
    ∃ s ∈ p.scripts,
      let once := p.arena.optimizeAll s.ordered
      let twice := once.2.optimizeAll s.ordered
      once.1.map (·.folded) = [1, 1] ∧
        (∀ f ∈ s.ordered, ∀ op ∈ once.2.liveOps f, once.2.foldOp? op = none) ∧
          (∀ stats ∈ twice.1, stats.folded = 0) ∧ twice.2 = once.2 := by
  intro p
  have hfolded : ∃ s ∈ p.scripts, (p.arena.optimizeAll s.ordered).1.map (·.folded) = [1, 1] := by
    decide +kernel
  obtain ⟨s, hs, hfolded⟩ := hfolded
  exact ⟨s, hs, hfolded, optimizeAll_fixpoint derivedTable hs⟩

end Program

end QueryTaint
