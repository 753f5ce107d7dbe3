import Mathlib.Data.List.Nodup
import QueryTaint.Proofs.Lower.Step
import QueryTaint.Proofs.Origin.Adjoin

/-!
# Lowering keeps to its own entries

A step of lowering works on entries that it knows: those that it was given, those that the builder
holds (`Builder.Root`), and those that such entries mention (`Builder.known`). So the entries of
other files stay the same, and those of the file mention each other only.

`Settled` says so, and also what the functions of the file are marked with: one of them reads an input
if there is one, every call is listed by one of them, and each of them is listed in the script, except
for what is `Owed` in the middle of a step. `Builds` and `Lowers` say of a step, given entries that are
known, that it leaves the builder settled, and which entries are known by its result.

A script has its functions twice: in a table by scoped name, and in a list. Adding a function puts its
name in the table, whatever was there, but a name is listed once (`Script.Tabled`). So the two have the
same names, and they have the same functions exactly if no later function took over the name of a
listed one (`Script.Tabled.agree_iff`).
-/

/-! ## The table and the list of a script -/

namespace QueryTaint.Script

variable {a a' : Arena} {s : Script} {name : String} {f : FuncId}

/-- The table of a script names functions by their scoped names, which are those of the listed
functions; no two of these have the same name. -/
structure Tabled (a : Arena) (s : Script) : Prop where
  named : ∀ name f, s.functions.get? name = some f → (a.func f).scopedName = name
  listed : ∀ name f, s.functions.get? name = some f →
    ∃ g ∈ s.ordered, (a.func g).scopedName = name
  known : ∀ f ∈ s.ordered, ∃ g, s.functions.get? (a.func f).scopedName = some g
  nodup : (s.ordered.map fun f => (a.func f).scopedName).Nodup

theorem get?_addFunction (s : Script) (name : String) (f : FuncId) (other : String) :
    (s.addFunction name f).functions.get? other =
      if name = other then some f else s.functions.get? other := by
  change (s.functions.insert name f).get? other = _
  simp only [Std.TreeMap.get?_eq_getElem?, Std.TreeMap.getElem?_insert,
    Std.LawfulEqCmp.compare_eq_iff_eq]

theorem ordered_addFunction_of_some (h : s.functions.get? name = some f) (g : FuncId) :
    (s.addFunction name g).ordered = s.ordered := by
  refine if_pos ?_
  rw [Std.TreeMap.contains_eq_isSome_getElem?, ← Std.TreeMap.get?_eq_getElem?, h]
  rfl

theorem ordered_addFunction_of_none (h : s.functions.get? name = none) (g : FuncId) :
    (s.addFunction name g).ordered = s.ordered ++ [g] := by
  refine if_neg ?_
  rw [Std.TreeMap.contains_eq_isSome_getElem?, ← Std.TreeMap.get?_eq_getElem?, h]
  exact Bool.false_ne_true

theorem ordered_subset_addFunction (s : Script) (name : String) (f : FuncId) :
    s.ordered ⊆ (s.addFunction name f).ordered := by
  cases hknown : s.functions.get? name with
  | some other => exact (ordered_addFunction_of_some hknown f).symm ▸ List.Subset.refl _
  | none => exact (ordered_addFunction_of_none hknown f).symm ▸ List.subset_append_left ..

theorem mem_ordered_addFunction {g : FuncId} (h : g ∈ (s.addFunction name f).ordered) :
    g ∈ s.ordered ∨ g = f := by
  cases hknown : s.functions.get? name with
  | some other => exact .inl (ordered_addFunction_of_some hknown f ▸ h)
  | none =>
    rw [ordered_addFunction_of_none hknown] at h
    exact (List.mem_append.1 h).imp_right List.mem_singleton.1

theorem get?_ofMain (path : String) (main : FuncId) (name : String) :
    (ofMain path main).functions.get? name = if Func.mainName = name then some main else none := by
  change ((∅ : Std.TreeMap String FuncId).insert Func.mainName main).get? name = _
  simp only [Std.TreeMap.get?_eq_getElem?, Std.TreeMap.getElem?_insert,
    Std.LawfulEqCmp.compare_eq_iff_eq, Std.TreeMap.getElem?_emptyc]

theorem eq_main_of_ofMain {path : String} {main : FuncId}
    (h : (ofMain path main).functions.get? name = some f) : f = main := by
  rw [get?_ofMain] at h
  split at h
  · exact (Option.some.inj h).symm
  · cases h

/-- A script starts with one function, which has its name. -/
theorem tabled_ofMain {main : FuncId} (path : String)
    (hmain : (a.func main).scopedName = Func.mainName) : (ofMain path main).Tabled a := by
  refine ⟨fun name f hf => ?_, fun name f hf => ?_, fun f hf => ?_, List.nodup_singleton _⟩
  · obtain rfl := eq_main_of_ofMain hf
    rw [get?_ofMain] at hf
    split at hf
    · rwa [hmain]
    · cases hf
  · rw [get?_ofMain] at hf
    split at hf
    · exact ⟨main, List.mem_cons_self, by rwa [hmain]⟩
    · cases hf
  · rw [List.mem_singleton.1 hf, hmain, get?_ofMain, if_pos rfl]
    exact ⟨main, rfl⟩

namespace Tabled

variable (h : s.Tabled a)
include h

/-- A script is tabled after a change that keeps the names of its functions. -/
theorem congr (hnamed : ∀ name f, s.functions.get? name = some f →
      (a'.func f).scopedName = (a.func f).scopedName)
    (hordered : ∀ f ∈ s.ordered, (a'.func f).scopedName = (a.func f).scopedName) :
    s.Tabled a' where
  named name f hf := (hnamed name f hf).trans (h.named name f hf)
  listed name f hf := by
    obtain ⟨g, hg, heq⟩ := h.listed name f hf
    exact ⟨g, hg, (hordered g hg).trans heq⟩
  known f hf := (hordered f hf).symm ▸ h.known f hf
  nodup := List.map_congr_left hordered ▸ h.nodup

/-- Once a function is added, a function of its name is listed: the one that was, or itself. -/
theorem exists_listed (f : FuncId) :
    ∃ g ∈ (s.addFunction (a.func f).scopedName f).ordered,
      (a.func g).scopedName = (a.func f).scopedName := by
  cases hknown : s.functions.get? (a.func f).scopedName with
  | some other =>
    obtain ⟨g, hg, heq⟩ := h.listed _ other hknown
    exact ⟨g, ordered_subset_addFunction s _ f hg, heq⟩
  | none =>
    rw [ordered_addFunction_of_none hknown]
    exact ⟨f, List.mem_append_right _ List.mem_cons_self, rfl⟩

/-- Adding a function under its name keeps the table and the list in step. -/
theorem addFunction (f : FuncId) : (s.addFunction (a.func f).scopedName f).Tabled a := by
  refine ⟨fun name g hg => ?_, fun name g hg => ?_, fun g hg => ?_, ?_⟩
  · rw [get?_addFunction] at hg
    split at hg
    · cases hg
      assumption
    · exact h.named name g hg
  · rw [get?_addFunction] at hg
    split at hg
    · rename_i heq
      exact heq ▸ h.exists_listed f
    · obtain ⟨g', hg', heq⟩ := h.listed name g hg
      exact ⟨g', ordered_subset_addFunction s _ f hg', heq⟩
  · rw [get?_addFunction]
    split
    · exact ⟨f, rfl⟩
    · rename_i hne
      refine h.known g ((mem_ordered_addFunction hg).resolve_right ?_)
      rintro rfl
      exact hne rfl
  · cases hknown : s.functions.get? (a.func f).scopedName with
    | some other =>
      rw [ordered_addFunction_of_some hknown]
      exact h.nodup
    | none =>
      rw [ordered_addFunction_of_none hknown, List.map_append, List.map_singleton,
        List.nodup_append_comm]
      refine List.nodup_cons.2 ⟨fun hmem => ?_, h.nodup⟩
      -- a listed function of this name would be in the table
      obtain ⟨g, hg, heq⟩ := List.mem_map.1 hmem
      obtain ⟨g', hg'⟩ := h.known g hg
      cases (heq ▸ hg').symm.trans hknown

/-- The table has the listed functions and no others exactly if each of them still has its name. -/
theorem agree_iff : (∀ f, f ∈ s.ordered ↔ ∃ name, s.functions.get? name = some f) ↔
    ∀ f ∈ s.ordered, s.functions.get? (a.func f).scopedName = some f := by
  constructor
  · intro hagree f hf
    obtain ⟨name, hname⟩ := (hagree f).1 hf
    rwa [h.named name f hname]
  · refine fun hkept f => ⟨fun hf => ⟨_, hkept f hf⟩, ?_⟩
    rintro ⟨name, hname⟩
    obtain ⟨g, hg, rfl⟩ := h.listed name f hname
    rwa [← Option.some.inj ((hkept g hg).symm.trans hname)]

end Tabled

end QueryTaint.Script


namespace QueryTaint.Lower

/-! ## What a builder holds -/

/-- The entries that what is known inside a function refers to. -/
inductive Scope.Root (s : Scope) : Entry → Prop where
  | version {block : BlockId} {name : String} {x : OperandId} :
    s.lookup block name = some x → Root s (.operand x)
  | label {name : String} {block : BlockId} : s.labels.get? name = some block → Root s (.block block)
  | place {p : PendingPhi} : p ∈ s.pending → Root s (.block p.block)
  | phi {p : PendingPhi} : p ∈ s.pending → Root s (.op p.phi)
  | goto {g : String × BlockId} : g ∈ s.gotos → Root s (.block g.2)
  | condition {x : OperandId} : x ∈ s.conditions → Root s (.operand x)

/-- The entries that a builder refers to. -/
inductive Builder.Root (b : Builder) : Entry → Prop where
  | func : Root b (.func b.func)
  | block : Root b (.block b.block)
  | scope {e : Entry} : b.scope.Root e → Root b e
  | const {name : String} {x : OperandId} : b.consts.get? name = some x → Root b (.operand x)
  | main : Root b (.func b.script.main)
  | named {name : String} {f : FuncId} : b.script.functions.get? name = some f → Root b (.func f)
  | listed {f : FuncId} : f ∈ b.script.ordered → Root b (.func f)

/-- The entries that are found from given ones and from those that a builder refers to, by what
entries mention. -/
inductive Builder.Finds (b : Builder) (G : Set Entry) : Entry → Prop where
  | given {e : Entry} : e ∈ G → Finds b G e
  | root {e : Entry} : b.Root e → Finds b G e
  | mention {e e' : Entry} : Finds b G e → (∀ S, b.arena.Within S e → e' ∈ S) → Finds b G e'

/-- The entries that are found from given ones. -/
def Builder.known (b : Builder) (G : Set Entry) : Set Entry := {e | b.Finds G e}

/-- Whether the script lists a function of the same name. -/
def Builder.Lists (b : Builder) (f : FuncId) : Prop :=
  ∃ g ∈ b.script.ordered, (b.arena.func g).scopedName = (b.arena.func f).scopedName

/-- What is owed in the middle of a step: to list functions in the script, and calls in their
functions. -/
structure Owed where
  funcs : Set FuncId := ∅
  calls : Set OpId := ∅

/-- The file that is lowered keeps to its own entries, and its functions are marked and listed. -/
structure Settled (a₀ : Arena) (D : Owed) (b : Builder) : Prop where
  adjoins : a₀.Adjoins b.arena
  roots : ∀ e, b.Root e → e ∈ b.arena.since a₀
  inputs : ∀ x, .operand x ∉ a₀.entries → (b.arena.operand x).kind.isInput = true →
    ∃ f, .func f ∈ b.arena.since a₀ ∧ (b.arena.func f).readsInput = true
  calls : ∀ op, .op op ∉ a₀.entries → (b.arena.op op).kind.isListedCall = true →
    op ∈ D.calls ∨ ∃ f, .func f ∈ b.arena.since a₀ ∧ op ∈ (b.arena.func f).calls
  lists : ∀ f, .func f ∈ b.arena.since a₀ → f ∈ D.funcs ∨ b.Lists f
  tabled : b.script.Tabled b.arena

/-- What every step keeps: the entries, the names of functions and the list of the script. -/
structure Later (b b' : Builder) : Prop where
  entries : b.arena.entries ⊆ b'.arena.entries
  names : ∀ f : FuncId, f.index < b.arena.funcs.size →
    (b'.arena.func f).scopedName = (b.arena.func f).scopedName
  ordered : b.script.ordered ⊆ b'.script.ordered

theorem Later.refl (b : Builder) : Later b b :=
  ⟨subset_rfl, fun _ _ => rfl, List.Subset.refl _⟩

theorem Later.trans {b b' b'' : Builder} (h : Later b b') (h' : Later b' b'') : Later b b'' where
  entries := h.entries.trans h'.entries
  names f hf := (h'.names f (h.entries (show .func f ∈ b.arena.entries from hf))).trans (h.names f hf)
  ordered := List.Subset.trans h.ordered h'.ordered

variable {a₀ : Arena} {D : Owed} {b b' : Builder} {G G' : Set Entry} {e : Entry}

theorem Later.since (h : Later b b') : b.arena.since a₀ ⊆ b'.arena.since a₀ :=
  Arena.since_mono h.entries

/-- What is found from known entries was made by the file. -/
theorem Settled.known (h : Settled a₀ D b) (hG : G ⊆ b.arena.since a₀) (he : b.Finds G e) :
    e ∈ b.arena.since a₀ := by
  induction he with
  | given he => exact hG he
  | root he => exact h.roots _ he
  | mention _ hmention ih => exact hmention _ (h.adjoins.closed _ ih.1 ih.2)

/-! ## Changes of the builder -/

/-- What a builder refers to depends on some of its fields only. -/
theorem Builder.Root.keep (he : b'.Root e) (hfunc : b'.func = b.func) (hblock : b'.block = b.block)
    (hscope : b'.scope = b.scope) (hconsts : b'.consts = b.consts)
    (hmain : b'.script.main = b.script.main)
    (hfunctions : b'.script.functions = b.script.functions)
    (hordered : b'.script.ordered = b.script.ordered) : b.Root e := by
  cases he with
  | func => exact hfunc ▸ .func
  | block => exact hblock ▸ .block
  | scope he => exact .scope (hscope ▸ he)
  | const he => exact .const (hconsts ▸ he)
  | main => exact hmain ▸ .main
  | named he => exact .named (hfunctions ▸ he)
  | listed he => exact .listed (hordered ▸ he)

/-- A change of the arena. Functions and calls that are made are owed; for an input that is made,
some function is marked already. -/
theorem Settled.change (h : Settled a₀ D b) {a : Arena} {D' : Owed} (hadjoins : a₀.Adjoins a)
    (htame : b.arena.Tame a) (hfuncs : D.funcs ⊆ D'.funcs) (hcalls : D.calls ⊆ D'.calls)
    (hinput : ∀ x, (a.operand x).kind.isInput = true → (b.arena.operand x).kind.isInput = true ∨
      ∃ f, .func f ∈ b.arena.since a₀ ∧ (b.arena.func f).readsInput = true)
    (hnew : ∀ f : FuncId, b.arena.funcs.size ≤ f.index → f.index < a.funcs.size → f ∈ D'.funcs)
    (hcall : ∀ op, (a.op op).kind.isListedCall = true →
      (b.arena.op op).kind.isListedCall = true ∨ op ∈ D'.calls) :
    Settled a₀ D' { b with arena := a } ∧ Later b { b with arena := a } := by
  have hsince : b.arena.since a₀ ⊆ a.since a₀ := Arena.since_mono htame.entries
  have hlt {f : FuncId} (hf : .func f ∈ b.arena.since a₀) : f.index < b.arena.funcs.size := hf.2
  have hordered {g : FuncId} (hg : g ∈ b.script.ordered) : g.index < b.arena.funcs.size :=
    hlt (h.roots _ (.listed hg))
  have hname {f : FuncId} (hf : f.index < b.arena.funcs.size) :
      (a.func f).scopedName = (b.arena.func f).scopedName := (htame.func f hf).scopedName
  refine ⟨⟨hadjoins, fun e he => hsince (h.roots e ?_), fun x hx hin => ?_,
    fun op hop hlisted => ?_, fun f hf => ?_, ?_⟩, htame.entries, fun f => hname,
    List.Subset.refl _⟩
  · exact he.keep rfl rfl rfl rfl rfl rfl rfl
  · obtain ⟨f, hf, hreads⟩ := (hinput x hin).elim (h.inputs x hx) id
    exact ⟨f, hsince hf, (htame.func f (hlt hf)).readsInput hreads⟩
  · rcases hcall op hlisted with hold | howed
    · refine (h.calls op hop hold).imp (fun howed => hcalls howed) ?_
      rintro ⟨f, hf, hmem⟩
      exact ⟨f, hsince hf, (htame.func f (hlt hf)).calls hmem⟩
    · exact .inl howed
  · rcases Nat.lt_or_ge f.index b.arena.funcs.size with hlt | hge
    · refine (h.lists f ⟨hf.1, hlt⟩).imp (fun howed => hfuncs howed) ?_
      rintro ⟨g, hg, heq⟩
      exact ⟨g, hg, (hname (hordered hg)).trans (heq.trans (hname hlt).symm)⟩
    · exact .inl (hnew f hge hf.2)
  · exact h.tabled.congr (fun name f hf => hname (hlt (h.roots _ (.named hf))))
      fun f hf => hname (hordered hf)

/-- A change of the arena that makes no input, call or function. -/
theorem Settled.arena (h : Settled a₀ D b) {a : Arena} (hadjoins : a₀.Adjoins a)
    (hmild : b.arena.Mild a) :
    Settled a₀ D { b with arena := a } ∧ Later b { b with arena := a } :=
  h.change hadjoins hmild.toTame subset_rfl subset_rfl (fun x hx => .inl (hmild.input x hx))
    (fun _ hge hlt => absurd (Nat.lt_of_lt_of_eq hlt hmild.funcs) (Nat.not_lt.2 hge))
    fun op hop => .inl (hmild.call op hop)

/-- A change of what the builder refers to besides the functions of the script. -/
theorem Settled.turn (h : Settled a₀ D b) (harena : b'.arena = b.arena)
    (hfunctions : b'.script.functions = b.script.functions)
    (hordered : b'.script.ordered = b.script.ordered)
    (hroots : ∀ e, b'.Root e → e ∈ b.arena.since a₀) : Settled a₀ D b' ∧ Later b b' := by
  refine ⟨⟨by rw [harena]; exact h.adjoins, by rw [harena]; exact hroots, ?_, ?_, ?_, ?_⟩, ?_, ?_, ?_⟩
  · rw [harena]
    exact h.inputs
  · rw [harena]
    exact h.calls
  · unfold Builder.Lists
    rw [harena, hordered]
    exact h.lists
  · exact ⟨by rw [harena, hfunctions]; exact h.tabled.named,
      by rw [harena, hfunctions, hordered]; exact h.tabled.listed,
      by rw [harena, hfunctions, hordered]; exact h.tabled.known,
      by rw [harena, hordered]; exact h.tabled.nodup⟩
  · rw [harena]
  · rw [harena]
    exact fun _ _ => rfl
  · rw [hordered]
    exact List.Subset.refl _

/-! ## Putting steps together -/

/-- What holds after a step: the builder is settled, and some entries were made by the file. -/
structure Done (a₀ : Arena) (D : Owed) (b : Builder) (G : Set Entry) (b' : Builder) : Prop where
  settled : Settled a₀ D b'
  later : Later b b'
  known : G ⊆ b'.arena.since a₀

section Logic

variable {α β : Type} {m : Build α} {x : Lowering α} {out : α → Set Entry} {out' : β → Set Entry}

/-- A step that cannot fail, given known entries. -/
def Builds (a₀ : Arena) (G : Set Entry) (m : Build α) (out : α → Set Entry) : Prop :=
  ∀ ⦃D b⦄, Settled a₀ D b → G ⊆ b.arena.since a₀ → Gives m b fun y b' => Done a₀ D b (out y) b'

/-- What holds after a step that may fail, if it does not; if it does, entries from before are the same
and those made since mention each other only. -/
def Ends (a₀ : Arena) (x : Lowering α) (b : Builder) (Q : α → Builder → Prop) : Prop :=
  (∀ y b', x.run.run b = (.ok y, b') → Q y b') ∧
    ∀ err b', x.run.run b = (.error err, b') → a₀.Adjoins b'.arena

/-- A step that may fail, given known entries. -/
def Lowers (a₀ : Arena) (G : Set Entry) (x : Lowering α) (out : α → Set Entry) : Prop :=
  ∀ ⦃D b⦄, Settled a₀ D b → G ⊆ b.arena.since a₀ →
    Ends a₀ x b fun y b' => Done a₀ D b (out y) b'

theorem Done.trans {b'' : Builder} (h : Done a₀ D b G b') (h' : Done a₀ D b' G' b'') :
    Done a₀ D b G' b'' :=
  ⟨h'.settled, h.later.trans h'.later, h'.known⟩

theorem Done.keep (h : Done a₀ D b G b') (hG : G' ⊆ b.arena.since a₀) :
    G ∪ G' ⊆ b'.arena.since a₀ :=
  Set.union_subset h.known (hG.trans h.later.since)

theorem Builds.bind {f : α → Build β} (hm : Builds a₀ G m out)
    (hf : ∀ y, Builds a₀ (out y ∪ G) (f y) out') : Builds a₀ G (m >>= f) out' := by
  intro D b h hG
  refine Gives.bind (hm h hG) fun y b₁ h₁ => ?_
  exact (hf y h₁.settled (h₁.keep hG)).mono fun _ _ h₂ => h₁.trans h₂

theorem Builds.pure {y : α} (h : out y ⊆ G) : Builds a₀ G (pure y : Build α) out :=
  fun _ b hb hG => ⟨hb, .refl b, h.trans hG⟩

theorem Builds.mono (h : Builds a₀ G m out) {out₂ : α → Set Entry} (hG : G ⊆ G')
    (hout : ∀ y, out₂ y ⊆ out y) : Builds a₀ G' m out₂ := fun _ _ hb hG' =>
  (h hb (hG.trans hG')).mono fun y _ h' => ⟨h'.settled, h'.later, (hout y).trans h'.known⟩

theorem Builds.get {f : Builder → Build β} (h : ∀ b : Builder, Builds a₀ (b.known G ∪ G) (f b) out') :
    Builds a₀ G (get >>= f) out' :=
  fun _ b hb hG => h b hb (Set.union_subset (fun _ he => hb.known hG he) hG)

theorem Builds.look {f : Arena → α} {g : α → Build β}
    (h : ∀ b : Builder, Builds a₀ (b.known G ∪ G) (g (f b.arena)) out') :
    Builds a₀ G (look f >>= g) out' :=
  fun _ b hb hG => h b hb (Set.union_subset (fun _ he => hb.known hG he) hG)

theorem Builds.forM {f : α → Build Unit} {l : List α}
    (h : ∀ y ∈ l, Builds a₀ G (f y) fun _ => ∅) : Builds a₀ G (l.forM f) fun _ => ∅ := by
  induction l with
  | nil => exact .pure (Set.empty_subset _)
  | cons y l ih =>
    refine .bind (h y List.mem_cons_self) fun _ => ?_
    exact (ih fun z hz => h z (List.mem_cons_of_mem _ hz)).mono Set.subset_union_right
      fun _ => subset_rfl

theorem Ends.bind {P : α → Builder → Prop} {R : β → Builder → Prop} {f : α → Lowering β}
    (hx : Ends a₀ x b P) (hf : ∀ y b', P y b' → Ends a₀ (f y) b' R) : Ends a₀ (x >>= f) b R := by
  refine ⟨fun z b' hz => ?_, fun e b' he => ?_⟩
  · obtain ⟨y, b₁, hy, hz⟩ := exists_of_run_bind hz
    exact (hf y b₁ (hx.1 y b₁ hy)).1 z b' hz
  · rcases error_of_run_bind he with he | ⟨y, b₁, hy, he⟩
    · exact hx.2 e b' he
    · exact (hf y b₁ (hx.1 y b₁ hy)).2 e b' he

theorem Ends.lift {Q : α → Builder → Prop} (h : Gives m b Q) : Ends a₀ (liftM m) b Q := by
  refine ⟨fun y b' hrun => ?_, fun err b' hrun => ?_⟩
  · have hrun : (Except.ok (m.run b).1, (m.run b).2) = ((.ok y : Except Error α), b') := hrun
    obtain ⟨hy, rfl⟩ := Prod.mk.inj hrun
    rw [← Except.ok.inj hy]
    exact h
  · have hrun : (Except.ok (m.run b).1, (m.run b).2) = ((.error err : Except Error α), b') := hrun
    cases (Prod.mk.inj hrun).1

theorem Ends.get {Q : β → Builder → Prop} {f : Builder → Lowering β} (h : Ends a₀ (f b) b Q) :
    Ends a₀ (get >>= f) b Q := h

theorem Ends.look {Q : β → Builder → Prop} {f : Arena → α} {g : α → Lowering β}
    (h : Ends a₀ (g (f b.arena)) b Q) : Ends a₀ (look f >>= g) b Q := h

theorem Ends.mono {Q R : α → Builder → Prop} (h : Ends a₀ x b Q) (hQ : ∀ y b', Q y b' → R y b') :
    Ends a₀ x b R :=
  ⟨fun y b' hrun => hQ y b' (h.1 y b' hrun), h.2⟩

theorem Lowers.bind {f : α → Lowering β} (hx : Lowers a₀ G x out)
    (hf : ∀ y, Lowers a₀ (out y ∪ G) (f y) out') : Lowers a₀ G (x >>= f) out' := by
  intro D b hb hG
  refine Ends.bind (hx hb hG) fun y b₁ h₁ => ?_
  exact (hf y h₁.settled (h₁.keep hG)).mono fun _ _ h₂ => h₁.trans h₂

theorem Lowers.lift (h : Builds a₀ G m out) : Lowers a₀ G (liftM m) out :=
  fun _ _ hb hG => .lift (h hb hG)

theorem Lowers.pure {y : α} (h : out y ⊆ G) : Lowers a₀ G (pure y : Lowering α) out :=
  .lift (.pure h)

theorem Lowers.mono (h : Lowers a₀ G x out) {out₂ : α → Set Entry} (hG : G ⊆ G')
    (hout : ∀ y, out₂ y ⊆ out y) : Lowers a₀ G' x out₂ := fun _ _ hb hG' =>
  (h hb (hG.trans hG')).mono fun y _ h' => ⟨h'.settled, h'.later, (hout y).trans h'.known⟩

theorem Lowers.get {f : Builder → Lowering β}
    (h : ∀ b : Builder, Lowers a₀ (b.known G ∪ G) (f b) out') : Lowers a₀ G (get >>= f) out' :=
  fun _ b hb hG => h b hb (Set.union_subset (fun _ he => hb.known hG he) hG)

theorem Lowers.look {f : Arena → α} {g : α → Lowering β}
    (h : ∀ b : Builder, Lowers a₀ (b.known G ∪ G) (g (f b.arena)) out') :
    Lowers a₀ G (look f >>= g) out' :=
  fun _ b hb hG => h b hb (Set.union_subset (fun _ he => hb.known hG he) hG)

theorem Lowers.throw (err : Error) : Lowers a₀ G (throw err : Lowering α) out :=
  fun _ b hb _ => ⟨nofun, fun _ b' hrun => by
    obtain rfl : b = b' := (Prod.mk.inj hrun).2
    exact hb.adjoins⟩

theorem Lowers.forM {f : α → Lowering Unit} {l : List α}
    (h : ∀ y ∈ l, Lowers a₀ G (f y) fun _ => ∅) : Lowers a₀ G (l.forM f) fun _ => ∅ := by
  induction l with
  | nil => exact .pure (Set.empty_subset _)
  | cons y l ih =>
    refine .bind (h y List.mem_cons_self) fun _ => ?_
    exact (ih fun z hz => h z (List.mem_cons_of_mem _ hz)).mono Set.subset_union_right
      fun _ => subset_rfl

end Logic

end QueryTaint.Lower
