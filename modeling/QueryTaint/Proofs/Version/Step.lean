import QueryTaint.Proofs.Lower.Step
import QueryTaint.Proofs.Version.Basic

/-!
# Versions while a body is lowered

What is known of a builder (`Apt`): the version that is bound to a name is a version of that variable,
what lowering comes back to are blocks of the function, and a φ of a variable that stands in a block
or waits for its operands is the only one for this block and variable, since the variable is bound in
the block from then on.

`Next` says of a step that it keeps this and leaves the φs of the blocks that are there alone. `Runs`
and `Goes` say so of steps that cannot fail and of steps that may, given some blocks of the function.
-/

namespace QueryTaint.Version

open Lower

variable {L : List PendingPhi} {b b' b'' : Builder} {a : Arena} {F : Set FuncId}

/-! ## What is known of a builder -/

/-- A φ that waits is of its variable, which is bound in its block. -/
structure Waits (b : Builder) (p : PendingPhi) : Prop where
  func : (b.arena.block p.block).func = some b.func
  name : b.arena.variableOf? p.phi = some p.name
  input : inputTag? p.name = none
  bound : b.scope.lookup p.block p.name ≠ none

/-- What is known of a builder while φs wait for their operands. -/
structure Apt (L : List PendingPhi) (b : Builder) : Prop where
  joins : b.arena.Joins
  laid : b.arena.Laid
  here : (b.arena.block b.block).func = some b.func
  versions {block : BlockId} {name : String} {x : OperandId} :
    b.scope.lookup block name = some x → b.arena.nameOf? x = some name
  labels {name : String} {target : BlockId} : b.scope.labels.get? name = some target →
    (b.arena.block target).func = some b.func
  gotos : ∀ g ∈ b.scope.gotos, (b.arena.block g.2).func = some b.func
  waits : ∀ p ∈ L, Waits b p
  distinct : L.Pairwise fun p q => p.block = q.block → p.name ≠ q.name
  taken {block : BlockId} {phi : OpId} {name : String} : (b.arena.block block).func = some b.func →
    phi ∈ (b.arena.block block).phis → b.arena.variableOf? phi = some name →
      b.scope.lookup block name ≠ none ∧ ∀ p ∈ L, p.block = block → p.name ≠ name

namespace Apt

variable (h : Apt L b)
include h

theorem congr (harena : b'.arena = b.arena) (hfunc : b'.func = b.func) (hblock : b'.block = b.block)
    (hscope : b'.scope = b.scope) : Apt L b' := by
  obtain ⟨a, _, _, s, f, block, _, _, _⟩ := b
  obtain ⟨a', _, _, s', f', block', _, _, _⟩ := b'
  dsimp only at harena hfunc hblock hscope
  subst harena hfunc hblock hscope
  exact ⟨h.joins, h.laid, h.here, h.versions, h.labels, h.gotos,
    fun p hp => ⟨(h.waits p hp).func, (h.waits p hp).name, (h.waits p hp).input, (h.waits p hp).bound⟩,
    h.distinct, h.taken⟩

/-- The arena changes, but not the φs of the function. -/
theorem later (hl : b.arena.Later a) (hjoins : a.Joins) (hlaid : a.Laid)
    (hphis : ∀ block, (a.block block).func = some b.func →
      (a.block block).phis = (b.arena.block block).phis) : Apt L { b with arena := a } where
  joins := hjoins
  laid := hlaid
  here := hl.func h.here
  versions hx := hl.nameOf? (h.versions hx)
  labels ht := hl.func (h.labels ht)
  gotos g hg := hl.func (h.gotos g hg)
  waits p hp := by
    have hw := h.waits p hp
    refine ⟨hl.func hw.func, ?_, hw.input, hw.bound⟩
    exact (h.joins.variableOf?_eq hl (Arena.lt_of_variableOf? hw.name)).trans hw.name
  distinct := h.distinct
  taken {block phi name} hfunc hphi hname := by
    dsimp only at hfunc hphi hname
    rw [hphis block hfunc] at hphi
    obtain ⟨f, hf, -⟩ := h.laid.owned block (Arena.block_lt_of_phi hphi)
    have hold : (b.arena.block block).func = some b.func := by
      rw [hf, ← hl.func hf, hfunc]
    rw [h.joins.variableOf?_eq hl (h.laid.placed block phi hphi)] at hname
    exact h.taken hold hphi hname

theorem goTo {block : BlockId} (hblock : (b.arena.block block).func = some b.func) :
    Apt L { b with block } :=
  { h with here := hblock, waits := fun p hp => ⟨(h.waits p hp).func, (h.waits p hp).name,
      (h.waits p hp).input, (h.waits p hp).bound⟩ }

/-- What is bound in some block stays bound. -/
theorem rescope (scope : Scope)
    (hkeep : ∀ block name, b.scope.lookup block name ≠ none → scope.lookup block name ≠ none)
    (hversions : ∀ block name x, scope.lookup block name = some x → b.arena.nameOf? x = some name)
    (hlabels : ∀ name target, scope.labels.get? name = some target →
      (b.arena.block target).func = some b.func)
    (hgotos : ∀ g ∈ scope.gotos, (b.arena.block g.2).func = some b.func) :
    Apt L { b with scope } :=
  { h with
    versions := hversions _ _ _
    labels := hlabels _ _
    gotos := hgotos
    waits := fun p hp => ⟨(h.waits p hp).func, (h.waits p hp).name, (h.waits p hp).input,
      hkeep _ _ (h.waits p hp).bound⟩
    taken := fun hfunc hphi hname => (h.taken hfunc hphi hname).imp_left (hkeep _ _) }

/-- A version of a variable is bound to its name. -/
theorem bind {name : String} {x : OperandId} (hname : b.arena.nameOf? x = some name)
    (block : BlockId) : Apt L { b with scope := b.scope.bind block name x } := by
  refine h.rescope (b.scope.bind block name x) (fun _ _ => Scope.lookup_bind_ne_none)
    (fun other n y hy => ?_) (fun _ _ => h.labels) h.gotos
  rw [Scope.lookup_bind] at hy
  split at hy
  · rename_i hsame
    cases hy
    rw [hsame.2]
    exact hname
  · exact h.versions hy

/-- A φ that was made for a variable waits from now on, and the variable is bound in the block. -/
theorem wait {block : BlockId} {name : String} {x : OperandId} {phi : OpId}
    (pending : Array PendingPhi) (hblock : (b.arena.block block).func = some b.func)
    (hphi : b.arena.variableOf? phi = some name) (hx : b.arena.nameOf? x = some name)
    (hinput : inputTag? name = none) (hnone : b.scope.lookup block name = none) :
    Apt (L ++ [⟨block, name, phi⟩])
      { b with scope := ({ b.scope with pending } : Scope).bind block name x } := by
  have hold : Apt L { b with scope := ({ b.scope with pending } : Scope).bind block name x } :=
    (h.rescope { b.scope with pending } (fun _ _ => id) (fun _ _ _ => h.versions)
      (fun _ _ => h.labels) h.gotos).bind hx block
  have hbound {other : BlockId} {n : String} (hother : b.scope.lookup other n ≠ none)
      (hsame : block = other) : name ≠ n := by
    rintro rfl
    exact hother (hsame ▸ hnone)
  refine { hold with waits := fun p hp => ?_, distinct := ?_, taken := fun hfunc hmem hname => ?_ }
  · rcases List.mem_append.1 hp with hp | hp
    · exact hold.waits p hp
    · rw [List.mem_singleton.1 hp]
      refine ⟨hblock, hphi, hinput, ?_⟩
      rw [Scope.lookup_bind, if_pos ⟨rfl, rfl⟩]
      exact Option.some_ne_none x
  · refine List.pairwise_append.2 ⟨h.distinct, List.pairwise_singleton _ _, fun p hp q hq hsame => ?_⟩
    rw [List.mem_singleton.1 hq] at hsame ⊢
    exact (hbound (h.waits p hp).bound hsame.symm).symm
  · refine ⟨(hold.taken hfunc hmem hname).1, fun p hp hsame => ?_⟩
    rcases List.mem_append.1 hp with hp | hp
    · exact (hold.taken hfunc hmem hname).2 p hp hsame
    · rw [List.mem_singleton.1 hp] at hsame ⊢
      exact hbound (h.taken hfunc hmem hname).1 hsame

/-- A φ is put into a block: one of no variable into a block without φs, or one of a variable that is
bound there and that no other φ is of. -/
theorem attachPhi {block : BlockId} {phi : OpId} (hlt : phi.index < b.arena.ops.size)
    (happart : (b.arena.block block).phis = [] ∨ ∃ name, b.arena.variableOf? phi = some name ∧
      ∀ p ∈ (b.arena.block block).phis, b.arena.variableOf? p ≠ some name)
    (htaken : ∀ name, b.arena.variableOf? phi = some name →
      b.scope.lookup block name ≠ none ∧ ∀ p ∈ L, p.block = block → p.name ≠ name) :
    Apt L { b with arena := b.arena.attachPhi block phi } := by
  have hl := Arena.later_attachPhi b.arena block phi
  have hvariable {op : OpId} (hop : op.index < b.arena.ops.size) :
      (b.arena.attachPhi block phi).variableOf? op = b.arena.variableOf? op :=
    h.joins.variableOf?_eq hl hop
  refine ⟨h.joins.attachPhi block phi, h.laid.attachPhi h.joins hlt happart, hl.func h.here,
    fun hx => hl.nameOf? (h.versions hx), fun ht => hl.func (h.labels ht),
    fun g hg => hl.func (h.gotos g hg), fun p hp => ?_, h.distinct, ?_⟩
  · have hw := h.waits p hp
    exact ⟨hl.func hw.func, (hvariable (Arena.lt_of_variableOf? hw.name)).trans hw.name, hw.input,
      hw.bound⟩
  · intro other q name hfunc hq hname
    dsimp only at hfunc hq hname
    have hold : (b.arena.block other).func = some b.func := by
      rw [← hfunc]
      exact (Arena.block_modifyBlock_keep b.arena Block.func block other
        (f := fun x => { x with phis := addNew x.phis phi }) fun _ => rfl).symm
    have hkept (hq : q ∈ (b.arena.block other).phis) : b.scope.lookup other name ≠ none ∧
        ∀ p ∈ L, p.block = other → p.name ≠ name := by
      rw [hvariable (h.laid.placed other q hq)] at hname
      exact h.taken hold hq hname
    rw [Arena.phis_attachPhi] at hq
    split at hq
    · rename_i hsame
      obtain ⟨rfl, -⟩ := hsame
      rcases mem_addNew.1 hq with hq | rfl
      · exact hkept hq
      · rw [hvariable hlt] at hname
        exact htaken name hname
    · exact hkept hq

end Apt

/-! ## What a step does -/

/-- A step leaves the φs of the blocks that are there alone, but for those of some functions, and makes
blocks of its function, of those functions and of functions that are made too. -/
structure After (F : Set FuncId) (b b' : Builder) : Prop where
  later : b.arena.Later b'.arena
  func : b'.func = b.func
  phis : ∀ block : BlockId, block.index < b.arena.blocks.size →
    (∀ f ∈ F, (b.arena.block block).func ≠ some f) →
      (b'.arena.block block).phis = (b.arena.block block).phis
  made : ∀ block : BlockId, b.arena.blocks.size ≤ block.index →
    block.index < b'.arena.blocks.size → ∃ f, (b'.arena.block block).func = some f ∧
      (f = b.func ∨ f ∈ F ∨ b.arena.funcs.size ≤ f.index)

namespace After

theorem refl (b : Builder) : After F b b where
  later := .refl _
  func := rfl
  phis _ _ _ := rfl
  made _ hge hlt := absurd hlt (Nat.not_lt.2 hge)

theorem trans (h : After F b b') (h' : After F b' b'') : After F b b'' where
  later := h.later.trans h'.later
  func := h'.func.trans h.func
  phis block hlt hf := by
    refine (h'.phis block (Nat.lt_of_lt_of_le hlt h.later.blocks) ?_).trans (h.phis block hlt hf)
    rw [h.later.owner block hlt]
    exact hf
  made block hge hlt := by
    rcases Nat.lt_or_ge block.index b'.arena.blocks.size with hmid | hmid
    · obtain ⟨f, hf, hwhich⟩ := h.made block hge hmid
      exact ⟨f, h'.later.func hf, hwhich⟩
    · obtain ⟨f, hf, hwhich⟩ := h'.made block hmid hlt
      rw [h.func] at hwhich
      exact ⟨f, hf, hwhich.imp_right (.imp_right (Nat.le_trans h.later.funcs))⟩

theorem mono {F' : Set FuncId} (h : After F b b') (hF : F ⊆ F') : After F' b b' where
  later := h.later
  func := h.func
  phis block hlt hf := h.phis block hlt fun f hmem => hf f (hF hmem)
  made block hge hlt := by
    obtain ⟨f, hf, hwhich⟩ := h.made block hge hlt
    exact ⟨f, hf, hwhich.imp_right (.imp_left (@hF f))⟩

/-- Functions that are made later have no blocks yet. -/
theorem of_new (h : After F b b') (hlaid : b.arena.Laid)
    (hF : ∀ f ∈ F, b.arena.funcs.size ≤ f.index) : After ∅ b b' where
  later := h.later
  func := h.func
  phis block hlt _ := h.phis block hlt fun f hmem hf =>
    Nat.not_lt.2 (hF f hmem) (hlaid.func_lt hf)
  made block hge hlt := by
    obtain ⟨f, hf, hwhich⟩ := h.made block hge hlt
    refine ⟨f, hf, hwhich.imp_right fun hwhich => .inr ?_⟩
    exact hwhich.elim (hF f) id

end After

/-- A step fills the arena: it places no φ, makes no block and binds nothing. -/
structure Filled (b b' : Builder) : Prop where
  later : b.arena.Later b'.arena
  joins : b'.arena.Joins
  laid : b'.arena.Laid
  phis : ∀ block, (b'.arena.block block).phis = (b.arena.block block).phis
  blocks : b'.arena.blocks.size = b.arena.blocks.size
  func : b'.func = b.func
  block : b'.block = b.block
  scope : b'.scope = b.scope

namespace Filled

theorem trans (h : Filled b b') (h' : Filled b' b'') : Filled b b'' where
  later := h.later.trans h'.later
  joins := h'.joins
  laid := h'.laid
  phis block := (h'.phis block).trans (h.phis block)
  blocks := h'.blocks.trans h.blocks
  func := h'.func.trans h.func
  block := h'.block.trans h.block
  scope := h'.scope.trans h.scope

theorem after (h : Filled b b') : After F b b' where
  later := h.later
  func := h.func
  phis block _ _ := h.phis block
  made _ hge hlt := absurd (Nat.lt_of_lt_of_eq hlt h.blocks) (Nat.not_lt.2 hge)

/-- The arena stays what it is. -/
theorem same (hjoins : b.arena.Joins) (hlaid : b.arena.Laid) (harena : b'.arena = b.arena)
    (hfunc : b'.func = b.func) (hblock : b'.block = b.block) (hscope : b'.scope = b.scope) :
    Filled b b' where
  later := harena ▸ .refl _
  joins := harena ▸ hjoins
  laid := harena ▸ hlaid
  phis _ := by rw [harena]
  blocks := by rw [harena]
  func := hfunc
  block := hblock
  scope := hscope

theorem spares (hjoins : b.arena.Joins) (hlaid : b.arena.Laid) (hs : b.arena.Spares a) :
    Filled b { b with arena := a } :=
  ⟨hs.later, hs.joins hjoins, hs.laid hjoins hlaid, hs.phis, hs.blocks, rfl, rfl, rfl⟩

/-- An operation is made. -/
theorem addOp (hjoins : b.arena.Joins) (hlaid : b.arena.Laid) {kind : OpKind}
    (hkind : b.arena.Suits kind) (span : Span) :
    Filled b { b with arena := (b.arena.addOp kind span).2 } where
  later := Arena.later_addOp b.arena kind span
  joins := hjoins.addOp hkind span
  laid := hlaid.keep hjoins (Arena.later_addOp b.arena kind span) (fun _ => rfl) (fun _ => rfl)
    (fun _ => rfl) rfl
  phis _ := rfl
  blocks := rfl
  func := rfl
  block := rfl
  scope := rfl

/-- A predecessor of the same function is recorded. -/
theorem link (hjoins : b.arena.Joins) (hlaid : b.arena.Laid) {source target : BlockId}
    (hsame : (b.arena.block source).func = (b.arena.block target).func) :
    Filled b { b with arena := b.arena.link source target } where
  later := Arena.later_link ..
  joins := hjoins.link ..
  laid := hlaid.link hjoins hsame
  phis := Arena.phis_link b.arena source target
  blocks := Arena.size_blocks_modifyBlock ..
  func := rfl
  block := rfl
  scope := rfl

end Filled

theorem Apt.filled (h : Apt L b) (hf : Filled b b') : Apt L b' :=
  (h.later hf.later hf.joins hf.laid fun block _ => hf.phis block).congr rfl hf.func hf.block hf.scope

/-- What is known while the statements of a body are lowered. -/
structure Open (b : Builder) : Prop where
  apt : Apt b.scope.pending.toList b
  building : b.scope.complete = false

/-- What holds after a step that lowers a part of a body. -/
structure Next (b b' : Builder) : Prop where
  isOpen : Open b'
  after : After ∅ b b'

theorem Next.trans (h : Next b b') (h' : Next b' b'') : Next b b'' :=
  ⟨h'.isOpen, h.after.trans h'.after⟩

namespace Open

theorem next (h : Open b) : Next b b := ⟨h, .refl b⟩

theorem filled (h : Open b) (hf : Filled b b') : Next b b' :=
  ⟨⟨hf.scope ▸ h.apt.filled hf, hf.scope ▸ h.building⟩, hf.after⟩

/-- The scope changes, but not the φs that wait. -/
theorem rescope (h : Open b) {scope : Scope} (hapt : Apt b.scope.pending.toList { b with scope })
    (hpending : scope.pending = b.scope.pending) (hcomplete : scope.complete = b.scope.complete) :
    Next b { b with scope } where
  isOpen := ⟨by simpa only [hpending] using hapt, hcomplete.trans h.building⟩
  after := { After.refl b with }

/-- A block is made, of the function or of one that is made too. -/
theorem makes (h : Open b) {block : BlockId} {f : FuncId} (hm : b.arena.Makes a block f)
    (hf : f = b.func ∨ b.arena.funcs.size ≤ f.index) : Next b { b with arena := a } where
  isOpen := ⟨h.apt.later hm.later (hm.joins h.apt.joins) (hm.laid h.apt.joins h.apt.laid)
    fun other _ => hm.phis other, h.building⟩
  after := by
    refine ⟨hm.later, rfl, fun other _ _ => hm.phis other, fun other hge hlt => ?_⟩
    have hnew : other.index = b.arena.blocks.size :=
      Nat.le_antisymm (Nat.le_of_lt_succ (Nat.lt_of_lt_of_eq hlt hm.size)) hge
    refine ⟨f, ?_, hf.imp_right .inr⟩
    dsimp only
    rw [hm.block, if_pos hnew]

theorem goTo (h : Open b) {block : BlockId} (hblock : (b.arena.block block).func = some b.func) :
    Next b { b with block } :=
  ⟨⟨h.apt.goTo hblock, h.building⟩, { After.refl b with }⟩

theorem bind (h : Open b) {name : String} {x : OperandId} (hname : b.arena.nameOf? x = some name)
    (block : BlockId) : Next b { b with scope := b.scope.bind block name x } :=
  h.rescope (h.apt.bind hname block) rfl rfl

theorem wait (h : Open b) {block : BlockId} {name : String} {x : OperandId} {phi : OpId}
    (hblock : (b.arena.block block).func = some b.func) (hphi : b.arena.variableOf? phi = some name)
    (hx : b.arena.nameOf? x = some name) (hinput : inputTag? name = none)
    (hnone : b.scope.lookup block name = none) :
    Next b { b with scope := ({ b.scope with
      pending := b.scope.pending.push ⟨block, name, phi⟩ } : Scope).bind block name x } where
  isOpen := by
    refine ⟨?_, h.building⟩
    have hwait := h.apt.wait (b.scope.pending.push ⟨block, name, phi⟩) hblock hphi hx
      hinput hnone
    rwa [← Array.toList_push] at hwait
  after := { After.refl b with }

end Open

/-! ## Putting steps together -/

section Logic

variable {α β : Type} {m : Build α} {x : Lowering α} {P Q : α → Builder → Prop}
  {T : β → Builder → Prop} {G G' : Set BlockId}

/-- What holds after a step that may fail, and of the arena if it fails. -/
structure Yields (x : Lowering α) (b : Builder) (Q : α → Builder → Prop) : Prop where
  ok : ∀ y b', x.run.run b = (.ok y, b') → Q y b'
  error : ∀ e b', x.run.run b = (.error e, b') → b'.arena.Joins ∧ b'.arena.Laid

theorem Yields.of_run {y : α} (hrun : x.run.run b = (.ok y, b')) (h : Q y b') : Yields x b Q where
  ok z b'' hz := by
    cases hrun.symm.trans hz
    exact h
  error e b'' he := by cases hrun.symm.trans he

theorem Yields.bind {f : α → Lowering β} (hx : Yields x b P)
    (hf : ∀ y b', P y b' → Yields (f y) b' T) : Yields (x >>= f) b T where
  ok z b' hz := by
    obtain ⟨y, b₁, hy, hz⟩ := exists_of_run_bind hz
    exact (hf y b₁ (hx.ok y b₁ hy)).ok z b' hz
  error e b' he := by
    rcases error_of_run_bind he with he | ⟨y, b₁, hy, he⟩
    · exact hx.error e b' he
    · exact (hf y b₁ (hx.ok y b₁ hy)).error e b' he

theorem Yields.pure {y : α} (h : Q y b) : Yields (pure y) b Q := .of_run rfl h

theorem Yields.mono (h : Yields x b P) (hPQ : ∀ y b', P y b' → Q y b') : Yields x b Q :=
  ⟨fun y b' hy => hPQ y b' (h.ok y b' hy), h.error⟩

theorem Yields.lift (h : Gives m b Q) : Yields (liftM m) b Q := .of_run rfl h

theorem Yields.get {f : Builder → Lowering β} (h : Yields (f b) b T) : Yields (get >>= f) b T :=
  Yields.bind (P := fun y b' => y = b ∧ b' = b) (.of_run rfl ⟨rfl, rfl⟩) fun _ _ ⟨hy, hb⟩ => by
    rw [hy, hb]
    exact h

theorem Yields.look {f : Arena → α} {g : α → Lowering β} (h : Yields (g (f b.arena)) b T) :
    Yields (look f >>= g) b T :=
  Yields.bind (P := fun y b' => y = f b.arena ∧ b' = b) (.of_run rfl ⟨rfl, rfl⟩)
    fun _ _ ⟨hy, hb⟩ => by
      rw [hy, hb]
      exact h

/-- Some blocks belong to the function that is lowered. -/
def Holds (G : Set BlockId) (b : Builder) : Prop :=
  ∀ block ∈ G, (b.arena.block block).func = some b.func

theorem Holds.next (h : Holds G b) (hn : Next b b') : Holds G b' := fun block hblock => by
  rw [hn.after.func]
  exact hn.after.later.func (h block hblock)

theorem Holds.insert (h : Holds G b) {block : BlockId}
    (hblock : (b.arena.block block).func = some b.func) : Holds (insert block G) b :=
  Set.forall_mem_insert.2 ⟨hblock, h⟩

/-- A step that cannot fail and only fills the arena. -/
def Fills (m : Build α) : Prop :=
  ∀ ⦃b : Builder⦄, b.arena.Joins → b.arena.Laid → Gives m b fun _ b' => Filled b b'

/-- A step that cannot fail, given some blocks of the function. -/
def Runs (G : Set BlockId) (m : Build α) : Prop :=
  ∀ ⦃b : Builder⦄, Open b → Holds G b → Gives m b fun _ b' => Next b b'

/-- A step that may fail, given some blocks of the function. -/
def Goes (G : Set BlockId) (x : Lowering α) : Prop :=
  ∀ ⦃b : Builder⦄, Open b → Holds G b → Yields x b fun _ b' => Next b b'

namespace Fills

theorem pure (y : α) : Fills (pure y : Build α) :=
  fun _ hjoins hlaid => .same hjoins hlaid rfl rfl rfl rfl

theorem bind {f : α → Build β} (hm : Fills m) (hf : ∀ y, Fills (f y)) : Fills (m >>= f) :=
  fun _ hjoins hlaid => Gives.bind (hm hjoins hlaid) fun y _ h₁ =>
    (hf y h₁.joins h₁.laid).mono fun _ _ h₂ => h₁.trans h₂

theorem get {f : Builder → Build β} (h : ∀ b, Fills (f b)) : Fills (get >>= f) :=
  fun b hjoins hlaid => h b hjoins hlaid

theorem look {f : Arena → α} {g : α → Build β} (h : ∀ y, Fills (g y)) :
    Fills (Lower.look f >>= g) := fun _ hjoins hlaid => h _ hjoins hlaid

theorem runs (h : Fills m) : Runs G m :=
  fun _ hb _ => (h hb.apt.joins hb.apt.laid).mono fun _ _ => hb.filled

end Fills

namespace Runs

theorem pure (y : α) : Runs G (pure y : Build α) := fun _ hb _ => hb.next

theorem bind {f : α → Build β} (hm : Runs G m) (hf : ∀ y, Runs G (f y)) : Runs G (m >>= f) :=
  fun _ hb hG => Gives.bind (hm hb hG) fun y _ h₁ =>
    (hf y h₁.isOpen (hG.next h₁)).mono fun _ _ h₂ => h₁.trans h₂

theorem get {f : Builder → Build β} (h : ∀ b : Builder, Runs (insert b.block G) (f b)) :
    Runs G (get >>= f) := fun b hb hG => h b hb (hG.insert hb.apt.here)

theorem look {f : Arena → α} {g : α → Build β} (h : ∀ y, Runs G (g y)) :
    Runs G (Lower.look f >>= g) := fun _ hb hG => h _ hb hG

theorem forM {f : α → Build Unit} {l : List α} (h : ∀ x ∈ l, Runs G (f x)) :
    Runs G (l.forM f) := by
  induction l with
  | nil => exact .pure ()
  | cons x l ih =>
    exact .bind (h x List.mem_cons_self) fun _ => ih fun y hy => h y (List.mem_cons_of_mem _ hy)

end Runs

namespace Goes

theorem mono (h : Goes G x) (hG : G ⊆ G') : Goes G' x :=
  fun _ hb hG' => h hb fun block hblock => hG' block (hG hblock)

theorem anywhere (h : Goes ∅ x) : Goes G x := h.mono (Set.empty_subset G)

theorem pure (y : α) : Goes G (pure y : Lowering α) := fun _ hb _ => .pure hb.next

theorem bind {f : α → Lowering β} (hx : Goes G x) (hf : ∀ y, Goes G (f y)) : Goes G (x >>= f) :=
  fun _ hb hG => Yields.bind (hx hb hG) fun y _ h₁ =>
    (hf y h₁.isOpen (hG.next h₁)).mono fun _ _ h₂ => h₁.trans h₂

theorem lift (h : Runs G m) : Goes G (liftM m) := fun _ hb hG => .lift (h hb hG)

/-- Something is built first. -/
theorem build {f : α → Lowering β} (hm : Runs G m) (hf : ∀ y, Goes G (f y)) :
    Goes G (liftM m >>= f) := (lift hm).bind hf

theorem get {f : Builder → Lowering β} (h : ∀ b : Builder, Goes (insert b.block G) (f b)) :
    Goes G (get >>= f) := fun b hb hG => .get (h b hb (hG.insert hb.apt.here))

theorem throw (e : Error) : Goes G (throw e : Lowering α) := fun _ b hb =>
  { ok := fun y b' hy => by cases (show ((.error e : Except Error α), _) = (.ok y, b') from hy)
    error := fun e' b' he => by
      cases (show ((.error e : Except Error α), _) = (.error e', b') from he)
      exact ⟨‹Open _›.apt.joins, ‹Open _›.apt.laid⟩ }

theorem forM {f : α → Lowering Unit} {l : List α} (h : ∀ x ∈ l, Goes G (f x)) :
    Goes G (l.forM f) := by
  induction l with
  | nil => exact .pure ()
  | cons x l ih =>
    exact .bind (h x List.mem_cons_self) fun _ => ih fun y hy => h y (List.mem_cons_of_mem _ hy)

end Goes

end Logic

end QueryTaint.Version
