import QueryTaint.Lower.Tree
import QueryTaint.Proofs.Lower.Law
import QueryTaint.Proofs.Lower.Step
import QueryTaint.Proofs.Origin.Entry

/-!
# Lowering with known entries

A law says something of a step wherever it is taken. A `Logic` says something of a step that is taken
where some entries are known, and which entries are known by its result. So it can speak of the
operands and blocks that a step takes from the steps before it. This module goes from the basic steps
to the forms of expressions.
-/

namespace QueryTaint

/-- The entries of some operands. -/
def Entry.operands (xs : List OperandId) : Set Entry := {e | ∃ x ∈ xs, e = .operand x}

@[simp] theorem Entry.mem_operands {x : OperandId} {xs : List OperandId} :
    .operand x ∈ Entry.operands xs ↔ x ∈ xs := by
  simp [Entry.operands]

@[simp] theorem Entry.operands_subset {xs : List OperandId} {S : Set Entry} :
    Entry.operands xs ⊆ S ↔ ∀ x ∈ xs, .operand x ∈ S :=
  ⟨fun h _ hx => h (mem_operands.2 hx), by rintro h _ ⟨x, hx, rfl⟩; exact h x hx⟩

/-- The entries of some blocks. -/
def Entry.blocks (xs : List BlockId) : Set Entry := {e | ∃ x ∈ xs, e = .block x}

@[simp] theorem Entry.mem_blocks {x : BlockId} {xs : List BlockId} :
    .block x ∈ Entry.blocks xs ↔ x ∈ xs := by
  simp [Entry.blocks]

@[simp] theorem Entry.blocks_subset {xs : List BlockId} {S : Set Entry} :
    Entry.blocks xs ⊆ S ↔ ∀ x ∈ xs, .block x ∈ S :=
  ⟨fun h _ hx => h (mem_blocks.2 hx), by rintro h _ ⟨x, hx, rfl⟩; exact h x hx⟩

namespace Lower

/-- The entries that a step may take from the builder: the current block, and the values of
constants. -/
inductive Builder.Held (b : Builder) : Entry → Prop where
  | here : Held b (.block b.block)
  | const {name : String} {x : OperandId} : b.consts.get? name = some x → Held b (.operand x)

/-- The entries that a step may take from the builder. -/
def Builder.held (b : Builder) : Set Entry := {e | b.Held e}

@[simp] theorem Builder.block_held {b : Builder} : .block b.block ∈ b.held := .here

theorem Builder.const_held {b : Builder} {name : String} {x : OperandId}
    (h : b.consts.get? name = some x) : .operand x ∈ b.held := .const h

/-- A change of the builder beside the arena, what is known inside the function, constants and the
functions of the script. -/
structure Beside (b b' : Builder) : Prop extends Aside b b' where
  consts : b'.consts = b.consts
  main : b'.script.main = b.script.main
  functions : b'.script.functions = b.script.functions
  ordered : b'.script.ordered = b.script.ordered

/-- What matters of a block stays, but for marks. -/
structure Marks (f : Block → Block) : Prop where
  ops (r : Block) : (f r).ops = r.ops
  phis (r : Block) : (f r).phis = r.phis
  preds (r : Block) : (f r).preds = r.preds
  func (r : Block) : (f r).func = r.func

/-! ## What steps keep -/

/-- What holds of a builder between steps, how later builders are related to it, which entries are
known, and what is left if a step fails. Something may be owed in the middle of a step. -/
structure Regime (ι : Type) where
  Holds : ι → Builder → Prop
  Later : Builder → Builder → Prop
  known : Builder → Set Entry
  Fails : Builder → Prop
  refl (b : Builder) : Later b b
  trans {b b' b'' : Builder} : Later b b' → Later b' b'' → Later b b''
  keep {b b' : Builder} : Later b b' → known b ⊆ known b'
  fails {i : ι} {b : Builder} : Holds i b → Fails b

namespace Regime

section

variable {ι : Type} (R : Regime ι)

/-- What holds after a step: what holds of every builder, and that some entries are known. -/
structure Done (i : ι) (b : Builder) (G : Set Entry) (b' : Builder) : Prop where
  holds : R.Holds i b'
  later : R.Later b b'
  known : G ⊆ R.known b'

/-- What holds after a step that may fail, if it does not, and what is left if it does. -/
structure Ends {α : Type} (x : Lowering α) (b : Builder) (Q : α → Builder → Prop) : Prop where
  ok : ∀ y b', x.run.run b = (.ok y, b') → Q y b'
  error : ∀ e b', x.run.run b = (.error e, b') → R.Fails b'

/-- A step that cannot fail, given known entries. -/
def Builds {α : Type} (G : Set Entry) (m : Build α) (out : α → Set Entry) : Prop :=
  ∀ ⦃i b⦄, R.Holds i b → G ⊆ R.known b → Gives m b fun y b' => R.Done i b (out y) b'

/-- A step that may fail, given known entries. -/
def Lowers {α : Type} (G : Set Entry) (x : Lowering α) (out : α → Set Entry) : Prop :=
  ∀ ⦃i b⦄, R.Holds i b → G ⊆ R.known b → R.Ends x b fun y b' => R.Done i b (out y) b'

end

variable {ι α β : Type} {R : Regime ι} {i : ι} {b b' b'' : Builder} {G G' : Set Entry} {m : Build α}
  {x : Lowering α} {P Q : α → Builder → Prop} {T : β → Builder → Prop} {out : α → Set Entry}
  {out' : β → Set Entry}

theorem Done.trans (h : R.Done i b G b') (h' : R.Done i b' G' b'') : R.Done i b G' b'' :=
  ⟨h'.holds, R.trans h.later h'.later, h'.known⟩

theorem Done.keep (h : R.Done i b G b') (hG : G' ⊆ R.known b) : G ∪ G' ⊆ R.known b' :=
  Set.union_subset h.known (hG.trans (R.keep h.later))

namespace Ends

theorem of_run {y : α} (hrun : x.run.run b = (.ok y, b')) (h : Q y b') : R.Ends x b Q where
  ok z b'' hz := by
    cases hrun.symm.trans hz
    exact h
  error e b'' he := by cases hrun.symm.trans he

theorem bind {f : α → Lowering β} (hx : R.Ends x b P) (hf : ∀ y b', P y b' → R.Ends (f y) b' T) :
    R.Ends (x >>= f) b T where
  ok z b' hz := by
    obtain ⟨y, b₁, hy, hz⟩ := exists_of_run_bind hz
    exact (hf y b₁ (hx.ok y b₁ hy)).ok z b' hz
  error e b' he := by
    rcases error_of_run_bind he with he | ⟨y, b₁, hy, he⟩
    · exact hx.error e b' he
    · exact (hf y b₁ (hx.ok y b₁ hy)).error e b' he

theorem mono (h : R.Ends x b P) (hPQ : ∀ y b', P y b' → Q y b') : R.Ends x b Q :=
  ⟨fun y b' hy => hPQ y b' (h.ok y b' hy), h.error⟩

theorem lift (h : Gives m b Q) : R.Ends (liftM m) b Q := of_run rfl h

theorem get {f : Builder → Lowering β} (h : R.Ends (f b) b T) : R.Ends (get >>= f) b T :=
  bind (P := fun y b' => y = b ∧ b' = b) (of_run rfl ⟨rfl, rfl⟩) fun _ _ ⟨hy, hb⟩ => by
    rw [hy, hb]
    exact h

theorem look {f : Arena → α} {g : α → Lowering β} (h : R.Ends (g (f b.arena)) b T) :
    R.Ends (Lower.look f >>= g) b T :=
  bind (P := fun y b' => y = f b.arena ∧ b' = b) (of_run rfl ⟨rfl, rfl⟩) fun _ _ ⟨hy, hb⟩ => by
    rw [hy, hb]
    exact h

end Ends

namespace Builds

theorem pure {y : α} (h : out y ⊆ G) : R.Builds G (pure y : Build α) out :=
  fun _ b hb hG => ⟨hb, R.refl b, h.trans hG⟩

theorem bind {f : α → Build β} (hm : R.Builds G m out) (hf : ∀ y, R.Builds (out y ∪ G) (f y) out') :
    R.Builds G (m >>= f) out' :=
  fun _ _ hb hG => Gives.bind (hm hb hG) fun y _ h₁ =>
    (hf y h₁.holds (h₁.keep hG)).mono fun _ _ h₂ => h₁.trans h₂

theorem mono (h : R.Builds G m out) {out₂ : α → Set Entry} (hG : G ⊆ G')
    (hout : ∀ y, out₂ y ⊆ out y) : R.Builds G' m out₂ := fun _ _ hb hG' =>
  (h hb (hG.trans hG')).mono fun y _ h' => ⟨h'.holds, h'.later, (hout y).trans h'.known⟩

theorem get {f : Builder → Build β}
    (h : ∀ i b, R.Holds i b → R.Builds (R.known b ∪ G) (f b) out') : R.Builds G (get >>= f) out' :=
  fun i b hb hG => h i b hb hb (Set.union_subset subset_rfl hG)

theorem look {f : Arena → α} {g : α → Build β} (h : ∀ y, R.Builds G (g y) out') :
    R.Builds G (Lower.look f >>= g) out' :=
  fun _ _ hb hG => h _ hb hG

theorem forM {f : α → Build Unit} {l : List α} (h : ∀ y ∈ l, R.Builds G (f y) fun _ => ∅) :
    R.Builds G (l.forM f) fun _ => ∅ := by
  induction l with
  | nil => exact pure (Set.empty_subset _)
  | cons y l ih =>
    refine bind (h y List.mem_cons_self) fun _ => ?_
    exact (ih fun z hz => h z (List.mem_cons_of_mem _ hz)).mono Set.subset_union_right
      fun _ => subset_rfl

end Builds

namespace Lowers

theorem lift (h : R.Builds G m out) : R.Lowers G (liftM m) out := fun _ _ hb hG => .lift (h hb hG)

theorem pure {y : α} (h : out y ⊆ G) : R.Lowers G (pure y : Lowering α) out := lift (.pure h)

theorem bind {f : α → Lowering β} (hx : R.Lowers G x out)
    (hf : ∀ y, R.Lowers (out y ∪ G) (f y) out') : R.Lowers G (x >>= f) out' :=
  fun _ _ hb hG => .bind (hx hb hG) fun y _ h₁ =>
    (hf y h₁.holds (h₁.keep hG)).mono fun _ _ h₂ => h₁.trans h₂

theorem mono (h : R.Lowers G x out) {out₂ : α → Set Entry} (hG : G ⊆ G')
    (hout : ∀ y, out₂ y ⊆ out y) : R.Lowers G' x out₂ := fun _ _ hb hG' =>
  (h hb (hG.trans hG')).mono fun y _ h' => ⟨h'.holds, h'.later, (hout y).trans h'.known⟩

theorem get {f : Builder → Lowering β}
    (h : ∀ i b, R.Holds i b → R.Lowers (R.known b ∪ G) (f b) out') : R.Lowers G (get >>= f) out' :=
  fun i b hb hG => .get (h i b hb hb (Set.union_subset subset_rfl hG))

theorem look {f : Arena → α} {g : α → Lowering β} (h : ∀ y, R.Lowers G (g y) out') :
    R.Lowers G (Lower.look f >>= g) out' :=
  fun _ _ hb hG => .look (h _ hb hG)

theorem throw (e : Error) : R.Lowers G (throw e : Lowering α) out := fun i b hb _ =>
  { ok := fun y b' hy => by cases (show ((.error e : Except Error α), b) = (.ok y, b') from hy)
    error := fun e' b' he => by
      cases (show ((.error e : Except Error α), b) = (.error e', b') from he)
      exact R.fails hb }

theorem forM {f : α → Lowering Unit} {l : List α} (h : ∀ y ∈ l, R.Lowers G (f y) fun _ => ∅) :
    R.Lowers G (l.forM f) fun _ => ∅ := by
  induction l with
  | nil => exact pure (Set.empty_subset _)
  | cons y l ih =>
    refine bind (h y List.mem_cons_self) fun _ => ?_
    exact (ih fun z hz => h z (List.mem_cons_of_mem _ hz)).mono Set.subset_union_right
      fun _ => subset_rfl

end Lowers

end Regime

/-! ## Logics -/

/-- What is said of steps that are taken where some entries are known. -/
structure Logic where
  Lowers {α : Type} (G : Set Entry) (x : Lowering α) (out : α → Set Entry) : Prop
  unit {α : Type} {G : Set Entry} {out : α → Set Entry} {y : α} : out y ⊆ G →
    Lowers G (pure y : Lowering α) out
  seq {α β : Type} {G : Set Entry} {x : Lowering α} {out : α → Set Entry} {f : α → Lowering β}
    {out' : β → Set Entry} : Lowers G x out → (∀ y, Lowers (out y ∪ G) (f y) out') →
    Lowers G (x >>= f) out'
  weaken {α : Type} {G G' : Set Entry} {x : Lowering α} {out out' : α → Set Entry} :
    Lowers G x out → G ⊆ G' → (∀ y, out' y ⊆ out y) → Lowers G' x out'
  builder {G : Set Entry} : Lowers G (get : Lowering Builder) Builder.held
  fail {α : Type} {G : Set Entry} {out : α → Set Entry} (e : Error) :
    Lowers G (throw e : Lowering α) out
  aside {G : Set Entry} {f : Builder → Builder} : (∀ b, Beside b (f b)) →
    Lowers G (modify f : Lowering Unit) fun _ => ∅
  define {G : Set Entry} {value : OperandId} (name : String) : .operand value ∈ G →
    Lowers G (define name value : Lowering Unit) fun _ => ∅
  operand {G : Set Entry} {kind : OperandKind} : (∀ x ∈ kind.links, .operand x ∈ G) →
    kind.isInput = false → (∀ owner, kind ≠ .temporary (some owner)) →
    Lowers G (newOperand kind : Lowering OperandId) fun x => {.operand x}
  version {G : Set Entry} {kind : OperandKind} : (∀ x ∈ kind.links, .operand x ∈ G) →
    kind.isInput = false → (∀ owner, kind ≠ .temporary owner) →
    Lowers G (do newTemporary (some (← newOperand kind)) : Lowering OperandId) fun x => {.operand x}
  noteFunc {G : Set Entry} :
    Lowers G (changeFunc fun f => { f with readsInput := true } : Lowering Unit) fun _ => ∅
  mark {G : Set Entry} {block : BlockId} {f : Block → Block} : .block block ∈ G → Marks f →
    Lowers G (change (·.modifyBlock block f) : Lowering Unit) fun _ => ∅
  newBlock {G : Set Entry} : Lowers G (newBlock : Lowering BlockId) fun block => {.block block}
  goTo {G : Set Entry} {block : BlockId} : .block block ∈ G →
    Lowers G (goTo block : Lowering Unit) fun _ => ∅
  link {G : Set Entry} {source target : BlockId} : .block source ∈ G → .block target ∈ G →
    Lowers G (change (·.link source target) : Lowering Unit) fun _ => ∅
  addGuard {G : Set Entry} {block : BlockId} {cond : OperandId} : .block block ∈ G →
    .operand cond ∈ G → Lowers G (change (·.addGuard block cond) : Lowering Unit) fun _ => ∅
  guardBlock {G : Set Entry} {block : BlockId} : .block block ∈ G →
    Lowers G (guardBlock block : Lowering Unit) fun _ => ∅
  under {α : Type} {G : Set Entry} {x : Lowering α} {out : α → Set Entry} {cond : OperandId} :
    .operand cond ∈ G → Lowers G x out → Lowers G (under cond x) out
  place {G : Set Entry} {kind : OpKind} (span : Span) : kind.Within G →
    kind.isListedCall = false → kind.sole? = none →
    Lowers G (emit kind span : Lowering OpId) fun _ => ∅
  result {G : Set Entry} {make : OperandId → OpKind} (span : Span) :
    (∀ r, (make r).Within ({.operand r} ∪ G)) → (∀ r, (make r).isListedCall = false) →
    (∀ r, (make r).sole? = none ∨ (make r).sole? = some r) →
    Lowers G (emitValue span make : Lowering OperandId) fun x => {.operand x}
  answer {G : Set Entry} {make : OperandId → OpKind} (span : Span) :
    (∀ r, (make r).Within ({.operand r} ∪ G)) → (∀ r, (make r).sole? = none) →
    Lowers G (emitCall span make : Lowering OperandId) fun x => {.operand x}
  condition {G : Set Entry} {make : OperandId → OpKind} (span : Span) :
    (∀ r, (make r).Within ({.operand r} ∪ G)) → (∀ r, (make r).isListedCall = false) →
    (∀ r, (make r).sole? = some r) → Lowers G (do
      let result ← newTemporary none
      let _ ← detached (make result) span
      return result : Lowering OperandId) fun x => {.operand x}
  join {G : Set Entry} {x : BlockId → Lowering (List OperandId)} (span : Span) :
    (∀ last, Lowers ({.block last} ∪ G) (x last) Entry.operands) → Lowers G (do
      let last ← Lower.newBlock
      let values ← x last
      let result ← newTemporary none
      let phi ← detached (.phi values result) span
      change (·.attachPhi last phi)
      return result) fun x => {.operand x}
  read {G : Set Entry} {id : OperandId} : .operand id ∈ G →
    Lowers G (readVariable id : Lowering OperandId) fun x => {.operand x}
  write {G : Set Entry} {id : OperandId} : .operand id ∈ G →
    Lowers G (writeVariable id : Lowering OperandId) fun x => {.operand x}
  settle {G : Set Entry} {value target result : OperandId} (whole : Bool) : .operand value ∈ G →
    .operand target ∈ G → .operand result ∈ G → Lowers G (do
      let resolved ← look (·.valueOf value)
      let kind ← look fun a => (a.operand resolved).kind
      if whole && kind.isConstantLike then
        change (·.setValue target resolved)
        return if kind.scalar?.isSome then resolved else result
      else return result : Lowering OperandId) fun x => {.operand x}
  addAssertion {G : Set Entry} {cond var : OperandId} (assertion : Assertion) : .operand cond ∈ G →
    .operand var ∈ G → Lowers G (addAssertion cond var assertion : Lowering Unit) fun _ => ∅
  copyAssertions {G : Set Entry} {source cond : OperandId} (edit : Assertion → Assertion) :
    .operand source ∈ G → .operand cond ∈ G →
    Lowers G (copyAssertions edit source cond : Lowering Unit) fun _ => ∅
  assertType {G : Set Entry} {left right result : OperandId} (negated : Bool) : .operand left ∈ G →
    .operand right ∈ G → .operand result ∈ G →
    Lowers G (assertType negated left right result : Lowering Unit) fun _ => ∅
  assertBranches {G : Set Entry} {cond : OperandId} {ifBlock elseBlock : BlockId} :
    .operand cond ∈ G → .block ifBlock ∈ G → .block elseBlock ∈ G →
    Lowers G (assertBranches cond ifBlock elseBlock : Lowering Unit) fun _ => ∅
  goto {G : Set Entry} (name : String) (span : Span) : Lowers G (goto name span) fun _ => ∅
  label {G : Set Entry} (name : String) (span : Span) :
    Lowers G (label name span : Lowering Unit) fun _ => ∅

variable {L : Logic} {α β : Type} {G G' : Set Entry} {out : α → Set Entry} {out' : β → Set Entry}

/-- What is said of steps that cannot fail. -/
def Logic.Builds (L : Logic) (G : Set Entry) (m : Build α) (out : α → Set Entry) : Prop :=
  L.Lowers G (m : Lowering α) out

/-! ## Putting steps together -/

namespace Logic.Lowers

variable {x : Lowering α}

theorem pure {y : α} (h : out y ⊆ G) : L.Lowers G (pure y : Lowering α) out := L.unit h

theorem bind {f : α → Lowering β} (hx : L.Lowers G x out)
    (hf : ∀ y, L.Lowers (out y ∪ G) (f y) out') : L.Lowers G (x >>= f) out' :=
  L.seq hx hf

theorem mono (h : L.Lowers G x out) (hG : G ⊆ G') : L.Lowers G' x out :=
  L.weaken h hG fun _ => subset_rfl

theorem get {f : Builder → Lowering β} (h : ∀ b : Builder, L.Lowers (b.held ∪ G) (f b) out') :
    L.Lowers G (get >>= f) out' :=
  L.seq L.builder h

theorem look {f : Arena → α} {g : α → Lowering β} (h : ∀ y, L.Lowers G (g y) out') :
    L.Lowers G (Lower.look f >>= g) out' :=
  have hlook : L.Lowers G (Lower.look f) fun _ => ∅ :=
    L.seq L.builder fun _ => L.unit (Set.empty_subset _)
  bind hlook fun y => (h y).mono Set.subset_union_right

theorem forM {f : α → Lowering Unit} {l : List α}
    (h : ∀ y ∈ l, L.Lowers G (f y) fun _ => ∅) : L.Lowers G (l.forM f) fun _ => ∅ := by
  induction l with
  | nil => exact .pure (Set.empty_subset _)
  | cons y l ih =>
    refine .bind (h y List.mem_cons_self) fun _ => ?_
    exact (ih fun z hz => h z (List.mem_cons_of_mem _ hz)).mono Set.subset_union_right

theorem mapM {f : α → Lowering OperandId} {l : List α}
    (h : ∀ y ∈ l, L.Lowers G (f y) fun x => {.operand x}) :
    L.Lowers G (l.mapM f) Entry.operands := by
  induction l with
  | nil => exact .pure (by simp)
  | cons y l ih =>
    rw [List.mapM_cons]
    refine .bind (h y List.mem_cons_self) fun x => .bind ((ih fun z hz =>
      h z (List.mem_cons_of_mem _ hz)).mono Set.subset_union_right) fun xs => .pure ?_
    simp +contextual

theorem optional {f : α → Lowering OperandId} {o : Option α}
    (h : ∀ y ∈ o, L.Lowers G (f y) fun x => {.operand x}) :
    L.Lowers G (o.mapM f) fun x => Entry.operands x.toList := by
  cases o with
  | none => exact .pure (by simp)
  | some y => exact .bind (h y rfl) fun x => .pure (by simp)

end Logic.Lowers

namespace Logic.Builds

variable {m : Build α}

theorem pure {y : α} (h : out y ⊆ G) : L.Builds G (pure y : Build α) out := L.unit h

theorem bind {f : α → Build β} (hm : L.Builds G m out)
    (hf : ∀ y, L.Builds (out y ∪ G) (f y) out') : L.Builds G (m >>= f) out' :=
  L.seq hm hf

theorem get {f : Builder → Build β} (h : ∀ b : Builder, L.Builds (b.held ∪ G) (f b) out') :
    L.Builds G (get >>= f) out' :=
  L.seq L.builder h

theorem look {f : Arena → α} {g : α → Build β} (h : ∀ y, L.Builds G (g y) out') :
    L.Builds G (Lower.look f >>= g) out' :=
  Lowers.look h

end Logic.Builds

/-! ## Basic steps -/

section

variable (L)

theorem Logic.newString (s : String) : L.Builds G (newString s) fun x => {.operand x} :=
  L.operand nofun rfl nofun

theorem Logic.newNumber (x : Float) : L.Builds G (newNumber x) fun x => {.operand x} :=
  L.operand nofun rfl nofun

theorem Logic.newResult : L.Builds G (newTemporary none) fun x => {.operand x} :=
  L.operand nofun rfl nofun

theorem Logic.newVariable (name : String) : L.Builds G (newVariable name) fun x => {.operand x} :=
  .bind (L.newString name) fun _ => L.operand (by simp [OperandKind.links]) rfl nofun

theorem Logic.goDead : L.Builds G goDead fun _ => ∅ :=
  .bind L.newBlock fun _ => .bind (L.mark (by simp) ⟨fun _ => rfl, fun _ => rfl, fun _ => rfl,
    fun _ => rfl⟩) fun _ => L.goTo (by simp)

theorem Logic.isDead (block : BlockId) : L.Builds G (isDead block) fun _ => ∅ :=
  .get fun _ => .pure (Set.empty_subset _)

/-- An operation is placed that nothing folds. -/
theorem Logic.value {make : OperandId → OpKind} (span : Span)
    (hkind : ∀ r, (make r).Within ({.operand r} ∪ G)) (hcall : ∀ r, (make r).isListedCall = false)
    (hmake : ∀ r, (make r).sole? = none) :
    L.Builds G (emitValue span make) fun x => {.operand x} :=
  L.result span hkind hcall fun r => .inl (hmake r)

theorem Logic.jump {target : BlockId} (ht : .block target ∈ G) (span : Span) :
    L.Builds G (jump target span) fun _ => ∅ :=
  .bind (L.place span (by simp [ht]) rfl rfl) fun _ => .get fun _ => L.link (by simp) (by simp [ht])

theorem Logic.jumpIf {cond : OperandId} {ifTarget elseTarget : BlockId} (hcond : .operand cond ∈ G)
    (hif : .block ifTarget ∈ G) (helse : .block elseTarget ∈ G) (span : Span) :
    L.Builds G (jumpIf cond ifTarget elseTarget span) fun _ => ∅ := by
  refine .bind (L.place span (by simp [hcond, hif, helse]) rfl rfl) fun _ => .get fun b => ?_
  have hlinks : L.Builds (b.held ∪ (∅ ∪ G)) (do
      change (·.modifyBlock b.block fun r => { r with guarded := true })
      change (·.link b.block ifTarget)
      change (·.link b.block elseTarget)) fun _ => ∅ :=
    .bind (L.mark (by simp) ⟨fun _ => rfl, fun _ => rfl, fun _ => rfl, fun _ => rfl⟩) fun _ =>
      .bind (L.link (by simp) (by simp [hif])) fun _ => L.link (by simp) (by simp [helse])
  exact hlinks

theorem Logic.negate {cond : OperandId} (hcond : .operand cond ∈ G) :
    L.Builds G (negate cond) fun x => {.operand x} :=
  L.condition .none (by simp [hcond]) (fun _ => rfl) fun _ => rfl

end

theorem Logic.Lowers.inBlock {x : Lowering α} {block : BlockId} (hblock : .block block ∈ G)
    (hx : L.Lowers G x out) : L.Lowers G (inBlock block x) out :=
  .get fun b => .bind (L.goTo (by simp [hblock])) fun _ =>
    .bind (hx.mono fun e he => by simp [he]) fun _ =>
      .bind (L.goTo (by simp)) fun _ => .pure (by simp)

/-- A condition is made for guards, and lowering goes on. -/
theorem Logic.Lowers.condition {make : OperandId → OpKind} (span : Span)
    (hkind : ∀ r, (make r).Within ({.operand r} ∪ G)) (hcall : ∀ r, (make r).isListedCall = false)
    (hmake : ∀ r, (make r).sole? = some r) {next : OperandId → Lowering β}
    (hnext : ∀ r, L.Lowers ({.operand r} ∪ G) (next r) out') : L.Lowers G (do
      let result ← newTemporary none
      let _ ← detached (make result) span
      next result) out' := by
  have hmade := bind (L.condition span hkind hcall hmake) hnext
  simpa only [bind_assoc, pure_bind] using hmade

/-- A step that lowers an expression by itself, with a known result. -/
def Logic.Makes (L : Logic) (x : Lowering OperandId) : Prop :=
  ∀ G, L.Lowers G x fun y => {.operand y}

/-- A step that lowers a statement by itself. -/
def Logic.Acts (L : Logic) (x : Lowering Unit) : Prop := ∀ G, L.Lowers G x fun _ => ∅

theorem Logic.Makes.current {x : Lowering OperandId} (hx : L.Makes x) : L.Makes (current x) :=
  fun G => .bind (hx G) fun _ => L.read (by simp)

/-- Several values are taken. -/
theorem Logic.currents {steps : List (Lowering OperandId)} (h : ∀ x ∈ steps, L.Makes x) :
    L.Lowers G (steps.mapM current) Entry.operands :=
  .mapM fun x hx => (h x hx).current G

/-- A value is taken if there is one. -/
theorem Logic.optional {step : Option (Lowering OperandId)} (h : ∀ x ∈ step, L.Makes x) :
    L.Lowers G (step.mapM current) fun x => Entry.operands x.toList :=
  .optional fun x hx => (h x hx).current G

/-! ## Literals, names and properties -/

section

variable (L)

theorem Logic.literal (value : Literal) : L.Builds G (literal value) fun x => {.operand x} := by
  cases value <;> exact L.operand nofun rfl nofun

theorem Logic.variableOperand (name : String) :
    L.Builds G (variableOperand name) fun x => {.operand x} := by
  refine .get fun b => ?_
  split
  · exact .bind (L.newString _) fun _ => .bind (L.operand nofun rfl nofun) fun _ =>
      L.operand (by simp [OperandKind.links]) rfl nofun
  · exact L.newVariable _

theorem Logic.constant (name : Name) (span : Span) :
    L.Builds G (constant name span) fun x => {.operand x} := by
  unfold Lower.constant
  split
  · exact L.operand nofun rfl nofun
  · exact L.operand nofun rfl nofun
  · exact L.operand nofun rfl nofun
  · refine .bind (L.newString _) fun _ => .bind (L.value span (by simp) (fun _ => rfl) fun _ => rfl)
      fun r => .get fun b => .pure ?_
    rintro _ rfl
    cases hfull : b.consts.get? name.joined with
    | some x => exact .inl (Builder.const_held hfull)
    | none =>
      cases hleaf : b.consts.get? name.leaf with
      | some x => exact .inl (Builder.const_held hleaf)
      | none => exact .inr (by simp)

theorem Logic.classConstant {cls : OperandId} (hcls : .operand cls ∈ G) (name : String)
    (span : Span) : L.Builds G (classConstant cls name span) fun x => {.operand x} := by
  refine .look fun _ => ?_
  split
  · exact L.newString _
  · rename_i text _ _ _
    refine .bind (L.newString _) fun _ => .bind (L.value span (by simp [hcls]) (fun _ => rfl)
      fun _ => rfl) fun r => .get fun b => .pure ?_
    rintro _ rfl
    cases hconst : text.bind fun c => b.consts.get? (c ++ "::" ++ name) with
    | some x =>
      obtain ⟨c, -, hx⟩ := Option.bind_eq_some_iff.1 hconst
      exact .inl (Builder.const_held hx)
    | none => exact .inr (by simp)

theorem Logic.fieldResult (key : Option String) :
    L.Builds G (fieldResult key) fun x => {.operand x} := by
  unfold Lower.fieldResult
  split
  · rename_i key
    have hmade : L.Builds G (do
        let name ← Lower.newString key
        newTemporary (some (← newOperand (.variable name none)))) fun x => {.operand x} :=
      .bind (L.newString key) fun _ => L.version (by simp [OperandKind.links]) rfl (by simp)
    exact hmade
  · exact L.newResult

theorem Logic.staticProperty {cls name : OperandId} (hcls : .operand cls ∈ G)
    (hname : .operand name ∈ G) (span : Span) :
    L.Builds G (staticProperty cls name span) fun x => {.operand x} :=
  .look fun _ => .look fun _ => .bind (L.fieldResult _) fun _ =>
    .bind (L.place span (by simp [hcls, hname]) rfl rfl) fun _ => .pure (by simp)

end

theorem Logic.Makes.property {object name : Lowering OperandId} (hobject : L.Makes object)
    (hname : L.Makes name) (span : Span) : L.Makes (property object name span) := fun G =>
  .bind (hobject G) fun raw => .look fun _ => .bind (L.read (by simp)) fun _ =>
    .bind (hname _) fun _ => .look fun _ => .bind (L.fieldResult _) fun _ =>
    .bind (L.place span (by simp) rfl rfl) fun _ => .pure (by simp)

theorem Logic.arrayItems {items : List (ArrayItem (Lowering OperandId))}
    (h : ∀ item ∈ items, (∀ x ∈ item.key, L.Makes x) ∧ ∀ x ∈ item.value, L.Makes x) :
    L.Lowers G (arrayItems items) fun made =>
      Entry.operands made.1 ∪ Entry.operands made.2.1 := by
  induction items generalizing G with
  | nil => exact .pure (by simp)
  | cons item rest ih =>
    obtain ⟨key, value, byRef, spread⟩ := item
    obtain ⟨hitem, hrest⟩ := List.forall_mem_cons.1 h
    cases value with
    | none => exact ih hrest
    | some value =>
      have hvalue := (hitem.2 value rfl).current
      cases key with
      | none =>
        exact .bind (L.operand nofun rfl nofun) fun _ => .bind (hvalue _) fun _ =>
          .bind (ih hrest) fun _ => .pure (by simp +contextual)
      | some key =>
        exact .bind ((hitem.1 key rfl).current _) fun _ => .bind (hvalue _) fun _ =>
          .bind (ih hrest) fun _ => .pure (by simp +contextual)

theorem Logic.Makes.array {items : List (ArrayItem (Lowering OperandId))}
    (h : ∀ item ∈ items, (∀ x ∈ item.key, L.Makes x) ∧ ∀ x ∈ item.value, L.Makes x)
    (span : Span) : L.Makes (array items span) := fun _ =>
  .bind (L.arrayItems h) fun _ => L.value span (by simp +contextual [or_imp]) (fun _ => rfl)
    fun _ => rfl

/-! ## Assignments -/

theorem Logic.Makes.assign (whole : Bool) {value target : Lowering OperandId} (hvalue : L.Makes value)
    (htarget : L.Makes target) (span : Span) : L.Makes (assign whole value target span) :=
  fun G => .bind (hvalue.current G) fun _ => .bind (htarget _) fun _ =>
    .bind (L.value span (by simp) (fun _ => rfl) fun _ => rfl) fun _ =>
    L.settle whole (by simp) (by simp) (by simp)

theorem Logic.Makes.assignOp (op : BinaryOp) {left right target : Lowering OperandId}
    (hleft : L.Makes left) (hright : L.Makes right) (htarget : L.Makes target) (span : Span) :
    L.Makes (assignOp op left right target span) := fun G =>
  .bind (hleft.current G) fun _ => .bind (hright.current _) fun _ =>
    .bind (L.result span (by simp) (fun _ => rfl) fun _ => .inr rfl) fun _ =>
    .bind (htarget _) fun _ =>
    .bind (L.value span (by simp) (fun _ => rfl) fun _ => rfl) fun _ => .pure (by simp)

theorem Logic.Makes.incDec (increment before : Bool) {value target : Lowering OperandId}
    (hvalue : L.Makes value) (htarget : L.Makes target) (span : Span) :
    L.Makes (incDec increment before value target span) := fun G =>
  .bind (hvalue.current G) fun _ => .bind (L.newNumber _) fun _ =>
    .bind (L.result span (by simp) (fun _ => rfl) fun _ => .inr rfl) fun _ =>
    .bind (htarget _) fun _ =>
    .bind (L.value span (by simp) (fun _ => rfl) fun _ => rfl) fun _ =>
    .pure (by cases before <;> simp)

theorem Logic.elementIndex (position : Nat) {key : Option (Lowering OperandId)}
    (h : ∀ x ∈ key, L.Makes x) :
    L.Lowers G (elementIndex position key) fun made => {.operand made.1} := by
  cases key with
  | none => exact .bind (L.newNumber _) fun _ => .pure (by simp)
  | some key => exact .bind ((h key rfl).current G) fun _ => .pure (by simp)

/-! ## Operators -/

theorem Logic.binary (op : BinaryOp) {left right : OperandId} (hleft : .operand left ∈ G)
    (hright : .operand right ∈ G) (span : Span) :
    L.Builds G (binary op left right span) fun x => {.operand x} := by
  refine .bind (L.result span (by simp [hleft, hright]) (fun _ => rfl) fun _ => .inr rfl)
    fun result => ?_
  have hassert (negated : Bool) : L.Builds ({.operand result} ∪ G) (do
      Lower.assertType negated left right result
      return result) fun x => {.operand x} :=
    .bind (L.assertType negated (by simp [hleft]) (by simp [hright]) (by simp)) fun _ =>
      .pure (by simp)
  cases op
  case equal => exact hassert false
  case identical => exact hassert false
  case notEqual => exact hassert true
  case notIdentical => exact hassert true
  case logicalAnd =>
    exact .bind (L.copyAssertions _ (by simp [hleft]) (by simp)) fun _ =>
      .bind (L.copyAssertions _ (by simp [hright]) (by simp)) fun _ => .pure (by simp)
  all_goals exact .pure (by simp)

theorem Logic.unary (op : UnaryOp) {arg : OperandId} (harg : .operand arg ∈ G) (span : Span) :
    L.Builds G (unary op arg span) fun x => {.operand x} := by
  refine .bind (L.result span (by simp [harg]) (fun _ => rfl) fun _ => .inr rfl) fun result => ?_
  split
  · exact .bind (L.copyAssertions _ (by simp [harg]) (by simp)) fun _ => .pure (by simp)
  · exact .pure (by simp)

theorem Logic.instanceOf {arg cls : OperandId} (harg : .operand arg ∈ G)
    (hcls : .operand cls ∈ G) (span : Span) :
    L.Builds G (instanceOf arg cls span) fun x => {.operand x} := by
  refine .bind (L.value span (by simp [harg, hcls]) (fun _ => rfl) fun _ => rfl) fun result =>
    .look fun _ => ?_
  split
  · exact .bind (L.addAssertion _ (by simp) (by simp [harg])) fun _ => .pure (by simp)
  · exact .pure (by simp)

/-! ## Calls -/

theorem Logic.settype {value type : OperandId} (hvalue : .operand value ∈ G)
    {target : Lowering OperandId} (htarget : L.Makes target) (span : Span) :
    L.Lowers G (settype value type target span) fun _ => ∅ := by
  refine .look fun _ => ?_
  split
  · exact .bind (L.result span (by simp [hvalue]) (fun _ => rfl) fun _ => .inr rfl) fun _ =>
      .bind (htarget _) fun _ =>
      .bind (L.value span (by simp) (fun _ => rfl) fun _ => rfl) fun _ => .pure (Set.empty_subset _)
  · exact .pure (Set.empty_subset _)

/-- A call is placed, and a predicate on types asserts the type. -/
theorem Logic.emitPredicate (callee : Option String) {name : OperandId} {args : List OperandId}
    (hname : .operand name ∈ G) (hargs : ∀ x ∈ args, .operand x ∈ G) (span : Span) :
    L.Lowers G (do
      let result ← emitCall span (.functionCall name args ·)
      match callee.bind predicateType?, args with
      | some type, subject :: _ =>
        if (← look (·.nameOf? subject)).isSome then
          Lower.addAssertion result subject (.type (← Lower.newString type) false)
      | _, _ => pure ()
      return result) fun x => {.operand x} := by
  refine .bind (L.answer span (by simp +contextual [or_imp, hname, hargs]) fun _ => rfl)
    fun result => ?_
  dsimp only
  split
  · rename_i subject _ type
    refine .look fun _ => ?_
    have hsubject := hargs subject List.mem_cons_self
    split
    · exact .bind (L.newString _) fun _ => .bind (L.addAssertion _ (by simp) (by simp [hsubject]))
        fun _ => .pure (by simp)
    · exact .pure (by simp)
  · exact .pure (by simp)

theorem Logic.Makes.call {args : List (Lowering OperandId)} {name target : Lowering OperandId}
    (hargs : ∀ x ∈ args, L.Makes x) (hname : L.Makes name) (htarget : L.Makes target)
    (span : Span) : L.Makes (call args name target span) := by
  refine fun G => .bind (L.currents hargs) fun args => .bind (hname _) fun name =>
    .look fun callee => ?_
  dsimp only
  split
  · exact .bind (L.settype (by simp) htarget span) fun _ =>
      L.emitPredicate _ (by simp) (by simp +contextual) span
  · refine .look fun _ => ?_
    split
    · exact .bind (L.define _ (by simp)) fun _ =>
        L.emitPredicate _ (by simp) (by simp +contextual) span
    · exact L.emitPredicate _ (by simp) (by simp +contextual) span
  · exact L.emitPredicate _ (by simp) (by simp +contextual) span

theorem Logic.new {cls : OperandId} {args : List OperandId} (hcls : .operand cls ∈ G)
    (hargs : ∀ x ∈ args, .operand x ∈ G) (span : Span) :
    L.Builds G (new cls args span) fun x => {.operand x} := by
  refine .look fun text => ?_
  have hrest (result : OperandId) : L.Builds ({.operand result} ∪ G) (do
      let _ ← emit (.new cls args result) span
      return result) fun x => {.operand x} :=
    .bind (L.place span (by simp +contextual [or_imp, hcls, hargs]) rfl rfl) fun _ => .pure (by simp)
  split
  · rename_i name
    have hmade : L.Builds G (do
        let result ← (do newTemporary (some (← newOperand (.object name))))
        let _ ← emit (.new cls args result) span
        return result) fun x => {.operand x} :=
      .bind (L.version (List.forall_mem_nil _) rfl (by simp)) hrest
    exact hmade
  · exact .bind L.newResult hrest

theorem Logic.Makes.includeFile (kind : IncludeKind) (text : Option String)
    {value : Lowering OperandId} (hvalue : L.Makes value) (span : Span) :
    L.Makes (includeFile kind text value span) := by
  refine fun G => .bind (hvalue.current G) fun _ => ?_
  split
  · exact .bind (L.aside fun _ => ⟨⟨rfl, rfl, rfl, rfl⟩, rfl, rfl, rfl, rfl⟩) fun _ =>
      L.value span (by simp) (fun _ => rfl) fun _ => rfl
  · exact L.value span (by simp) (fun _ => rfl) fun _ => rfl

end Lower

end QueryTaint
