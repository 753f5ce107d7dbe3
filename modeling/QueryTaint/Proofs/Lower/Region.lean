import QueryTaint.Lower.Tree
import QueryTaint.Proofs.Arena.DefUse

/-!
# The region of a body

Lowering a body fills its entry and makes further blocks and operands. `Base` is what there was
before, so that the blocks and operands of the body can be told from others, and `Grows` is what
every step of lowering keeps of what is there: operands and operations stay what they are, blocks
only get longer. The operands of a body are tidy (`Base.Tidy`): a version points to its variable and
a variable to its name, all of them made by the body, so that the name behind an operand can be read
off in two steps (`Base.Tidy.nameOf?_eq`) and never changes (`Base.Tidy.nameOf?_grows`).
-/

namespace QueryTaint

/-- The kind without the value that is known for it. -/
def OperandKind.bare : OperandKind → OperandKind
  | .variable name _ => .variable name none
  | .bound name _ byRef scope => .bound name none byRef scope
  | kind => kind

namespace Lower

/-- Where the lowering of a body starts: its entry, and how many blocks, operands and reads there
were before. -/
structure Base where
  entry : BlockId
  blocks : Nat
  operands : Nat
  reads : Nat

namespace Base

variable (F : Base)

/-- A block of the body: the entry, or one that was made later. -/
def Owns (block : BlockId) : Prop := block = F.entry ∨ F.blocks ≤ block.index

/-- A block of the body that is there. -/
def Holds (a : Arena) (block : BlockId) : Prop := F.Owns block ∧ block.index < a.blocks.size

/-- A block of the body that jumps may lead to. -/
def Target (a : Arena) (block : BlockId) : Prop :=
  F.blocks ≤ block.index ∧ block.index < a.blocks.size ∧ (a.block block).dead = false

/-- An operand of the body. -/
def Mine (a : Arena) (id : OperandId) : Prop :=
  F.operands ≤ id.index ∧ id.index < a.operands.size

/-- What an operand of a body may point to. -/
def Shaped (a : Arena) (id : OperandId) : OperandKind → Prop
  | .temporary (some owner) =>
    F.Mine a owner ∧ owner.index < id.index ∧
      ((∃ name value, (a.operand owner).kind = .variable name value) ∨
        ∃ cls, (a.operand owner).kind = .object cls)
  | .variable name value =>
    F.Mine a name ∧ name.index < id.index ∧ (∃ s, (a.operand name).kind = .string s) ∧
      ∀ v ∈ value, F.Mine a v
  | .bound name value _ _ =>
    F.Mine a name ∧ (a.operand name).kind = .string "this" ∧ ∀ v ∈ value, F.Mine a v
  | _ => True

/-- An operation on operands of the body. -/
def Applied (a : Arena) (op : OpId) : Prop :=
  op.index < a.ops.size ∧ ∀ sort, ∀ x ∈ (a.op op).kind.mentioned sort, F.Mine a x

/-- Something that may be asserted: it is about an operand of the body and names types by
constants. -/
def Assertable (a : Arena) (s : VarAssertion) : Prop :=
  F.Mine a s.var ∧ ∀ x ∈ s.assertion.operands, F.Mine a x ∧ ∃ c, (a.operand x).kind = .scalar c

/-- An operand of a body points to operands of the body, is written by operations on such, and what
is asserted where it is true is about such. -/
structure Tidy (a : Arena) (id : OperandId) : Prop where
  shaped : F.Shaped a id (a.operand id).kind
  defs : ∀ op ∈ (a.operand id).defs, F.Applied a op
  asserted : ∀ s ∈ (a.operand id).assertions, F.Assertable a s

end Base

/-! ## Growing -/

/-- What every step of lowering a body keeps. -/
structure Grows (a a' : Arena) : Prop where
  operands : a.operands.size ≤ a'.operands.size
  ops : a.ops.size ≤ a'.ops.size
  blocks : a.blocks.size ≤ a'.blocks.size
  bare : ∀ id : OperandId, id.index < a.operands.size →
    (a'.operand id).kind.bare = (a.operand id).kind.bare
  kind : ∀ op : OpId, op.index < a.ops.size → (a'.op op).kind = (a.op op).kind
  listed : ∀ block, (a.block block).ops <+: (a'.block block).ops
  preds : ∀ block, (a.block block).preds ⊆ (a'.block block).preds
  dead : ∀ block : BlockId, block.index < a.blocks.size →
    (a'.block block).dead = (a.block block).dead

namespace Grows

variable {a a' a'' : Arena}

theorem refl (a : Arena) : Grows a a where
  operands := Nat.le_refl _
  ops := Nat.le_refl _
  blocks := Nat.le_refl _
  bare _ _ := rfl
  kind _ _ := rfl
  listed _ := List.prefix_rfl
  preds _ := List.Subset.refl _
  dead _ _ := rfl

theorem trans (h : Grows a a') (h' : Grows a' a'') : Grows a a'' where
  operands := Nat.le_trans h.operands h'.operands
  ops := Nat.le_trans h.ops h'.ops
  blocks := Nat.le_trans h.blocks h'.blocks
  bare id hid := (h'.bare id (Nat.lt_of_lt_of_le hid h.operands)).trans (h.bare id hid)
  kind op hop := (h'.kind op (Nat.lt_of_lt_of_le hop h.ops)).trans (h.kind op hop)
  listed block := (h.listed block).trans (h'.listed block)
  preds block := List.Subset.trans (h.preds block) (h'.preds block)
  dead block hb := (h'.dead block (Nat.lt_of_lt_of_le hb h.blocks)).trans (h.dead block hb)

theorem scalar (h : Grows a a') {id : OperandId} (hid : id.index < a.operands.size)
    {c : Scalar Float} (hk : (a.operand id).kind = .scalar c) :
    (a'.operand id).kind = .scalar c := by
  have hbare := h.bare id hid
  rw [hk] at hbare
  generalize (a'.operand id).kind = k at hbare ⊢
  cases k <;> simp_all [OperandKind.bare]

theorem isVariable (h : Grows a a') {id name : OperandId} {value : Option OperandId}
    (hid : id.index < a.operands.size) (hk : (a.operand id).kind = .variable name value) :
    ∃ value', (a'.operand id).kind = .variable name value' := by
  have hbare := h.bare id hid
  rw [hk] at hbare
  generalize (a'.operand id).kind = k at hbare ⊢
  cases k <;> simp_all [OperandKind.bare]

end Grows

namespace Base

variable {F : Base} {a a' : Arena}

theorem Mine.grows {id : OperandId} (h : F.Mine a id) (hg : Grows a a') : F.Mine a' id :=
  ⟨h.1, Nat.lt_of_lt_of_le h.2 hg.operands⟩

theorem Holds.grows {block : BlockId} (h : F.Holds a block) (hg : Grows a a') : F.Holds a' block :=
  ⟨h.1, Nat.lt_of_lt_of_le h.2 hg.blocks⟩

theorem Target.grows {block : BlockId} (h : F.Target a block) (hg : Grows a a') :
    F.Target a' block :=
  ⟨h.1, Nat.lt_of_lt_of_le h.2.1 hg.blocks, (hg.dead block h.2.1).trans h.2.2⟩

theorem Target.holds {block : BlockId} (h : F.Target a block) : F.Holds a block :=
  ⟨.inr h.1, h.2.1⟩

theorem Shaped.grows {id : OperandId} {kind : OperandKind} (h : F.Shaped a id kind)
    (hg : Grows a a') : F.Shaped a' id kind := by
  match kind with
  | .temporary (some owner) =>
    obtain ⟨howner, hlt, hkind⟩ := h
    refine ⟨howner.grows hg, hlt, ?_⟩
    have hbare := hg.bare owner howner.2
    generalize (a'.operand owner).kind = k at hbare ⊢
    obtain ⟨name, value, ho⟩ | ⟨cls, ho⟩ := hkind <;> rw [ho] at hbare
    · cases k <;> simp [OperandKind.bare] at hbare
      exact .inl ⟨_, _, rfl⟩
    · cases k <;> simp [OperandKind.bare] at hbare
      exact .inr ⟨_, rfl⟩
  | .variable name value =>
    obtain ⟨hname, hlt, ⟨s, hs⟩, hvalue⟩ := h
    exact ⟨hname.grows hg, hlt, ⟨s, hg.scalar hname.2 hs⟩, fun v hv => (hvalue v hv).grows hg⟩
  | .bound name value _ _ =>
    obtain ⟨hname, hs, hvalue⟩ := h
    exact ⟨hname.grows hg, hg.scalar hname.2 hs, fun v hv => (hvalue v hv).grows hg⟩
  | .temporary none | .scalar _ | .object _ | .symbolic _ => trivial

theorem Applied.grows {op : OpId} (h : F.Applied a op) (hg : Grows a a') : F.Applied a' op := by
  refine ⟨Nat.lt_of_lt_of_le h.1 hg.ops, ?_⟩
  rw [hg.kind op h.1]
  exact fun sort x hx => (h.2 sort x hx).grows hg

theorem Assertable.grows {s : VarAssertion} (h : F.Assertable a s) (hg : Grows a a') :
    F.Assertable a' s := by
  refine ⟨h.1.grows hg, fun x hx => ?_⟩
  obtain ⟨hmine, c, hc⟩ := h.2 x hx
  exact ⟨hmine.grows hg, c, hg.scalar hmine.2 hc⟩

/-- An operand that does not change stays tidy. -/
theorem Tidy.grows {id : OperandId} (h : F.Tidy a id) (hg : Grows a a')
    (hkind : (a'.operand id).kind = (a.operand id).kind)
    (hdefs : (a'.operand id).defs = (a.operand id).defs)
    (hassertions : (a'.operand id).assertions = (a.operand id).assertions) : F.Tidy a' id := by
  refine ⟨?_, ?_, ?_⟩
  · rw [hkind]
    exact h.shaped.grows hg
  · rw [hdefs]
    exact fun op hop => (h.defs op hop).grows hg
  · rw [hassertions]
    exact fun s hs => (h.asserted s hs).grows hg

/-! ## Names -/

/-- The name behind an operand of a body, in two steps. -/
def shortName? (a : Arena) (id : OperandId) : Option String :=
  match (a.operand id).kind with
  | .variable name _ | .bound name .. => a.stringOf? name
  | .temporary (some owner) =>
    match (a.operand owner).kind with
    | .variable name _ => a.stringOf? name
    | _ => none
  | _ => none

theorem Tidy.nameOf?_eq {id : OperandId} (h : F.Tidy a id) : a.nameOf? id = shortName? a id := by
  have hshape := h.shaped
  unfold Arena.nameOf? Arena.maxChain shortName?
  rw [Arena.nameWithin?]
  cases hk : (a.operand id).kind with
  | temporary owner =>
    cases owner with
    | none => rfl
    | some owner =>
      rw [hk] at hshape
      dsimp only
      rw [Arena.nameWithin?]
      obtain ⟨-, -, ⟨name, value, ho⟩ | ⟨cls, ho⟩⟩ := hshape <;> rw [ho]
  | _ => rfl

theorem stringOf?_grows (hg : Grows a a') {id : OperandId} (hid : id.index < a.operands.size)
    {s : String} (hs : (a.operand id).kind = .string s) : a'.stringOf? id = a.stringOf? id := by
  rw [Arena.stringOf?, Arena.stringOf?, hg.scalar hid hs, hs]
  rfl

/-- The name behind an operand of a body never changes. -/
theorem Tidy.nameOf?_grows {id : OperandId} (h : F.Tidy a id) (h' : F.Tidy a' id)
    (hid : id.index < a.operands.size) (hg : Grows a a')
    (htidy : ∀ x, F.Mine a x → F.Tidy a x) : a'.nameOf? id = a.nameOf? id := by
  rw [h.nameOf?_eq, h'.nameOf?_eq]
  have hbare := hg.bare id hid
  have hshape := h.shaped
  unfold shortName?
  generalize (a'.operand id).kind = k' at hbare ⊢
  match hk : (a.operand id).kind with
  | .variable name value =>
    rw [hk] at hbare hshape
    cases k' <;> simp [OperandKind.bare] at hbare
    obtain ⟨hname, -, ⟨s, hs⟩, -⟩ := hshape
    subst hbare
    exact stringOf?_grows hg hname.2 hs
  | .bound name value byRef scope =>
    rw [hk] at hbare hshape
    cases k' <;> simp [OperandKind.bare] at hbare
    obtain ⟨hname, hs, -⟩ := hshape
    obtain ⟨rfl, -, -⟩ := hbare
    exact stringOf?_grows hg hname.2 hs
  | .temporary none =>
    rw [hk] at hbare
    cases k' <;> simp [OperandKind.bare] at hbare
    subst hbare
    rfl
  | .temporary (some owner) =>
    rw [hk] at hbare hshape
    cases k' <;> simp [OperandKind.bare] at hbare
    subst hbare
    obtain ⟨howner, -, ho⟩ := hshape
    have hbare' := hg.bare owner howner.2
    have hshape' := (htidy owner howner).shaped
    dsimp only
    generalize (a'.operand owner).kind = k at hbare' ⊢
    obtain ⟨name, value, ho⟩ | ⟨cls, ho⟩ := ho
    · rw [ho] at hbare' hshape' ⊢
      cases k <;> simp [OperandKind.bare] at hbare'
      obtain ⟨hname, -, ⟨s, hs⟩, -⟩ := hshape'
      subst hbare'
      exact stringOf?_grows hg hname.2 hs
    · rw [ho] at hbare' ⊢
      cases k <;> simp [OperandKind.bare] at hbare'
      rfl
  | .scalar _ | .object _ | .symbolic _ =>
    rw [hk] at hbare
    cases k' <;> simp [OperandKind.bare] at hbare
    rfl

end Base

end Lower

end QueryTaint
