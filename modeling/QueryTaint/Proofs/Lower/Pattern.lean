import QueryTaint.Proofs.Lower.ExitFree

/-!
# List patterns

A list pattern without keys is what its targets are and where they stand (`Layout`). Lowering takes
a value apart by such a pattern: for every target it fetches the element at the position of the
target, and assigns it or takes it apart in turn (`assignsAll_of_destructure`). Holes only count.
`AssignsAll` lists the operations that this puts into blocks. A foreach loop does it to the value of
its iterator, after what makes the loop and before its body (`assignsEach_of_foreach`).
-/

namespace QueryTaint

/-- Whether a form of expression is an array or a list. -/
def ExprKind.isArray : ExprKind → Bool
  | .array .. => true
  | _ => false

theorem ExprKind.exists_of_isArray {kind : ExprKind} (h : kind.isArray = true) :
    ∃ items short, kind = .array items short := by
  cases kind with
  | array items short => exact ⟨items, short, rfl⟩
  | _ => cases h

/-! ## Layouts -/

/-- A list pattern by its targets with their positions, where a target is a leaf or a pattern
again. -/
inductive Layout (α : Type) where
  | target (leaf : α)
  | list (span : Span) (targets : List (Nat × Layout α))

namespace Layout

variable {α β : Type}

mutual

/-- Two patterns have their targets at the same positions, and their leaves go together. -/
inductive Rel (R : α → β → Prop) : Layout α → Layout β → Prop
  | target {x y} (h : R x y) : Rel R (.target x) (.target y)
  | list {span targets targets'} (h : RelAll R targets targets') :
      Rel R (.list span targets) (.list span targets')

/-- The targets of two patterns are at the same positions, and their leaves go together. -/
inductive RelAll (R : α → β → Prop) : List (Nat × Layout α) → List (Nat × Layout β) → Prop
  | nil : RelAll R [] []
  | cons {position x y rest rest'} (h : Rel R x y) (hrest : RelAll R rest rest') :
      RelAll R ((position, x) :: rest) ((position, y) :: rest')

end

end Layout

namespace Lower

mutual

/-- The pattern that an expression is as the left side of an assignment. -/
def outline? : Expr → Option (Layout Expr)
  | .mk (.array items _) span => (outlines? 0 items).map (.list span)
  | e => some (.target e)

/-- The targets among the items of an array, from a position on. -/
def outlines? (position : Nat) : List (ArrayItem Expr) → Option (List (Nat × Layout Expr))
  | [] => some []
  | ⟨none, none, _, _⟩ :: rest => outlines? (position + 1) rest
  | ⟨none, some value, _, _⟩ :: rest => do
    let target ← outline? value
    let further ← outlines? (position + 1) rest
    return (position, target) :: further
  | ⟨some _, _, _, _⟩ :: _ => none

end

theorem outline?_of_isArray {kind : ExprKind} (hkind : kind.isArray = false) (span : Span) :
    outline? (.mk kind span) = some (.target (.mk kind span)) := by
  cases kind with
  | array => cases hkind
  | _ => rfl

/-- Items that end in a hole have the targets of the items before it. -/
theorem outlines?_append_hole (items : List (ArrayItem Expr)) (byRef unpack : Bool)
    (position : Nat) :
    outlines? position (items ++ [⟨none, none, byRef, unpack⟩]) = outlines? position items := by
  induction items generalizing position with
  | nil => rfl
  | cons item rest ih =>
    obtain ⟨key, value, _, _⟩ := item
    cases key with
    | some _ => rfl
    | none =>
      cases value with
      | none => exact ih (position + 1)
      | some value => simp only [List.cons_append, outlines?, ih (position + 1)]

/-! ## What is put into blocks -/

/-- An operation is put at the end of the current block. The record of the function may change. -/
def Puts (kind : OpKind) (span : Span) (b b' : Builder) : Prop :=
  ∃ f : Func → Func,
    b' = { b with arena := (placed b.arena b.block kind span).modifyFunc b.func f }

/-- An operation with a new temporary as its result is put at the end of the current block. -/
structure PutsValue (make : OperandId → OpKind) (span : Span) (b : Builder) (result : OperandId)
    (b' : Builder) : Prop where
  fresh : result = ⟨b.arena.operands.size⟩
  puts : Puts (make result) span
    { b with arena := (b.arena.newOperand (.temporary none)).2 } b'

/-- The access to the element at a position of a value is put at the end of the current block, with
the position as a new operand. -/
def Fetches (value : OperandId) (position : Nat) (span : Span) (b : Builder) (element : OperandId)
    (b' : Builder) : Prop :=
  PutsValue (.element value (some ⟨b.arena.operands.size⟩)) span
    { b with arena := (b.arena.newOperand (.scalar (.number (Binary64.ofInt position)))).2 }
    element b'

mutual

/-- The element at a position of a value is fetched, and it is assigned to a target, or the elements
of it are assigned in turn. -/
inductive AssignsAt : Span → OperandId → Nat → Layout Expr → Builder → Builder → Prop
  | target {span value position leaf b element b₁ dest b₂ result b₃}
      (hfetch : Fetches value position leaf.span b element b₁)
      (hdest : (target leaf).run.run b₁ = (.ok dest, b₂))
      (hassign : PutsValue (.assign dest element) span b₂ result b₃) :
      AssignsAt span value position (.target leaf) b b₃
  | list {span value position inner targets b element b₁ b₂}
      (hfetch : Fetches value position inner b element b₁)
      (hall : AssignsAll inner element targets b₁ b₂) :
      AssignsAt span value position (.list inner targets) b b₂

/-- The elements of a value are assigned to targets one after the other, and nothing else is
done. -/
inductive AssignsAll : Span → OperandId → List (Nat × Layout Expr) → Builder → Builder → Prop
  | nil {span value b} : AssignsAll span value [] b b
  | cons {span value position target rest b b₁ b₂}
      (hfirst : AssignsAt span value position target b b₁)
      (hrest : AssignsAll span value rest b₁ b₂) :
      AssignsAll span value ((position, target) :: rest) b b₂

end

variable {b b' : Builder} {value : OperandId} {position : Nat} {span : Span}

theorem putsValue_of_run {make : OperandId → OpKind} {result : OperandId}
    (h : (liftM (emitValue span make) : Lowering OperandId).run.run b = (.ok result, b')) :
    PutsValue make span b result b' := by
  cases h
  obtain ⟨-, f, -, hf⟩ := emit_places (make ⟨b.arena.operands.size⟩) span
    { b with arena := (b.arena.newOperand (.temporary none)).2 }
  exact ⟨rfl, f, hf⟩

/-- What an item without a key does first is to name its position. -/
theorem run_elementIndex_none {α : Type} {f : OperandId × Nat → Lowering α} {y : α}
    (h : (elementIndex position (option none) >>= f).run.run b = (.ok y, b')) :
    (f (⟨b.arena.operands.size⟩, position + 1)).run.run
      { b with arena := (b.arena.newOperand (.scalar (.number (Binary64.ofInt position)))).2 } =
        (.ok y, b') := h

section Items

variable {items : List (ArrayItem Expr)} {inner : Span} {byRef unpack : Bool}

/-- An item that is a pattern fetches the element at its position and takes it apart. -/
theorem fetches_of_pattern {pattern : List (ArrayItem Expr)} {short : Bool}
    (h : (destructure span value position
      (⟨none, some (.mk (.array pattern short) inner), byRef, unpack⟩ :: items)).run.run b =
        (.ok (), b')) :
    ∃ element b₁ b₂, Fetches value position inner b element b₁ ∧
      (destructure inner element 0 pattern).run.run b₁ = (.ok (), b₂) ∧
        (destructure span value (position + 1) items).run.run b₂ = (.ok (), b') := by
  rw [destructure] at h
  obtain ⟨element, b₁, hfetch, h⟩ := exists_of_run_bind (run_elementIndex_none h)
  obtain ⟨⟨⟩, b₂, hpattern, h⟩ := exists_of_run_bind h
  exact ⟨element, b₁, b₂, putsValue_of_run hfetch, hpattern, h⟩

/-- An item that is no pattern fetches the element at its position and is assigned it. -/
theorem assignsAt_of_leaf {kind : ExprKind} (hkind : kind.isArray = false)
    {target : Layout Expr} (htarget : outline? (.mk kind inner) = some target)
    (h : (destructure span value position
      (⟨none, some (.mk kind inner), byRef, unpack⟩ :: items)).run.run b = (.ok (), b')) :
    ∃ b₁, AssignsAt span value position target b b₁ ∧
      (destructure span value (position + 1) items).run.run b₁ = (.ok (), b') := by
  cases (outline?_of_isArray hkind inner).symm.trans htarget
  have hne (pattern short) : kind ≠ .array pattern short := by
    rintro rfl
    cases hkind
  rw [destructure_target hne] at h
  obtain ⟨element, b₁, hfetch, h⟩ := exists_of_run_bind (run_elementIndex_none h)
  obtain ⟨dest, b₂, hdest, h⟩ := exists_of_run_bind h
  obtain ⟨result, b₃, hassign, h⟩ := exists_of_run_bind h
  exact ⟨b₃, .target (putsValue_of_run hfetch) hdest (putsValue_of_run hassign), h⟩

end Items

/-- Taking a value apart by a pattern without keys assigns its elements to the targets of the
pattern, each at its position. -/
theorem assignsAll_of_destructure : ∀ (items : List (ArrayItem Expr)) {span : Span}
    {value : OperandId} {position : Nat} {targets : List (Nat × Layout Expr)} {b b' : Builder},
    outlines? position items = some targets →
      (destructure span value position items).run.run b = (.ok (), b') →
        AssignsAll span value targets b b'
  | [], _, _, _, _, _, _, h, hrun => by
    cases h
    cases hrun
    exact .nil
  | ⟨none, none, _, _⟩ :: rest, _, _, _, _, _, _, h, hrun => assignsAll_of_destructure rest h hrun
  | ⟨some _, _, _, _⟩ :: _, _, _, _, _, _, _, h, _ => by cases h
  | ⟨none, some (.mk kind inner), _, _⟩ :: rest, _, _, _, _, _, _, h, hrun => by
    simp only [outlines?, Option.bind_eq_bind, Option.bind_eq_some_iff] at h
    obtain ⟨target, htarget, further, hfurther, hall⟩ := h
    cases hall
    cases hkind : kind.isArray with
    | true =>
      obtain ⟨pattern, short, hkind⟩ := ExprKind.exists_of_isArray hkind
      rw [hkind] at htarget hrun
      obtain ⟨inside, hinside, hlist⟩ := Option.map_eq_some_iff.1 htarget
      rw [← hlist]
      obtain ⟨element, b₁, b₂, hfetch, hpattern, hrest⟩ := fetches_of_pattern hrun
      exact .cons (.list hfetch (assignsAll_of_destructure pattern hinside hpattern))
        (assignsAll_of_destructure rest hfurther hrest)
    | false =>
      obtain ⟨b₁, hfirst, hrest⟩ := assignsAt_of_leaf hkind htarget hrun
      exact .cons hfirst (assignsAll_of_destructure rest hfurther hrest)
termination_by items => sizeOf items
decreasing_by
  all_goals
    simp only [*, List.cons.sizeOf_spec, ArrayItem.mk.sizeOf_spec, Option.some.sizeOf_spec,
      Expr.mk.sizeOf_spec, ExprKind.array.sizeOf_spec]
    omega

/-- A step takes any value apart by the targets of a pattern. It does not fail if the pattern
contains no `break` and no `continue`. -/
structure TakesApart (pattern : Expr) (span : Span) (targets : List (Nat × Layout Expr))
    (step : OperandId → Lowering Unit) : Prop where
  assigns {value : OperandId} {b b' : Builder} (h : (step value).run.run b = (.ok (), b')) :
    AssignsAll span value targets b b'
  total (h : (Part.expr pattern).ExitFree) (value : OperandId) : Total (step value)

theorem takesApart_destructure {items : List (ArrayItem Expr)}
    {targets : List (Nat × Layout Expr)} (h : outlines? 0 items = some targets) (short : Bool)
    (inner span : Span) : TakesApart (.mk (.array items short) inner) span targets
      (destructure span · 0 items) where
  assigns := assignsAll_of_destructure items h
  total hfree value := (succeeds_of_exitFree hfree).pattern rfl span value 0

/-! ## Foreach loops -/

section Foreach

variable (subject : Lowering OperandId) (key : Option (Span × Lowering OperandId)) (byRef : Bool)
  (inner : Span) (step : OperandId → Lowering Unit) (body : Lowering Unit) (whole : Span)

/-- What a foreach loop does before it comes to the value of its iterator: the loop is made up to the
block of its body, and a key is assigned there. It gives the value that is gone through, the block of
the test and the one after the loop. -/
def enterForeach : Lowering (OperandId × BlockId × BlockId) := do
  let subject ← current subject
  let _ ← emit (.reset subject) whole
  let header ← newBlock
  let inside ← newBlock
  let last ← newBlock
  jump header whole
  goTo header
  let valid ← emitValue whole (.iterValid subject ·)
  jumpIf valid inside last whole
  goTo inside
  if let some (keySpan, target) := key then
    let key ← emitValue keySpan (.iterKey subject ·)
    let target ← target
    let _ ← emitValue keySpan (.assign target key ·)
  return (subject, header, last)

/-- What a foreach loop does after it has dealt with the value of its iterator. -/
def leaveForeach (subject : OperandId) (header last : BlockId) : Lowering Unit := do
  body
  let _ ← emit (.next subject) whole
  jump header whole
  goTo last

theorem foreach_eq : foreach subject key byRef inner step body whole = (do
    let (subject, header, last) ← enterForeach subject key whole
    step (← emitValue inner (.iterValue subject byRef ·))
    leaveForeach body whole subject header last) := by
  unfold foreach enterForeach leaveForeach
  cases key <;> simp only [bind_assoc, pure_bind]

/-- A foreach loop over a pattern is made: the value of the iterator is put into the block of the body,
its elements are assigned to the targets, and the body follows. -/
def AssignsEach (targets : List (Nat × Layout Expr)) (b b' : Builder) : Prop :=
  ∃ iterated header last b₁ element b₂ b₃,
    (enterForeach subject key whole).run.run b = (.ok (iterated, header, last), b₁) ∧
      PutsValue (.iterValue iterated byRef) inner b₁ element b₂ ∧
      AssignsAll inner element targets b₂ b₃ ∧
      (leaveForeach body whole iterated header last).run.run b₃ = (.ok (), b')

variable {subject key byRef inner step body whole}

/-- A foreach loop over a pattern takes the value of its iterator apart. -/
theorem assignsEach_of_foreach {pattern : Expr} {targets : List (Nat × Layout Expr)}
    (hstep : TakesApart pattern inner targets step)
    (h : (foreach subject key byRef inner step body whole).run.run b = (.ok (), b')) :
    AssignsEach subject key byRef inner body whole targets b b' := by
  rw [foreach_eq] at h
  obtain ⟨⟨iterated, header, last⟩, b₁, henter, h⟩ := exists_of_run_bind h
  obtain ⟨element, b₂, hvalue, h⟩ := exists_of_run_bind h
  obtain ⟨⟨⟩, b₃, happly, hleave⟩ := exists_of_run_bind h
  exact ⟨iterated, header, last, b₁, element, b₂, b₃, henter, putsValue_of_run hvalue,
    hstep.assigns happly, hleave⟩

end Foreach

end Lower

end QueryTaint
