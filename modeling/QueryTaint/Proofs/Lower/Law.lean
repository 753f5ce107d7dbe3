import QueryTaint.Lower.Tree
import QueryTaint.Proofs.Lower.Value

/-!
# Laws of lowering

A law is a property of steps that the basic steps have, and that every way of putting steps together
keeps (`Law`). This module goes from the basic steps to the forms of expressions and declarations
whose parts stay in one block or in blocks of their own.
-/

namespace QueryTaint

/-- The result of a φ, or of an operation that can be folded. No other operation writes it. -/
def OpKind.sole? : OpKind → Option OperandId
  | phi _ result | binary _ _ _ result | unary _ _ result | cast _ _ result
  | concatList _ result => some result
  | _ => none

namespace Lower

/-- A change of the builder beside the arena and the function that is lowered. -/
structure Aside (b b' : Builder) : Prop where
  arena : b'.arena = b.arena
  func : b'.func = b.func
  block : b'.block = b.block
  scope : b'.scope = b.scope

/-- A property of steps that is kept where steps are put together. -/
structure Law where
  Has {α : Type} (x : Lowering α) : Prop
  unit {α : Type} (y : α) : Has (pure y : Lowering α)
  seq {α β : Type} {x : Lowering α} {f : α → Lowering β} :
    Has x → (∀ y, Has (f y)) → Has (x >>= f)
  builder : Has (get : Lowering Builder)
  fail {α : Type} (e : Error) : Has (throw e : Lowering α)
  aside {f : Builder → Builder} : (∀ b, Aside b (f b)) → Has (modify f : Lowering Unit)
  operand (kind : OperandKind) : Has (newOperand kind : Lowering OperandId)
  touch (id : OperandId) {f : Operand → Operand} : (∀ o, (f o).kind.bare = o.kind.bare) →
    Has (change (·.modifyOperand id f) : Lowering Unit)
  noteFunc : Has (changeFunc fun f => { f with readsInput := true } : Lowering Unit)
  noteBlock (block : BlockId) :
    Has (change (·.modifyBlock block fun b => { b with readsInput := true }) : Lowering Unit)
  place {kind : OpKind} (span : Span) : kind.isTerminator = false → kind.sole? = none →
    Has (emit kind span : Lowering OpId)
  result {make : OperandId → OpKind} (span : Span) : (∀ r, (make r).isTerminator = false) →
    (∀ r, (make r).sole? = none ∨ (make r).sole? = some r) →
    Has (emitValue span make : Lowering OperandId)
  answer {make : OperandId → OpKind} (span : Span) : (∀ r, (make r).isTerminator = false) →
    (∀ r, (make r).sole? = none) → Has (emitCall span make : Lowering OperandId)
  leave {kind : OpKind} (span : Span) : kind.successors = [] → kind.sole? = none →
    Has (do let _ ← emit kind span; goDead : Lowering Unit)
  version (id : OperandId) : Has (readVariable id : Lowering OperandId)
  newVersion (id : OperandId) : Has (writeVariable id : Lowering OperandId)
  enclose {α β : Type} {x : Lowering α} {next : BlockId → α → Lowering β} : Has x →
    (∀ block y, Has (next block y)) → Has (do
      let block ← newBlock
      let y ← inBlock block x
      next block y)
  ternary {cond : Lowering OperandId} {ifTrue : Option (Lowering OperandId)}
    {ifFalse : Lowering OperandId} (span : Span) : Has cond → (∀ x ∈ ifTrue, Has x) →
    Has ifFalse → Has (ternary cond ifTrue ifFalse span)
  ifElse {cond : Lowering OperandId} {body : Lowering Unit}
    {further : List (ElseIf (Lowering OperandId) (Lowering Unit))}
    {otherwise : Option (Lowering Unit)} (span : Span) : Has cond → Has body →
    (∀ e ∈ further, Has e.cond ∧ ∀ x ∈ e.body, Has x) → (∀ x ∈ otherwise, Has x) →
    Has (ifElse cond body further otherwise span)
  loop {cond : Lowering OperandId} {body : Lowering Unit} (span : Span) : Has cond → Has body →
    Has (loop cond body span)
  doWhile {body : Lowering Unit} {cond : Lowering OperandId} (span : Span) : Has body → Has cond →
    Has (doWhile body cond span)
  foreach {subject : Lowering OperandId} {key : Option (Span × Lowering OperandId)}
    {value : OperandId → Lowering Unit} {body : Lowering Unit} (byRef : Bool)
    (valueSpan span : Span) : Has subject → (∀ k ∈ key, Has k.2) →
    (∀ element, Has (value element)) → Has body →
    Has (foreach subject key byRef valueSpan value body span)
  switch {subject : Lowering OperandId} {choices : List (Case Expr Stmt)} (span : Span) :
    Has subject → (∀ c ∈ cases choices, (∀ x ∈ c.cond, Has x) ∧ ∀ x ∈ c.body, Has x) →
    Has (switch subject (isJumpTable choices) (cases choices) span)
  goto (name : String) (span : Span) : Has (goto name span)
  label (name : String) (span : Span) : Has (label name span : Lowering Unit)
  tryCatch {body : Lowering Unit} {catches : List (Catch (Lowering Unit))}
    {finish : Option (Lowering Unit)} : Has body → (∀ c ∈ catches, ∀ x ∈ c.body, Has x) →
    (∀ x ∈ finish, Has x) → Has (tryCatch body catches finish)
  function {params : List (Param (Lowering OperandId))} {steps : List (Lowering Unit)}
    (name : String) (byRef : Bool) (returnType : Option TypeHint) (span : Span) :
    (∀ p ∈ params, ∀ x ∈ p.default, Has x) → (∀ x ∈ steps, Has x) →
    Has (function name params byRef returnType steps span)
  method {params : List (Param (Lowering OperandId))} {steps : List (Lowering Unit)}
    (name : String) (modifiers : Nat) (byRef : Bool) (returnType : Option TypeHint) (span : Span) :
    (∀ p ∈ params, ∀ x ∈ p.default, Has x) → (∀ x ∈ steps, Has x) →
    Has (method name modifiers params byRef returnType steps span)
  closure {params : List (Param (Lowering OperandId))} {steps : List (Lowering Unit)}
    (uses : List Capture) (byRef isStatic : Bool) (returnType : Option TypeHint) (span : Span) :
    (∀ p ∈ params, ∀ x ∈ p.default, Has x) → (∀ x ∈ steps, Has x) →
    Has (closure params uses byRef isStatic returnType steps span)
  staticVar {v : Declared (Lowering OperandId)} : (∀ x ∈ v.default, Has x) → Has (staticVar v)

variable {L : Law} {α β : Type}

/-- The law for steps that cannot fail. -/
def Law.Builds (L : Law) (m : Build α) : Prop := L.Has (m : Lowering α)

/-! ## Putting steps together -/

namespace Law.Has

variable {x : Lowering α}

theorem pure (y : α) : L.Has (pure y : Lowering α) := L.unit y

theorem bind {f : α → Lowering β} (hx : L.Has x) (hf : ∀ y, L.Has (f y)) : L.Has (x >>= f) :=
  L.seq hx hf

theorem get {f : Builder → Lowering β} (h : ∀ b, L.Has (f b)) : L.Has (get >>= f) :=
  L.seq L.builder h

theorem look {f : Arena → α} {g : α → Lowering β} (h : ∀ y, L.Has (g y)) :
    L.Has (Lower.look f >>= g) :=
  bind (x := Lower.look f) (L.seq L.builder fun _ => L.unit _) h

theorem forM {f : α → Lowering Unit} {l : List α} (h : ∀ x ∈ l, L.Has (f x)) :
    L.Has (l.forM f) := by
  induction l with
  | nil => exact .pure ()
  | cons x l ih =>
    exact .bind (h x List.mem_cons_self) fun _ => ih fun y hy => h y (List.mem_cons_of_mem _ hy)

theorem mapM {f : α → Lowering β} {l : List α} (h : ∀ x ∈ l, L.Has (f x)) :
    L.Has (l.mapM f) := by
  induction l with
  | nil => exact .pure []
  | cons x l ih =>
    rw [List.mapM_cons]
    exact .bind (h x List.mem_cons_self) fun _ =>
      .bind (ih fun y hy => h y (List.mem_cons_of_mem _ hy)) fun _ => .pure _

end Law.Has

namespace Law.Builds

variable {m : Build α}

theorem pure (y : α) : L.Builds (pure y : Build α) := L.unit y

theorem bind {f : α → Build β} (hm : L.Builds m) (hf : ∀ y, L.Builds (f y)) : L.Builds (m >>= f) :=
  L.seq hm hf

theorem get {f : Builder → Build β} (h : ∀ b, L.Builds (f b)) : L.Builds (get >>= f) :=
  L.seq L.builder h

theorem look {f : Arena → α} {g : α → Build β} (h : ∀ y, L.Builds (g y)) :
    L.Builds (Lower.look f >>= g) :=
  bind (m := Lower.look f) (L.seq L.builder fun _ => L.unit _) h

theorem forM {f : α → Build Unit} {l : List α} (h : ∀ x ∈ l, L.Builds (f x)) :
    L.Builds (l.forM f) := by
  induction l with
  | nil => exact .pure ()
  | cons x l ih =>
    exact .bind (h x List.mem_cons_self) fun _ => ih fun y hy => h y (List.mem_cons_of_mem _ hy)

end Law.Builds

/-! ## Operands and operations -/

theorem Law.newString (L : Law) (s : String) : L.Builds (newString s) := L.operand _

theorem Law.newNumber (L : Law) (x : Float) : L.Builds (newNumber x) := L.operand _

theorem Law.newTemporary (L : Law) (owner : Option OperandId) : L.Builds (newTemporary owner) :=
  L.operand _

theorem Law.newVariable (L : Law) (name : String) : L.Builds (newVariable name) :=
  .bind (L.newString name) fun _ => L.operand _

/-- An operation is placed that nothing folds. -/
theorem Law.value (L : Law) {make : OperandId → OpKind} (span : Span)
    (hgoes : ∀ r, (make r).isTerminator = false) (hmake : ∀ r, (make r).sole? = none) :
    L.Builds (emitValue span make) := L.result span hgoes fun r => .inl (hmake r)

/-! ## Literals, names and properties -/

section

variable (L)

theorem Law.literal (value : Literal) : L.Builds (literal value) := by
  cases value <;> exact L.operand _

theorem Law.variableOperand (name : String) : L.Builds (variableOperand name) := by
  refine .get fun b => ?_
  split
  · exact .bind (L.newString _) fun _ => .bind (L.operand _) fun _ => L.operand _
  · exact L.newVariable _

theorem Law.constant (name : Name) (span : Span) : L.Builds (constant name span) := by
  unfold Lower.constant
  split
  · exact L.operand _
  · exact L.operand _
  · exact L.operand _
  · exact .bind (L.newString _) fun _ => .bind (L.value span (fun _ => rfl) fun _ => rfl)
      fun _ => .get fun _ => .pure _

theorem Law.classConstant (cls : OperandId) (name : String) (span : Span) :
    L.Builds (classConstant cls name span) := by
  refine .look fun _ => ?_
  split
  · exact L.newString _
  · exact .bind (L.newString _) fun _ => .bind (L.value span (fun _ => rfl) fun _ => rfl)
      fun _ => .get fun _ => .pure _

theorem Law.fieldResult (key : Option String) : L.Builds (fieldResult key) := by
  unfold Lower.fieldResult
  split
  · exact .bind (L.newVariable _) fun _ => L.newTemporary _
  · exact L.newTemporary _

theorem Law.staticProperty (cls name : OperandId) (span : Span) :
    L.Builds (staticProperty cls name span) :=
  .look fun _ => .look fun _ => .bind (L.fieldResult _) fun _ =>
    .bind (L.place span rfl rfl) fun _ => .pure _

end

theorem Law.Has.property {object name : Lowering OperandId} (hobject : L.Has object)
    (hname : L.Has name) (span : Span) : L.Has (property object name span) :=
  .bind hobject fun raw => .look fun _ => .bind (L.version raw) fun _ => .bind hname fun _ =>
    .look fun _ => .bind (L.fieldResult _) fun _ => .bind (L.place span rfl rfl) fun _ => .pure _

/-! ## Values of parts -/

theorem Law.Has.current {x : Lowering OperandId} (hx : L.Has x) : L.Has (current x) :=
  .bind hx fun id => L.version id

/-- Several values are taken. -/
theorem Law.Has.currents {steps : List (Lowering OperandId)} (h : ∀ x ∈ steps, L.Has x) :
    L.Has (steps.mapM Lower.current) :=
  .mapM fun x hx => (h x hx).current

/-- A value is taken if there is one. -/
theorem Law.Has.optional {step : Option (Lowering OperandId)} (h : ∀ x ∈ step, L.Has x) :
    L.Has (step.mapM Lower.current) := by
  cases step with
  | none => exact .pure _
  | some x => exact .bind (h x rfl).current fun _ => .pure _

theorem Law.Has.inOrder {steps : List (Lowering Unit)} (h : ∀ x ∈ steps, L.Has x) :
    L.Has (inOrder steps) :=
  .forM h

theorem Law.Has.arrayItems {items : List (ArrayItem (Lowering OperandId))}
    (h : ∀ item ∈ items, (∀ x ∈ item.key, L.Has x) ∧ ∀ x ∈ item.value, L.Has x) :
    L.Has (arrayItems items) := by
  induction items with
  | nil => exact .pure _
  | cons item rest ih =>
    obtain ⟨key, value, byRef, unpack⟩ := item
    obtain ⟨hitem, hrest⟩ := List.forall_mem_cons.1 h
    have ih := ih hrest
    cases value with
    | none => exact ih
    | some value =>
      have hvalue := hitem.2 value rfl
      cases key with
      | none =>
        exact .bind (L.operand _) fun _ => .bind hvalue.current fun _ => .bind ih fun _ => .pure _
      | some key =>
        exact .bind (hitem.1 key rfl).current fun _ => .bind hvalue.current fun _ =>
          .bind ih fun _ => .pure _

theorem Law.Has.array {items : List (ArrayItem (Lowering OperandId))}
    (h : ∀ item ∈ items, (∀ x ∈ item.key, L.Has x) ∧ ∀ x ∈ item.value, L.Has x) (span : Span) :
    L.Has (array items span) :=
  .bind (arrayItems h) fun _ => L.value span (fun _ => rfl) fun _ => rfl

/-! ## Assignments -/

theorem Law.setValue (L : Law) (var value : OperandId) :
    L.Builds (change (·.setValue var value)) := by
  choose slot hslot using fun a : Arena => setValue_eq a var value
  have htouch : L.Builds (do
      let b ← get
      change (·.modifyOperand (slot b.arena) (knowing value))) :=
    .get fun b => L.touch _ fun o => (knowing_keeps value o).1
  simp only [hslot]
  exact htouch

theorem Law.Has.assign (whole : Bool) {value target : Lowering OperandId} (hvalue : L.Has value)
    (htarget : L.Has target) (span : Span) : L.Has (assign whole value target span) := by
  refine .bind hvalue.current fun _ => .bind htarget fun _ =>
    .bind (L.value span (fun _ => rfl) fun _ => rfl) fun _ => .look fun _ => .look fun _ => ?_
  split
  · exact .bind (L.setValue _ _) fun _ => .pure _
  · exact .pure _

theorem Law.Has.assignOp (op : BinaryOp) {left right target : Lowering OperandId}
    (hleft : L.Has left) (hright : L.Has right) (htarget : L.Has target) (span : Span) :
    L.Has (assignOp op left right target span) :=
  .bind hleft.current fun _ => .bind hright.current fun _ =>
    .bind (L.result span (fun _ => rfl) fun _ => .inr rfl) fun _ => .bind htarget fun _ =>
    .bind (L.value span (fun _ => rfl) fun _ => rfl) fun _ => .pure _

theorem Law.Has.incDec (increment before : Bool) {value target : Lowering OperandId}
    (hvalue : L.Has value) (htarget : L.Has target) (span : Span) :
    L.Has (incDec increment before value target span) :=
  .bind hvalue.current fun _ => .bind (L.newNumber _) fun _ =>
    .bind (L.result span (fun _ => rfl) fun _ => .inr rfl) fun _ => .bind htarget fun _ =>
    .bind (L.value span (fun _ => rfl) fun _ => rfl) fun _ => .pure _

theorem Law.Has.elementIndex (position : Nat) {key : Option (Lowering OperandId)}
    (h : ∀ x ∈ key, L.Has x) : L.Has (elementIndex position key) := by
  cases key with
  | none => exact .bind (L.newNumber _) fun _ => .pure _
  | some key => exact .bind (h key rfl).current fun _ => .pure _

/-! ## Operators -/

section

variable (L)

theorem Law.addAssertion (cond var : OperandId) (assertion : Assertion) :
    L.Builds (addAssertion cond var assertion) := L.touch cond fun _ => rfl

theorem Law.copyAssertions (edit : Assertion → Assertion) (source cond : OperandId) :
    L.Builds (copyAssertions edit source cond) :=
  .look fun _ => .forM fun _ _ => L.addAssertion _ _ _

theorem Law.assertType (negated : Bool) (left right result : OperandId) :
    L.Builds (assertType negated left right result) := by
  refine .look fun _ => ?_
  split
  · exact .bind (L.newString _) fun _ => L.addAssertion _ _ _
  · exact .pure _

theorem Law.binary (op : BinaryOp) (left right : OperandId) (span : Span) :
    L.Builds (binary op left right span) := by
  refine .bind (L.result span (fun _ => rfl) fun _ => .inr rfl) fun result => ?_
  cases op
  case equal => exact .bind (L.assertType _ _ _ _) fun _ => .pure _
  case identical => exact .bind (L.assertType _ _ _ _) fun _ => .pure _
  case notEqual => exact .bind (L.assertType _ _ _ _) fun _ => .pure _
  case notIdentical => exact .bind (L.assertType _ _ _ _) fun _ => .pure _
  case logicalAnd =>
    exact .bind (L.copyAssertions _ _ _) fun _ => .bind (L.copyAssertions _ _ _) fun _ => .pure _
  all_goals exact .pure _

theorem Law.unary (op : UnaryOp) (arg : OperandId) (span : Span) : L.Builds (unary op arg span) := by
  refine .bind (L.result span (fun _ => rfl) fun _ => .inr rfl) fun result => ?_
  split
  · exact .bind (L.copyAssertions _ _ _) fun _ => .pure _
  · exact .pure _

theorem Law.instanceOf (arg cls : OperandId) (span : Span) : L.Builds (instanceOf arg cls span) := by
  refine .bind (L.value span (fun _ => rfl) fun _ => rfl) fun result => .look fun _ => ?_
  split
  · exact .bind (L.addAssertion _ _ _) fun _ => .pure _
  · exact .pure _

end

/-! ## Calls -/

theorem Law.Has.settype (value type : OperandId) {target : Lowering OperandId}
    (htarget : L.Has target) (span : Span) : L.Has (settype value type target span) := by
  refine .look fun _ => ?_
  split
  · exact .bind (L.result span (fun _ => rfl) fun _ => .inr rfl) fun _ => .bind htarget fun _ =>
      .bind (L.value span (fun _ => rfl) fun _ => rfl) fun _ => .pure _
  · exact .pure _

theorem Law.define (L : Law) (name : String) (value : OperandId) : L.Builds (define name value) := by
  refine L.aside fun b => ?_
  split <;> exact ⟨rfl, rfl, rfl, rfl⟩

/-- A call is placed, and a predicate on types asserts the type. -/
theorem Law.emitPredicate (L : Law) (callee : Option String) (name : OperandId)
    (args : List OperandId) (span : Span) : L.Has (do
      let result ← emitCall span (.functionCall name args ·)
      match callee.bind predicateType?, args with
      | some type, subject :: _ =>
        if (← look (·.nameOf? subject)).isSome then
          Lower.addAssertion result subject (.type (← Lower.newString type) false)
      | _, _ => pure ()
      return result) := by
  refine .bind (L.answer span (fun _ => rfl) fun _ => rfl) fun result => ?_
  dsimp only
  split
  · refine .look fun _ => ?_
    split
    · exact .bind (L.newString _) fun _ => .bind (L.addAssertion _ _ _) fun _ => .pure _
    · exact .pure _
  · exact .pure _

theorem Law.Has.call {args : List (Lowering OperandId)} {name target : Lowering OperandId}
    (hargs : ∀ x ∈ args, L.Has x) (hname : L.Has name) (htarget : L.Has target) (span : Span) :
    L.Has (call args name target span) := by
  refine .bind (currents hargs) fun args => .bind hname fun name => .look fun callee => ?_
  dsimp only
  split
  · exact .bind (settype _ _ htarget span) fun _ => L.emitPredicate _ name _ span
  · refine .look fun _ => ?_
    split
    · exact .bind (L.define _ _) fun _ => L.emitPredicate _ name _ span
    · exact L.emitPredicate _ name _ span
  · exact L.emitPredicate _ name _ span

theorem Law.new (L : Law) (cls : OperandId) (args : List OperandId) (span : Span) :
    L.Builds (new cls args span) := by
  refine .look fun _ => ?_
  have hrest (result : OperandId) : L.Builds (do
      let _ ← emit (.new cls args result) span
      return result) :=
    .bind (L.place span rfl rfl) fun _ => .pure _
  split
  · exact .bind (L.operand _) fun _ => .bind (L.newTemporary _) hrest
  · exact .bind (L.newTemporary _) hrest

theorem Law.Has.includeFile (kind : IncludeKind) (text : Option String) {value : Lowering OperandId}
    (hvalue : L.Has value) (span : Span) : L.Has (includeFile kind text value span) := by
  have hvalued (value : OperandId) : L.Builds (emitValue span (.includeFile kind value ·)) :=
    L.value span (fun _ => rfl) fun _ => rfl
  refine .bind hvalue.current fun _ => ?_
  split
  · exact .bind (L.aside fun _ => ⟨rfl, rfl, rfl, rfl⟩) fun _ => hvalued _
  · exact hvalued _

/-! ## Declarations -/

theorem Law.Has.apart {value : Lowering OperandId} (h : L.Has value) : L.Has (apart value) :=
  L.enclose h fun _ _ => .pure _

theorem Law.Has.defaultApart {value : Option (Lowering OperandId)} (h : ∀ x ∈ value, L.Has x) :
    L.Has (defaultApart value) := by
  cases value with
  | none => exact .pure _
  | some value => exact .bind (h value rfl).apart fun _ => .pure _

theorem Law.newStrings (L : Law) (text : α → String) (l : List α) :
    L.Has (l.mapM fun x => (Lower.newString (text x) : Lowering OperandId)) :=
  .mapM fun _ _ => L.newString _

/-- The class around what is lowered changes. -/
theorem Law.changeClass (L : Law) (cls : Option String) :
    L.Has (modify fun b => { b with cls } : Lowering Unit) :=
  L.aside fun _ => ⟨rfl, rfl, rfl, rfl⟩

theorem Law.Has.classDecl {steps : List (Lowering Unit)} (kind : ClassKind) (name : String)
    (modifiers : Nat) (parent : Option Name) (implements : List Name)
    (hsteps : ∀ x ∈ steps, L.Has x) (span : Span) :
    L.Has (classDecl kind name modifiers parent implements steps span) := by
  refine .get fun b => L.enclose (.bind (L.changeClass _) fun _ =>
    .bind (inOrder hsteps) fun _ => L.changeClass _) fun block _ => ?_
  have hrest (name : OperandId) (parent : Option OperandId) : L.Has (do
      let implements ← implements.mapM fun i => (Lower.newString i.joined : Lowering OperandId)
      let _ ← emit (.classDecl kind name block modifiers parent implements) span) :=
    .bind (L.newStrings Name.joined implements) fun _ => .bind (L.place span rfl rfl) fun _ => .pure _
  refine .bind (L.newString name) fun name => ?_
  split
  · exact .bind (L.newString _) fun _ => .bind (.pure _) (hrest name)
  · exact .bind (.pure _) (hrest name)

theorem Law.Has.propertyDecl (modifiers : Nat) (type : DeclaredType)
    {p : Declared (Lowering OperandId)} (hp : ∀ x ∈ p.default, L.Has x) :
    L.Has (propertyDecl modifiers type p) := by
  refine .bind (defaultApart hp) fun made => ?_
  obtain ⟨default, block⟩ := made
  have hrest : L.Has (do
      let name ← Lower.newString p.name
      let _ ← emit (.propertyDecl name modifiers type default block) p.span : Lowering Unit) :=
    .bind (L.newString _) fun _ => .bind (L.place p.span rfl rfl) fun _ => .pure _
  dsimp only
  split
  · refine .look fun tainted => ?_
    split
    · exact .bind L.noteFunc fun _ => .bind (L.noteBlock _) fun _ => hrest
    · exact hrest
  · exact hrest

theorem Law.Has.constDecl (inClass : Bool) {c : ConstDecl (Lowering OperandId)}
    (hc : L.Has c.value) : L.Has (constDecl inClass c) :=
  .bind hc.apart fun _ => .get fun _ => .bind (L.newString _) fun _ =>
    .bind (L.place c.span rfl rfl) fun _ => L.define _ _

theorem Law.Has.unset {vars : List (Bool × Lowering OperandId)} (h : ∀ v ∈ vars, L.Has v.2) :
    L.Has (unset vars) := by
  induction vars with
  | nil => exact .pure _
  | cons first rest ih =>
    obtain ⟨named, step⟩ := first
    obtain ⟨hstep, hrest⟩ := List.forall_mem_cons.1 h
    refine .bind hstep fun raw => .bind (L.version raw) fun read => ?_
    dsimp only
    split
    · exact .bind (L.newVersion raw) fun _ => .bind (ih hrest) fun _ => .pure _
    · exact .bind (L.newTemporary none) fun _ => .bind (ih hrest) fun _ => .pure _

end Lower

end QueryTaint

/-!
## Laws hold of lowering syntax trees

By one induction over expressions and statements, lowering any syntax tree has every law that steps
keep where they are put together (`has_expr`, `has_stmt`).
-/

namespace QueryTaint.Lower

variable {L : Law}

/-! ### Expressions -/

theorem has_binaryStep (op : BinaryOp) {left right : Lowering OperandId} (hleft : L.Has left)
    (hright : L.Has right) (span : Span) :
    L.Has (do
      let left ← left
      let right ← current right
      readVariable (← binary op left right span)) :=
  .bind hleft fun left => .bind hright.current fun right =>
    .bind (L.binary op left right span) fun result => L.version result

theorem has_write {x : Lowering OperandId} (hx : L.Has x) :
    L.Has (do writeVariable (← x)) :=
  .bind hx fun id => L.newVersion id

theorem has_exit (arg : Option OperandId) (span : Span) :
    L.Has (do
      let _ ← emit (.exit arg) span
      goDead
      newOperand .null : Lowering OperandId) := by
  have hleave : L.Has (do let _ ← emit (.exit arg) span; goDead : Lowering Unit) :=
    L.leave span rfl rfl
  have hrest : L.Has (do
      (do let _ ← emit (.exit arg) span; goDead : Lowering Unit)
      newOperand .null : Lowering OperandId) := .bind hleave fun _ => L.operand _
  rwa [bind_assoc] at hrest

/-- A target of a pattern that is no pattern itself. -/
theorem destructure_target {kind : ExprKind} (hkind : ∀ pattern short, kind ≠ .array pattern short)
    (span inner : Span) (value : OperandId) (position : Nat) (key : Option Expr)
    (byRef unpack : Bool) (rest : List (ArrayItem Expr)) :
    destructure span value position (⟨key, some (.mk kind inner), byRef, unpack⟩ :: rest) = (do
      let (index, after) ← elementIndex position (option key)
      let element ← emitValue inner (.element value (some index) ·)
      let dest ← target (.mk kind inner)
      let _ ← emitValue span (.assign dest element ·)
      destructure span value after rest) := by
  cases kind with
  | array pattern short => exact absurd rfl (hkind pattern short)
  | _ => rfl

/-- An element of a value is assigned to a target that is no pattern, and the rest goes on. -/
theorem has_destructureTarget {kind : ExprKind}
    (hkind : ∀ pattern short, kind ≠ .array pattern short) (span : Span) {inner : Span}
    (value : OperandId) (position : Nat) {key : Option Expr} (byRef unpack : Bool)
    {rest : List (ArrayItem Expr)} (hkey : ∀ x ∈ option key, L.Has x)
    (htarget : L.Has (target (.mk kind inner)))
    (hrest : ∀ n, L.Has (destructure span value n rest)) :
    L.Has (destructure span value position
      (⟨key, some (.mk kind inner), byRef, unpack⟩ :: rest)) := by
  rw [destructure_target hkind]
  exact .bind (.elementIndex position hkey) fun _ =>
    .bind (L.value inner (fun _ => rfl) fun _ => rfl) fun _ =>
    .bind htarget fun _ => .bind (L.value span (fun _ => rfl) fun _ => rfl) fun _ => hrest _

/-! ### Statements -/

theorem has_echo {spans : List Span} {values : List (Lowering OperandId)}
    (h : ∀ x ∈ values, L.Has x) :
    L.Has ((spans.zip values).forM fun (span, value) => do
      let value ← current value
      let _ ← emit (.echo value) span) := by
  refine .forM ?_
  rintro ⟨span, value⟩ hm
  exact .bind (h value (List.of_mem_zip hm).2).current fun _ =>
    .bind (L.place span rfl rfl) fun _ => .pure _

theorem has_global {spans : List Span} {vars : List (Lowering OperandId)}
    (h : ∀ x ∈ vars, L.Has x) :
    L.Has ((spans.zip vars).forM fun (span, var) => do
      let value ← writeVariable (← var)
      let _ ← emit (.globalVar value) span) := by
  refine .forM ?_
  rintro ⟨span, var⟩ hm
  exact .bind (h var (List.of_mem_zip hm).2) fun id => .bind (L.newVersion id) fun _ =>
    .bind (L.place span rfl rfl) fun _ => .pure _

/-- An element of a loop over a value is assigned to a target. -/
theorem has_elementOf {dest : Lowering OperandId} (hdest : L.Has dest) (byRef : Bool) (span : Span)
    (value : OperandId) :
    L.Has (do
      let var ← dest
      let _ ← emitValue span fun result =>
        if byRef then .assignRef var value result else .assign var value result) := by
  refine .bind hdest fun _ => .bind (L.value span (fun _ => ?_) fun _ => ?_) fun _ => .pure _
  all_goals cases byRef <;> rfl

/-- A loop over a value whose elements go to a target that is no pattern. -/
theorem foreach_target {kind : ExprKind} (hkind : ∀ pattern short, kind ≠ .array pattern short)
    (span inner : Span) (subject : Expr) (key : Option Expr) (byRef : Bool) (inside : List Stmt) :
    stmtKind span (.foreach subject key (.mk kind inner) byRef inside) =
      foreach (expr subject) (keyTarget key) byRef inner
        (fun value => do
          let var ← target (.mk kind inner)
          let _ ← emitValue inner fun result =>
            if byRef then .assignRef var value result else .assign var value result)
        (inOrder (stmts inside)) span := by
  cases kind with
  | array pattern short => exact absurd rfl (hkind pattern short)
  | _ => rfl

theorem has_foreachTarget {kind : ExprKind}
    (hkind : ∀ pattern short, kind ≠ .array pattern short) (span : Span) {inner : Span}
    {subject : Expr} {key : Option Expr} (byRef : Bool) {inside : List Stmt}
    (hsubject : L.Has (expr subject)) (hkey : ∀ k ∈ keyTarget key, L.Has k.2)
    (htarget : L.Has (target (.mk kind inner))) (hinside : L.Has (inOrder (stmts inside))) :
    L.Has (stmtKind span (.foreach subject key (.mk kind inner) byRef inside)) := by
  rw [foreach_target hkind]
  exact L.foreach byRef inner span hsubject hkey (has_elementOf htarget byRef inner) hinside

/-! ### Loops -/

theorem has_lastCondition {conds : List (Lowering OperandId)} (h : ∀ x ∈ conds, L.Has x) :
    L.Has (lastCondition conds) := by
  refine .bind (.currents h) fun cs => ?_
  split
  · exact .pure _
  · exact L.operand _

theorem has_forLoop {init cond step : List (Lowering OperandId)} {body : Lowering Unit}
    (hinit : ∀ x ∈ init, L.Has x) (hcond : ∀ x ∈ cond, L.Has x) (hstep : ∀ x ∈ step, L.Has x)
    (hbody : L.Has body) (span : Span) : L.Has (forLoop init cond step body span) :=
  .bind (.currents hinit) fun _ => L.loop span (has_lastCondition hcond)
    (.bind hbody fun _ => .bind (.currents hstep) fun _ => .pure _)

/-! ### All syntax trees -/

variable (L)

mutual

/-- Lowering an expression has every law. -/
theorem has_expr : ∀ e : Expr, L.Has (expr e)
  | .mk kind span => has_exprKind span kind

theorem has_exprKind (span : Span) : ∀ kind : ExprKind, L.Has (exprKind span kind)
  | .variable name => L.variableOperand name
  | .dynamicVariable name => .bind (has_expr name).current fun _ => L.operand _
  | .literal value => L.literal value
  | .interpolated parts =>
    .bind (.currents (have_exprs parts)) fun _ => L.result span (fun _ => rfl) fun _ => .inr rfl
  | .constFetch name => L.constant name span
  | .magicConst _ => L.newString ""
  | .name name => L.newString name.joined
  | .identifier name => L.newString name
  | .array elements _ => .array (have_items elements) span
  | .element var dim =>
    .bind (has_expr var).current fun _ => .bind (.optional (have_option dim))
      fun _ => L.value span (fun _ => rfl) fun _ => rfl
  | .property var name _ => .property (has_expr var) (has_nameSlot name) span
  | .staticProperty cls name =>
    .bind (has_nameSlot cls) fun _ => .bind (has_nameSlot name) fun _ => L.staticProperty _ _ span
  | .classConst cls name => .bind (has_nameSlot cls) fun _ => L.classConstant _ name span
  | .assign (.mk kind s) value => by
    have hvalue := has_expr value
    cases kind with
    | array pattern short =>
      exact .bind hvalue.current fun v => .bind (has_destructure span v 0 pattern)
        fun _ => .pure _
    | _ => exact .assign _ hvalue (has_target (.mk _ s)) span
  | .assignRef var value =>
    .bind (has_expr value).current fun _ => .bind (has_target var) fun _ =>
      L.value span (fun _ => rfl) fun _ => rfl
  | .assignOp op var value => .assignOp op (has_expr var) (has_expr value) (has_target var) span
  | .binary op left right => has_binaryStep op (has_spine left) (has_expr right) span
  | .unary op arg => .bind (has_expr arg).current fun _ => L.unary op _ span
  | .cast kind arg =>
    .bind (has_expr arg).current fun _ => L.result span (fun _ => rfl) fun _ => .inr rfl
  | .incDec increment before var => .incDec increment before (has_expr var) (has_target var) span
  | .call name arguments =>
    .call (have_args arguments) (has_nameSlot name) (has_firstTarget arguments) span
  | .methodCall var name arguments nullsafe =>
    .bind (has_expr var).current fun _ => .bind (has_nameSlot name) fun _ =>
      .bind (.currents (have_args arguments)) fun _ => L.answer span (fun _ => rfl) fun _ => rfl
  | .staticCall cls name arguments =>
    .bind (has_nameSlot cls) fun _ => .bind (has_nameSlot name) fun _ =>
      .bind (.currents (have_args arguments)) fun _ => L.answer span (fun _ => rfl) fun _ => rfl
  | .new cls arguments =>
    .bind (has_nameSlot cls) fun _ => .bind (.currents (have_args arguments)) fun _ => L.new _ _ span
  | .closure parameters uses byRef isStatic returnType statements _ =>
    L.closure uses byRef isStatic returnType span (have_params parameters) (have_stmts statements)
  | .includeFile kind path => .includeFile kind _ (has_expr path) span
  | .instanceOf arg cls =>
    .bind (has_expr arg).current fun _ => .bind (has_nameSlot cls) fun _ => L.instanceOf _ _ span
  | .isset vars =>
    .bind (.currents (have_exprs vars)) fun _ => L.value span (fun _ => rfl) fun _ => rfl
  | .exit arg => .bind (.optional (have_option arg)) fun _ => has_exit _ span
  | .errorSuppress arg => has_expr arg
  | .ternary cond ifTrue ifFalse =>
    L.ternary span (has_expr cond) (have_option ifTrue) (has_expr ifFalse)
  | .yield key value =>
    .bind (.optional (have_option key)) fun _ => .bind (.optional (have_option value))
      fun _ => L.value span (fun _ => rfl) fun _ => rfl
  | .yieldFrom arg =>
    .bind (has_expr arg).current fun _ => L.value span (fun _ => rfl) fun _ => rfl
  | .shellExec parts =>
    .bind (.currents (have_exprs parts)) fun _ =>
      .bind (L.result span (fun _ => rfl) fun _ => .inr rfl) fun _ =>
        .bind (L.newString "shell_exec") fun _ => L.answer span (fun _ => rfl) fun _ => rfl

theorem has_spine : ∀ e : Expr, L.Has (spine e)
  | .mk kind span => by
    have hkind := (has_exprKind span kind).current
    cases kind with
    | binary op left right =>
      exact has_binaryStep op (has_spine left) (has_expr right) span
    | _ => exact hkind

theorem has_target : ∀ e : Expr, L.Has (target e)
  | .mk kind span => by
    have hkind := has_write (has_exprKind span kind)
    cases kind with
    | element var dim =>
      exact .bind (.optional (have_option dim)) fun _ => has_target var
    | _ => exact hkind

theorem has_nameSlot : ∀ e : Expr, L.Has (nameSlot e)
  | .mk kind span => by
    have hkind := (has_exprKind span kind).current
    cases kind with
    | name name => exact L.newString _
    | identifier name => exact L.newString _
    | _ => exact hkind

theorem has_destructure (span : Span) (value : OperandId) (position : Nat) :
    ∀ l : List (ArrayItem Expr), L.Has (destructure span value position l)
  | [] => .pure _
  | ⟨_, none, _, _⟩ :: rest => has_destructure span value (position + 1) rest
  | ⟨key, some (.mk kind inner), byRef, unpack⟩ :: rest => by
    have hkey := have_option key
    have hrest := fun n => has_destructure span value n rest
    have hleaf (hkind) := has_destructureTarget hkind span value position byRef unpack hkey
      (has_target (.mk kind inner)) hrest
    cases kind with
    | array pattern short =>
      exact .bind (.elementIndex position hkey) fun _ =>
        .bind (L.value inner (fun _ => rfl) fun _ => rfl) fun element =>
        .bind (has_destructure inner element 0 pattern) fun _ => hrest _
    | _ => exact hleaf nofun

theorem have_exprs : ∀ l : List Expr, ∀ x ∈ exprs l, L.Has x
  | [] => nofun
  | e :: rest => List.forall_mem_cons.2 ⟨has_expr e, have_exprs rest⟩

theorem have_option : ∀ e : Option Expr, ∀ x ∈ option e, L.Has x
  | none => nofun
  | some e => fun x hx => by
    cases hx
    exact has_expr e

theorem have_items : ∀ l : List (ArrayItem Expr), ∀ item ∈ items l,
    (∀ x ∈ item.key, L.Has x) ∧ ∀ x ∈ item.value, L.Has x
  | [] => nofun
  | ⟨key, value, _, _⟩ :: rest =>
    List.forall_mem_cons.2 ⟨⟨have_option key, have_option value⟩, have_items rest⟩

theorem have_args : ∀ l : List (Arg Expr), ∀ x ∈ args l, L.Has x
  | [] => nofun
  | ⟨value, _⟩ :: rest => List.forall_mem_cons.2 ⟨has_expr value, have_args rest⟩

theorem has_firstTarget : ∀ l : List (Arg Expr), L.Has (firstTarget l)
  | [] => L.operand _
  | ⟨value, _⟩ :: _ => has_target value

theorem have_params : ∀ l : List (Param Expr), ∀ p ∈ params l, ∀ x ∈ p.default, L.Has x
  | [] => nofun
  | ⟨_, default, _, _, _, _⟩ :: rest =>
    List.forall_mem_cons.2 ⟨have_option default, have_params rest⟩

theorem have_keyTarget : ∀ key : Option Expr, ∀ k ∈ keyTarget key, L.Has k.2
  | none => nofun
  | some e => fun k hk => by
    cases hk
    exact has_target e

theorem have_declared : ∀ l : List (Declared Expr), ∀ d ∈ declared l, ∀ x ∈ d.default, L.Has x
  | [] => nofun
  | ⟨_, default, _⟩ :: rest => List.forall_mem_cons.2 ⟨have_option default, have_declared rest⟩

theorem have_constants : ∀ l : List (ConstDecl Expr), ∀ c ∈ constants l, L.Has c.value
  | [] => nofun
  | ⟨_, value, _⟩ :: rest => List.forall_mem_cons.2 ⟨has_expr value, have_constants rest⟩

/-- Lowering a statement has every law. -/
theorem has_stmt : ∀ s : Stmt, L.Has (stmt s)
  | .mk kind span => has_stmtKind span kind

theorem has_stmtKind (span : Span) : ∀ kind : StmtKind, L.Has (stmtKind span kind)
  | .expr arg => .bind (has_expr arg) fun _ => .pure _
  | .echo values => has_echo (have_exprs values)
  | .inlineHtml text =>
    .bind (L.newString text) fun _ => .bind (L.place span rfl rfl) fun _ => .pure _
  | .returns arg => .bind (.optional (have_option arg)) fun _ => L.leave span rfl rfl
  | .throws arg => .bind (has_expr arg).current fun _ => L.leave span rfl rfl
  | .ifElse cond thenBody further elseBody =>
    L.ifElse span (has_expr cond) (.inOrder (have_stmts thenBody)) (have_elseIfs further)
      (have_blockOption elseBody)
  | .whileLoop cond inside => L.loop span (has_expr cond).current (.inOrder (have_stmts inside))
  | .doWhile inside cond => L.doWhile span (.inOrder (have_stmts inside)) (has_expr cond)
  | .forLoop init cond step inside =>
    has_forLoop (have_exprs init) (have_exprs cond) (have_exprs step)
      (.inOrder (have_stmts inside)) span
  | .foreach subject key (.mk kind inner) byRef inside => by
    have hsubject := has_expr subject
    have hkey := have_keyTarget key
    have hinside : L.Has (inOrder (stmts inside)) := .inOrder (have_stmts inside)
    have hleaf (hkind) :=
      has_foreachTarget hkind span byRef hsubject hkey (has_target (.mk kind inner)) hinside
    cases kind with
    | array pattern short =>
      exact L.foreach byRef inner span hsubject hkey
        (fun value => has_destructure inner value 0 pattern) hinside
    | _ => exact hleaf nofun
  | .switch subject choices => L.switch span (has_expr subject) (have_cases choices)
  | .breakLoop _ => .get fun _ => L.fail _
  | .continueLoop _ => .get fun _ => L.fail _
  | .goto name => L.goto name span
  | .label name => L.label name span
  | .tryCatch inside handlers finish =>
    L.tryCatch (.inOrder (have_stmts inside)) (have_catches handlers) (have_blockOption finish)
  | .global vars => has_global (have_exprs vars)
  | .static vars => .forM fun v hv => L.staticVar (have_declared vars v hv)
  | .unset vars =>
    .bind (.unset fun v hv => have_exprs vars v.2 (List.of_mem_zip hv).2) fun _ =>
      .bind (L.place span rfl rfl) fun _ => .pure _
  | .function name parameters byRef returnType statements =>
    L.function name.joined byRef returnType span (have_params parameters) (have_stmts statements)
  | .classDecl kind name modifiers parent implements statements =>
    .classDecl kind name.joined modifiers parent implements (have_stmts statements) span
  | .method name modifiers parameters byRef returnType statements =>
    L.method name modifiers byRef returnType span (have_params parameters)
      (have_optionalStmts statements)
  | .properties modifiers type props =>
    .forM fun p hp => .propertyDecl modifiers _ (have_declared props p hp)
  | .classConsts consts => .forM fun c hc => .constDecl true (have_constants consts c hc)
  | .consts consts => .forM fun c hc => .constDecl false (have_constants consts c hc)
  | .traitUse traits adaptations =>
    .bind (L.newStrings Name.joined traits) fun _ =>
      .bind (L.place span rfl rfl) fun _ => .pure _
  | .namespaceDecl _ inside => .inOrder (have_optionalStmts inside)
  | .block inside => .inOrder (have_stmts inside)
  | .useDecl .. => .pure _
  | .nop => .pure _

theorem have_stmts : ∀ l : List Stmt, ∀ x ∈ stmts l, L.Has x
  | [] => nofun
  | s :: rest => List.forall_mem_cons.2 ⟨has_stmt s, have_stmts rest⟩

theorem have_optionalStmts : ∀ l : Option (List Stmt), ∀ x ∈ optionalStmts l, L.Has x
  | none => nofun
  | some l => have_stmts l

theorem have_blockOption : ∀ l : Option (List Stmt), ∀ x ∈ blockOption l, L.Has x
  | none => nofun
  | some l => fun x hx => by
    cases hx
    exact .inOrder (have_stmts l)

theorem have_elseIfs : ∀ l : List (ElseIf Expr Stmt), ∀ e ∈ elseIfs l,
    L.Has e.cond ∧ ∀ x ∈ e.body, L.Has x
  | [] => nofun
  | ⟨cond, body, _⟩ :: rest =>
    List.forall_mem_cons.2 ⟨⟨has_expr cond, have_stmts body⟩, have_elseIfs rest⟩

theorem have_cases : ∀ l : List (Case Expr Stmt), ∀ c ∈ cases l,
    (∀ x ∈ c.cond, L.Has x) ∧ ∀ x ∈ c.body, L.Has x
  | [] => nofun
  | ⟨cond, body, _⟩ :: rest =>
    List.forall_mem_cons.2 ⟨⟨have_option cond, have_stmts body⟩, have_cases rest⟩

theorem have_catches : ∀ l : List (Catch Stmt), ∀ c ∈ catches l, ∀ x ∈ c.body, L.Has x
  | [] => nofun
  | ⟨_, _, body⟩ :: rest => List.forall_mem_cons.2 ⟨have_stmts body, have_catches rest⟩

end

end QueryTaint.Lower
