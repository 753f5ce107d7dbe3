import QueryTaint.Lower.Declare

/-!
# Steps that never fail

A step of lowering is total if it gives a result from every builder. What only builds is total, and a
step is total if the steps that lower its parts are: the ways of building expressions, statements and
declarations add no way to fail.
-/

namespace QueryTaint.Lower

/-- A step gives a result from every builder. -/
def Total {α : Type} (x : Lowering α) : Prop := ∀ b, ∃ y b', x.run.run b = (.ok y, b')

variable {α β : Type}

/-! ## Putting steps together -/

namespace Total

variable {x : Lowering α} {f : α → Lowering β}

theorem pure (y : α) : Total (pure y) := fun b => ⟨y, b, rfl⟩

theorem bind (hx : Total x) (hf : ∀ y, Total (f y)) : Total (x >>= f) := by
  intro b
  obtain ⟨y, b₁, hy⟩ := hx b
  obtain ⟨z, b₂, hz⟩ := hf y b₁
  refine ⟨z, b₂, ?_⟩
  rw [ExceptT.run_bind, StateT.run_bind, hy]
  exact hz

theorem lift (m : Build α) : Total (liftM m) := fun b => ⟨(m.run b).1, (m.run b).2, rfl⟩

/-- Something is built first. -/
theorem build {m : Build α} (hf : ∀ y, Total (f y)) : Total (liftM m >>= f) := (lift m).bind hf

theorem get {f : Builder → Lowering β} (hf : ∀ b, Total (f b)) : Total (get >>= f) :=
  fun b => hf b b

theorem look {g : Arena → α} (hf : ∀ y, Total (f y)) : Total (Lower.look g >>= f) :=
  fun b => hf (g b.arena) b

theorem modify (g : Builder → Builder) : Total (modify g) := fun b => ⟨(), g b, rfl⟩

theorem forM {f : α → Lowering Unit} {l : List α} (h : ∀ x ∈ l, Total (f x)) : Total (l.forM f) := by
  induction l with
  | nil => exact pure ()
  | cons x l ih =>
    exact bind (h x List.mem_cons_self) fun _ => ih fun y hy => h y (List.mem_cons_of_mem _ hy)

theorem mapM {l : List α} (h : ∀ x ∈ l, Total (f x)) : Total (l.mapM f) := by
  induction l with
  | nil => exact pure []
  | cons x l ih =>
    rw [List.mapM_cons]
    exact bind (h x List.mem_cons_self) fun _ =>
      bind (ih fun y hy => h y (List.mem_cons_of_mem _ hy)) fun _ => pure _

end Total

theorem current_total {x : Lowering OperandId} (h : Total x) : Total (current x) :=
  .bind h fun _ => .lift _

theorem currents_total {steps : List (Lowering OperandId)} (h : ∀ x ∈ steps, Total x) :
    Total (steps.mapM current) :=
  .mapM fun x hx => current_total (h x hx)

theorem optional_total {step : Option (Lowering OperandId)} (h : ∀ x ∈ step, Total x) :
    Total (step.mapM current) := by
  cases step with
  | none => exact .pure _
  | some x => exact .bind (current_total (h x rfl)) fun _ => .pure _

theorem inOrder_total {steps : List (Lowering Unit)} (h : ∀ x ∈ steps, Total x) :
    Total (inOrder steps) :=
  .forM h

theorem ifGiven_total {step : Option (Lowering Unit)} (h : ∀ x ∈ step, Total x) :
    Total (ifGiven step) := by
  cases step with
  | none => exact .pure ()
  | some x => exact h x rfl

theorem under_total {x : Lowering α} (cond : OperandId) (h : Total x) : Total (under cond x) :=
  .build fun _ => .bind h fun _ => .build fun _ => .pure _

theorem inBlock_total {x : Lowering α} (block : BlockId) (h : Total x) : Total (inBlock block x) :=
  .get fun _ => .build fun _ => .bind h fun _ => .build fun _ => .pure _

/-! ## Branches and loops -/

section Control

variable {cond subject : Lowering OperandId} {body : Lowering Unit}

theorem branch_total {otherwise : Lowering Unit} (hcond : Total cond) (hbody : Total body)
    (hother : Total otherwise) (last : BlockId) (span : Span) :
    Total (branch last span cond body otherwise) :=
  .bind (current_total hcond) fun _ => .build fun _ => .build fun _ => .build fun _ => .build fun _ =>
    .bind (under_total _ (.build fun _ => .build fun _ => .bind hbody fun _ => .lift _)) fun _ =>
      .build fun _ => under_total _ (.build fun _ => .build fun _ => hother)

theorem branches_total {further : List (ElseIf (Lowering OperandId) (Lowering Unit))}
    {otherwise : Option (Lowering Unit)} (hcond : Total cond) (hbody : Total body)
    (hfurther : ∀ e ∈ further, Total e.cond ∧ ∀ x ∈ e.body, Total x)
    (hother : ∀ x ∈ otherwise, Total x) (last : BlockId) (span : Span) :
    Total (branches last span cond body further otherwise) := by
  induction further generalizing cond body span with
  | nil => exact branch_total hcond hbody (.bind (ifGiven_total hother) fun _ => .lift _) last span
  | cons next rest ih =>
    obtain ⟨⟨hnext, hinside⟩, hrest⟩ := List.forall_mem_cons.1 hfurther
    exact branch_total hcond hbody (ih hnext (inOrder_total hinside) hrest _) last span

theorem ifElse_total {further : List (ElseIf (Lowering OperandId) (Lowering Unit))}
    {otherwise : Option (Lowering Unit)} (hcond : Total cond) (hbody : Total body)
    (hfurther : ∀ e ∈ further, Total e.cond ∧ ∀ x ∈ e.body, Total x)
    (hother : ∀ x ∈ otherwise, Total x) (span : Span) :
    Total (ifElse cond body further otherwise span) :=
  .build fun last => .bind (branches_total hcond hbody hfurther hother last span) fun _ => .lift _

theorem leaveLoop_total (cond : OperandId) (last : BlockId) : Total (leaveLoop cond last) :=
  .build fun _ => .bind (under_total _ (.lift _)) fun _ => .lift _

theorem loop_total (hcond : Total cond) (hbody : Total body) (span : Span) :
    Total (loop cond body span) :=
  .build fun _ => .build fun _ => .build fun last => .build fun _ => .build fun _ =>
    .bind hcond fun _ => .build fun _ => .build fun _ =>
      .bind (under_total _ (.build fun _ => .build fun _ => .bind hbody fun _ => .lift _)) fun _ =>
        leaveLoop_total _ last

theorem lastCondition_total {conds : List (Lowering OperandId)} (h : ∀ x ∈ conds, Total x) :
    Total (lastCondition conds) := by
  refine .bind (currents_total h) fun _ => ?_
  split
  · exact .pure _
  · exact .lift _

theorem forLoop_total {init conds step : List (Lowering OperandId)} (hinit : ∀ x ∈ init, Total x)
    (hconds : ∀ x ∈ conds, Total x) (hstep : ∀ x ∈ step, Total x) (hbody : Total body)
    (span : Span) : Total (forLoop init conds step body span) :=
  .bind (currents_total hinit) fun _ => loop_total (lastCondition_total hconds)
    (.bind hbody fun _ => .bind (currents_total hstep) fun _ => .pure _) span

theorem doWhile_total (hbody : Total body) (hcond : Total cond) (span : Span) :
    Total (doWhile body cond span) :=
  .build fun _ => .build fun last => .build fun _ => .build fun _ => .bind hbody fun _ =>
    .bind (current_total hcond) fun _ => .build fun _ => .build fun _ => leaveLoop_total _ last

theorem foreach_total {key : Option (Span × Lowering OperandId)} {value : OperandId → Lowering Unit}
    (hsubject : Total subject) (hkey : ∀ k ∈ key, Total k.2) (hvalue : ∀ v, Total (value v))
    (hbody : Total body) (byRef : Bool) (valueSpan span : Span) :
    Total (foreach subject key byRef valueSpan value body span) := by
  refine .bind (current_total hsubject) fun _ => .build fun _ => .build fun _ => .build fun _ =>
    .build fun _ => .build fun _ => .build fun _ => .build fun _ => .build fun _ => .build fun _ => ?_
  have hrest (header last : BlockId) (subject : OperandId) : Total (do
      value (← emitValue valueSpan (.iterValue subject byRef ·))
      body
      let _ ← emit (.next subject) span
      jump header span
      goTo last) :=
    .build fun _ => .bind (hvalue _) fun _ => .bind hbody fun _ => .build fun _ => .build fun _ =>
      .lift _
  dsimp only
  split
  · next target => exact .build fun _ => .bind (hkey _ rfl) fun _ => .build fun _ => hrest _ _ _
  · exact hrest _ _ _

/-! ## Switches -/

theorem tableEntries_total {cases : PlacedCases} (h : ∀ c ∈ cases, ∀ x ∈ c.1.cond, Total x)
    (switchBlock : BlockId) (subject : OperandId) : Total (tableEntries switchBlock subject cases) := by
  induction cases with
  | nil => exact .pure _
  | cons first rest ih =>
    obtain ⟨case, block⟩ := first
    obtain ⟨hfirst, hrest⟩ := List.forall_mem_cons.1 h
    refine .build fun _ => ?_
    split
    · next cond hcond =>
      exact .bind (current_total (hfirst cond hcond)) fun _ => .build fun _ => .build fun _ =>
        .build fun _ => .bind (ih hrest) fun _ => .pure _
    · exact ih hrest

theorem jumpTable_total {cases : PlacedCases} (h : ∀ c ∈ cases, ∀ x ∈ c.1.cond, Total x)
    (subject : OperandId) (last : BlockId) (span : Span) : Total (jumpTable subject cases last span) :=
  .get fun _ => .bind (tableEntries_total h _ subject) fun _ => .build fun _ => .build fun _ => .lift _

theorem compareCases_total {cases : PlacedCases} (h : ∀ c ∈ cases, ∀ x ∈ c.1.cond, Total x)
    (subject : OperandId) : Total (compareCases subject cases) := by
  induction cases with
  | nil => exact .pure _
  | cons first rest ih =>
    obtain ⟨case, block⟩ := first
    obtain ⟨hfirst, hrest⟩ := List.forall_mem_cons.1 h
    rw [compareCases]
    dsimp only
    split
    · next cond hcond =>
      exact .bind (current_total (hfirst cond hcond)) fun _ => .build fun _ => .build fun _ =>
        .build fun _ => .build fun _ => .build fun _ => ih hrest
    · exact ih hrest

theorem fallThrough_total (previous : Option BlockId) (target : BlockId) (span : Span) :
    Total (fallThrough previous target span) := by
  cases previous with
  | none => exact .pure _
  | some previous =>
    refine .build fun dead => ?_
    split
    · exact .build fun _ => .lift _
    · exact .pure _

theorem caseBodies_total {cases : PlacedCases} (h : ∀ c ∈ cases, ∀ x ∈ c.1.body, Total x)
    (previous : Option BlockId) : Total (caseBodies previous cases) := by
  induction cases generalizing previous with
  | nil => exact .pure _
  | cons first rest ih =>
    obtain ⟨case, block⟩ := first
    obtain ⟨hfirst, hrest⟩ := List.forall_mem_cons.1 h
    exact .bind (fallThrough_total _ _ _) fun _ => .build fun _ => .bind (inOrder_total hfirst) fun _ =>
      .get fun _ => ih hrest _

/-- The cases of a switch with blocks for their bodies are the cases of the switch. -/
theorem placeCases_run (cases : List (Case (Lowering OperandId) (Lowering Unit))) (b : Builder) :
    ∃ placed b', (cases.mapM fun case => do return (case, ← newBlock) :
      Lowering PlacedCases).run.run b = (.ok placed, b') ∧ ∀ c ∈ placed, c.1 ∈ cases := by
  induction cases generalizing b with
  | nil => exact ⟨[], b, rfl, nofun⟩
  | cons case rest ih =>
    obtain ⟨placed, b', hrun, hmem⟩ := ih (newBlock.run b).2
    refine ⟨(case, (newBlock.run b).1) :: placed, b', ?_, ?_⟩
    · rw [List.mapM_cons, ExceptT.run_bind, StateT.run_bind]
      show ((rest.mapM _ >>= fun placed => pure ((case, (newBlock.run b).1) :: placed) :
        Lowering PlacedCases).run.run (newBlock.run b).2) = _
      rw [ExceptT.run_bind, StateT.run_bind, hrun]
      rfl
    · exact List.forall_mem_cons.2 ⟨List.mem_cons_self, fun c hc =>
        List.mem_cons_of_mem _ (hmem c hc)⟩

theorem switch_total {table : Bool} {cases : List (Case (Lowering OperandId) (Lowering Unit))}
    (hsubject : Total subject)
    (hcases : ∀ c ∈ cases, (∀ x ∈ c.cond, Total x) ∧ ∀ x ∈ c.body, Total x) (span : Span) :
    Total (switch subject table cases span) := by
  refine .bind (current_total hsubject) fun subject => .build fun last => fun b => ?_
  obtain ⟨placed, b', hrun, hmem⟩ := placeCases_run cases b
  have hconds : ∀ c ∈ placed, ∀ x ∈ c.1.cond, Total x := fun c hc => (hcases c.1 (hmem c hc)).1
  have hbodies : Total (do
      let previous ← caseBodies none placed
      fallThrough previous last span
      goTo last) :=
    .bind (caseBodies_total (fun c hc => (hcases c.1 (hmem c hc)).2) none) fun _ =>
      .bind (fallThrough_total _ _ _) fun _ => .lift _
  have hrest : Total (do
      if table then jumpTable subject placed last span
      else
        compareCases subject placed
        jump ((defaultBlock? placed).getD last) span
      let previous ← caseBodies none placed
      fallThrough previous last span
      goTo last) := by
    split
    · exact .bind (jumpTable_total hconds _ _ _) fun _ => hbodies
    · exact .bind (compareCases_total hconds _) fun _ => .build fun _ => hbodies
  obtain ⟨y, b'', hy⟩ := hrest b'
  refine ⟨y, b'', ?_⟩
  rw [ExceptT.run_bind, StateT.run_bind, hrun]
  exact hy

/-! ## Jumps and handlers -/

theorem goto_total (label : String) (span : Span) : Total (goto label span) := by
  refine .get fun b => ?_
  split
  · exact .build fun _ => .lift _
  · exact .get fun _ => .build fun _ => .lift _

theorem handler_total {caught : Catch (Lowering Unit)} (h : ∀ x ∈ caught.body, Total x) :
    Total (handler caught) := by
  refine .build fun _ => .build fun _ => ?_
  dsimp only
  split
  · exact .build fun _ => .build fun _ => inOrder_total h
  · exact inOrder_total h

theorem tryCatch_total {catches : List (Catch (Lowering Unit))} {finish : Option (Lowering Unit)}
    (hbody : Total body) (hcatches : ∀ c ∈ catches, ∀ x ∈ c.body, Total x)
    (hfinish : ∀ x ∈ finish, Total x) : Total (tryCatch body catches finish) :=
  .bind hbody fun _ => .get fun _ => .bind (.forM fun c hc => handler_total (hcatches c hc)) fun _ =>
    .build fun _ => ifGiven_total hfinish

end Control

/-! ## Expressions -/

section Value

variable {value target name left right : Lowering OperandId}

theorem property_total {object : Lowering OperandId} (hobject : Total object) (hname : Total name)
    (span : Span) : Total (property object name span) :=
  .bind hobject fun _ => .look fun _ => .build fun _ => .bind hname fun _ => .look fun _ =>
    .build fun _ => .build fun _ => .pure _

theorem arrayItems_total {items : List (ArrayItem (Lowering OperandId))}
    (h : ∀ item ∈ items, (∀ x ∈ item.key, Total x) ∧ ∀ x ∈ item.value, Total x) :
    Total (arrayItems items) := by
  induction items with
  | nil => exact .pure _
  | cons item rest ih =>
    obtain ⟨key, value, byRef, unpack⟩ := item
    obtain ⟨hitem, hrest⟩ := List.forall_mem_cons.1 h
    cases value with
    | none => exact ih hrest
    | some value =>
      have htail {f : OperandId → _ → List OperandId × List OperandId × List Bool} :
          Total (current value >>= fun x => arrayItems rest >>= fun made => pure (f x made)) :=
        .bind (current_total (hitem.2 value rfl)) fun _ => .bind (ih hrest) fun _ => .pure _
      cases key with
      | none => exact .build fun _ => htail
      | some key => exact .bind (current_total (hitem.1 key rfl)) fun _ => htail

theorem array_total {items : List (ArrayItem (Lowering OperandId))}
    (h : ∀ item ∈ items, (∀ x ∈ item.key, Total x) ∧ ∀ x ∈ item.value, Total x) (span : Span) :
    Total (array items span) :=
  .bind (arrayItems_total h) fun _ => .lift _

theorem assign_total (whole : Bool) (hvalue : Total value) (htarget : Total target) (span : Span) :
    Total (assign whole value target span) := by
  refine .bind (current_total hvalue) fun _ => .bind htarget fun _ => .build fun _ =>
    .look fun _ => .look fun _ => ?_
  split
  · exact .build fun _ => .pure _
  · exact .pure _

theorem assignOp_total (op : BinaryOp) (hleft : Total left) (hright : Total right)
    (htarget : Total target) (span : Span) : Total (assignOp op left right target span) :=
  .bind (current_total hleft) fun _ => .bind (current_total hright) fun _ => .build fun _ =>
    .bind htarget fun _ => .build fun _ => .pure _

theorem incDec_total (increment before : Bool) (hvalue : Total value) (htarget : Total target)
    (span : Span) : Total (incDec increment before value target span) :=
  .bind (current_total hvalue) fun _ => .build fun _ => .build fun _ => .bind htarget fun _ =>
    .build fun _ => .pure _

theorem elementIndex_total {key : Option (Lowering OperandId)} (h : ∀ x ∈ key, Total x)
    (position : Nat) : Total (elementIndex position key) := by
  cases key with
  | none => exact .build fun _ => .pure _
  | some key => exact .bind (current_total (h key rfl)) fun _ => .pure _

theorem ternary_total {cond ifFalse : Lowering OperandId} {ifTrue : Option (Lowering OperandId)}
    (hcond : Total cond) (htrue : ∀ x ∈ ifTrue, Total x) (hfalse : Total ifFalse) (span : Span) :
    Total (ternary cond ifTrue ifFalse span) := by
  have harm (block last : BlockId) {value : Lowering OperandId} (hvalue : Total value) : Total (do
      guardBlock block
      goTo block
      let value ← value
      let dead ← isDead (← get).block
      jump last span
      return if dead then [] else [value] : Lowering (List OperandId)) :=
    .build fun _ => .build fun _ => .bind hvalue fun _ => .get fun _ => .build fun _ =>
      .build fun _ => .pure _
  refine .bind (current_total hcond) fun cond => .build fun _ => .build fun _ => .build fun last =>
    .build fun _ => .build fun _ => .bind (under_total _ (harm _ _ ?_)) fun _ => .build fun _ =>
    .bind (under_total _ (harm _ _ (current_total hfalse))) fun _ => .build fun _ => .build fun _ =>
    .build fun _ => .build fun _ => .pure _
  split
  · next value => exact current_total (htrue value rfl)
  · exact .pure _

theorem settype_total (value type : OperandId) (htarget : Total target) (span : Span) :
    Total (settype value type target span) := by
  refine .look fun _ => ?_
  split
  · exact .build fun _ => .bind htarget fun _ => .build fun _ => .pure _
  · exact .pure _

/-- A call is placed, and a predicate on types asserts the type. -/
theorem emitPredicate_total (callee : Option String) (name : OperandId) (args : List OperandId)
    (span : Span) : Total (do
      let result ← emitCall span (.functionCall name args ·)
      match callee.bind predicateType?, args with
      | some type, subject :: _ =>
        if (← look (·.nameOf? subject)).isSome then
          addAssertion result subject (.type (← newString type) false)
      | _, _ => pure ()
      return result) := by
  refine .build fun _ => ?_
  dsimp only
  split
  · refine .look fun _ => ?_
    split
    · exact .build fun _ => .build fun _ => .pure _
    · exact .pure _
  · exact .pure _

theorem call_total {args : List (Lowering OperandId)} (hargs : ∀ x ∈ args, Total x)
    (hname : Total name) (htarget : Total target) (span : Span) :
    Total (call args name target span) := by
  refine .bind (currents_total hargs) fun args => .bind hname fun name => .look fun callee => ?_
  dsimp only
  split
  · exact .bind (settype_total _ _ htarget span) fun _ => emitPredicate_total _ name _ span
  · refine .look fun _ => ?_
    split
    · exact .build fun _ => emitPredicate_total _ name _ span
    · exact emitPredicate_total _ name _ span
  · exact emitPredicate_total _ name _ span

theorem includeFile_total (kind : IncludeKind) (text : Option String) (hvalue : Total value)
    (span : Span) : Total (includeFile kind text value span) := by
  refine .bind (current_total hvalue) fun _ => ?_
  split
  · exact .bind (.modify _) fun _ => .lift _
  · exact .lift _

end Value

/-! ## Declarations -/

section Declare

variable {value : Lowering OperandId} {params : List (Param (Lowering OperandId))}
  {steps : List (Lowering Unit)}

theorem apart_total (h : Total value) : Total (apart value) :=
  .build fun _ => .bind (inBlock_total _ h) fun _ => .pure _

theorem defaultApart_total {value : Option (Lowering OperandId)} (h : ∀ x ∈ value, Total x) :
    Total (defaultApart value) := by
  cases value with
  | none => exact .pure _
  | some value => exact .bind (apart_total (h value rfl)) fun _ => .pure _

theorem param_total {p : Param (Lowering OperandId)} (h : ∀ x ∈ p.default, Total x) (func : FuncId)
    (entry : BlockId) : Total (param func entry p) :=
  .bind (defaultApart_total h) fun _ => .build fun _ => .build fun _ => .build fun _ =>
    .build fun _ => .build fun _ => .lift _

theorem body_total (hparams : ∀ p ∈ params, ∀ x ∈ p.default, Total x)
    (hsteps : ∀ x ∈ steps, Total x) (func : FuncId) (captured : List (String × OperandId)) :
    Total (body func captured params steps) :=
  .look fun _ => .get fun _ => .get fun _ => .get fun _ => .bind (.modify _) fun _ =>
    .bind (.forM fun _ _ => .lift _) fun _ =>
    .bind (.forM fun p hp => param_total (hparams p hp) _ _) fun _ =>
    .bind (inOrder_total hsteps) fun _ => .build fun _ => .modify _

theorem function_total (hparams : ∀ p ∈ params, ∀ x ∈ p.default, Total x)
    (hsteps : ∀ x ∈ steps, Total x) (name : String) (byRef : Bool) (returnType : Option TypeHint)
    (span : Span) : Total (function name params byRef returnType steps span) :=
  .build fun _ => .build fun _ => .build fun _ => .bind (body_total hparams hsteps _ _) fun _ =>
    .lift _

theorem method_total (hparams : ∀ p ∈ params, ∀ x ∈ p.default, Total x)
    (hsteps : ∀ x ∈ steps, Total x) (name : String) (modifiers : Nat) (byRef : Bool)
    (returnType : Option TypeHint) (span : Span) :
    Total (method name modifiers params byRef returnType steps span) :=
  .get fun _ => .build fun _ => .build fun _ => .build fun _ =>
    .bind (body_total hparams hsteps _ _) fun _ => .look fun _ => .lift _

theorem closure_total (hparams : ∀ p ∈ params, ∀ x ∈ p.default, Total x)
    (hsteps : ∀ x ∈ steps, Total x) (uses : List Capture) (byRef isStatic : Bool)
    (returnType : Option TypeHint) (span : Span) :
    Total (closure params uses byRef isStatic returnType steps span) :=
  .bind (fun b => ⟨b.labels.nextFunction.1, _, rfl⟩) fun _ => .build fun _ => .build fun _ =>
    .bind (body_total hparams hsteps _ _) fun _ => .build fun _ => .build fun _ => .build fun _ =>
    .build fun _ => .pure _

theorem classDecl_total (hsteps : ∀ x ∈ steps, Total x) (kind : ClassKind) (name : String)
    (modifiers : Nat) (parent : Option Name) (implements : List Name) (span : Span) :
    Total (classDecl kind name modifiers parent implements steps span) := by
  have hrest (block : BlockId) (name : OperandId) (parent : Option OperandId) : Total (do
      let implements ← implements.mapM fun i => (newString i.joined : Lowering OperandId)
      let _ ← emit (.classDecl kind name block modifiers parent implements) span) :=
    .bind (.mapM fun _ _ => .lift _) fun _ => .build fun _ => .pure _
  refine .get fun _ => .build fun _ => .bind (inBlock_total _ (.bind (.modify _) fun _ =>
    .bind (inOrder_total hsteps) fun _ => .modify _)) fun _ => .build fun _ => ?_
  split
  · exact .build fun _ => .bind (.pure _) (hrest _ _)
  · exact .bind (.pure _) (hrest _ _)

theorem propertyDecl_total {p : Declared (Lowering OperandId)} (h : ∀ x ∈ p.default, Total x)
    (modifiers : Nat) (type : DeclaredType) : Total (propertyDecl modifiers type p) := by
  refine .bind (defaultApart_total h) fun ⟨default, block⟩ => ?_
  have hrest : Total (do
      let name ← newString p.name
      let _ ← emit (.propertyDecl name modifiers type default block) p.span : Lowering Unit) :=
    .build fun _ => .build fun _ => .pure _
  dsimp only
  split
  · refine .look fun _ => ?_
    split
    · exact .build fun _ => .build fun _ => hrest
    · exact hrest
  · exact hrest

theorem constDecl_total {c : ConstDecl (Lowering OperandId)} (h : Total c.value) (inClass : Bool) :
    Total (constDecl inClass c) :=
  .bind (apart_total h) fun _ => .get fun _ => .build fun _ => .build fun _ => .lift _

theorem staticVar_total {v : Declared (Lowering OperandId)} (h : ∀ x ∈ v.default, Total x) :
    Total (staticVar v) :=
  .bind (defaultApart_total h) fun _ => .build fun _ => .build fun _ => .get fun _ =>
    .build fun _ => .build fun _ => .pure _

theorem unset_total {vars : List (Bool × Lowering OperandId)} (h : ∀ v ∈ vars, Total v.2) :
    Total (unset vars) := by
  induction vars with
  | nil => exact .pure _
  | cons first rest ih =>
    obtain ⟨named, step⟩ := first
    obtain ⟨hstep, hrest⟩ := List.forall_mem_cons.1 h
    refine .bind hstep fun raw => .build fun read => ?_
    dsimp only
    split
    · exact .build fun _ => .bind (ih hrest) fun _ => .pure _
    · exact .build fun _ => .bind (ih hrest) fun _ => .pure _

end Declare

end QueryTaint.Lower
