import QueryTaint.Lower.Tree
import QueryTaint.Proofs.Lower.Control

/-!
# Lowering plain bodies keeps the invariant

A plain body has no other effects on variables than assignments to them: its expressions are made of
literals, variables, operators, assignments to variables, choices and calls, and its statements are
those of control flow. Lowering it never fails and keeps the invariant, by one induction over the
syntax tree.
-/

namespace QueryTaint.Lower

/-! ## Plain syntax -/

/-- Whether an expression is a variable. -/
def isVariable : Expr → Bool
  | .mk (.variable _) _ => true
  | _ => false

/-- Whether a constant is a literal. -/
def isLiteralConst (name : Name) : Bool :=
  let text := lowerAscii name.joined
  text == "true" || text == "false" || text == "null"

mutual

/-- Whether an expression is plain. -/
def plainExpr : Expr → Bool
  | .mk kind _ => plainKind kind

/-- Whether a form of expression is plain. -/
def plainKind : ExprKind → Bool
  | .variable _ | .literal _ | .name _ | .identifier _ => true
  | .constFetch name => isLiteralConst name
  | .assign var value | .assignOp _ var value => isVariable var && plainExpr value
  | .binary _ left right => plainExpr left && plainExpr right
  | .unary _ arg => plainExpr arg
  | .incDec _ before var => before && isVariable var
  | .call name arguments | .new name arguments => plainExpr name && plainArgs arguments
  | .methodCall var name arguments _ | .staticCall var name arguments =>
    plainExpr var && plainExpr name && plainArgs arguments
  | .ternary cond ifTrue ifFalse => plainExpr cond && plainOption ifTrue && plainExpr ifFalse
  | _ => false

/-- Whether all expressions are plain. -/
def plainExprs : List Expr → Bool
  | [] => true
  | e :: rest => plainExpr e && plainExprs rest

/-- Whether an expression that may be absent is plain. -/
def plainOption : Option Expr → Bool
  | none => true
  | some e => plainExpr e

/-- Whether all arguments are plain. -/
def plainArgs : List (Arg Expr) → Bool
  | [] => true
  | ⟨value, _⟩ :: rest => plainExpr value && plainArgs rest

end

mutual

/-- Whether a statement is plain. -/
def plainStmt : Stmt → Bool
  | .mk kind _ => plainStmtKind kind

/-- Whether a form of statement is plain. -/
def plainStmtKind : StmtKind → Bool
  | .expr arg => plainExpr arg
  | .echo values => plainExprs values
  | .returns arg => plainOption arg
  | .ifElse cond thenBody further elseBody =>
    plainExpr cond && plainStmts thenBody && plainElseIfs further && plainBlock elseBody
  | .whileLoop cond inside | .doWhile inside cond => plainExpr cond && plainStmts inside
  | .forLoop init cond step inside =>
    plainExprs init && plainExprs cond && plainExprs step && plainStmts inside
  | .foreach subject key value _ inside =>
    plainExpr subject && key.all isVariable && isVariable value && plainStmts inside
  | .switch subject choices => plainExpr subject && plainCases choices
  | .goto _ | .label _ | .inlineHtml _ | .nop => true
  | .block inside => plainStmts inside
  | _ => false

/-- Whether all statements are plain. -/
def plainStmts : List Stmt → Bool
  | [] => true
  | s :: rest => plainStmt s && plainStmts rest

/-- Whether statements that may be absent are plain. -/
def plainBlock : Option (List Stmt) → Bool
  | none => true
  | some inside => plainStmts inside

/-- Whether further conditions and their bodies are plain. -/
def plainElseIfs : List (ElseIf Expr Stmt) → Bool
  | [] => true
  | ⟨cond, inside, _⟩ :: rest => plainExpr cond && plainStmts inside && plainElseIfs rest

/-- Whether the cases of a switch are plain. -/
def plainCases : List (Case Expr Stmt) → Bool
  | [] => true
  | ⟨cond, inside, _⟩ :: rest => plainOption cond && plainStmts inside && plainCases rest

end

variable {F : Base}

/-! ## Expressions -/

theorem isVariable_iff {e : Expr} :
    isVariable e = true ↔ ∃ name span, e = .mk (.variable name) span := by
  constructor
  · obtain ⟨kind, span⟩ := e
    intro h
    cases kind <;> first | exact ⟨_, _, rfl⟩ | cases h
  · rintro ⟨name, span, rfl⟩
    rfl

theorem constant_keeps {name : Name} (h : isLiteralConst name = true) (span : Span) :
    Keeps F (constant name span) F.Mine := by
  have hscalar : ∀ c, Keeps F (newOperand (.scalar c)) F.Mine :=
    fun c => newOperand_keeps fun _ _ => trivial
  simp only [isLiteralConst, Bool.or_eq_true, beq_iff_eq] at h
  unfold constant
  rcases h with (h | h) | h <;> rw [h]
  · exact hscalar (.bool true)
  · exact hscalar (.bool false)
  · exact hscalar .null

theorem target_targets {e : Expr} (hplain : plainExpr e = true) (h : Keeps F (expr e) F.Mine) :
    Targets F (target e) := by
  obtain ⟨kind, span⟩ := e
  have hkind : Keeps F (exprKind span kind) F.Mine := h
  cases kind <;> first | exact write_targets hkind | cases hplain

theorem nameSlot_keeps {e : Expr} (h : Keeps F (expr e) F.Mine) : Keeps F (nameSlot e) F.Mine := by
  obtain ⟨kind, span⟩ := e
  have hkind : Keeps F (exprKind span kind) F.Mine := h
  cases kind with
  | name n => exact newString_keeps _
  | identifier n => exact newString_keeps _
  | _ => exact current_keeps hkind

/-- A binary operator is applied to values, and its result is read. -/
theorem binaryStep_keeps (op : BinaryOp) (span : Span) {left right : Lowering OperandId}
    (hleft : Keeps F left F.Mine) (hright : Keeps F right F.Mine) :
    Keeps F (do
      let left ← left
      let right ← current right
      readVariable (← binary op left right span)) F.Mine := by
  intro b h
  refine Succeeds.bind (hleft h) ?_
  rintro x b₁ ⟨h₁, hx⟩
  refine Succeeds.bind (current_keeps hright h₁.inv) ?_
  rintro y b₂ ⟨h₂, hy⟩
  refine Succeeds.bind (.lift (binary_gives h₂.inv op (hx.grows h₂.grows) hy span)) ?_
  rintro r b₃ ⟨h₃, hr⟩
  refine Succeeds.lift ((readVariable_gives h₃.inv hr).mono ?_)
  rintro z b₄ ⟨h₄, -, hz, -⟩
  exact ⟨((h₁.trans h₂).trans h₃).trans h₄, hz⟩

theorem methodCall_keeps {var name : Lowering OperandId} {arguments : List (Lowering OperandId)}
    (hvar : Keeps F var F.Mine) (hname : Keeps F name F.Mine)
    (harguments : ∀ x ∈ arguments, Keeps F x F.Mine) {make : OperandId → OperandId →
      List OperandId → OperandId → OpKind}
    (hmake : ∀ {b : Builder} {v n args}, F.Mine b.arena v → F.Mine b.arena n →
      F.AllMine b.arena args → ValueOp F b (make v n args)) (span : Span) :
    Keeps F (do
      let var ← var
      let name ← name
      let arguments ← arguments.mapM current
      emitCall span (make var name arguments)) F.Mine := by
  intro b h
  refine Succeeds.bind (hvar h) ?_
  rintro v b₁ ⟨h₁, hv⟩
  refine Succeeds.bind (hname h₁.inv) ?_
  rintro n b₂ ⟨h₂, hn⟩
  refine Succeeds.bind (mapM_keeps (fun x hx => current_keeps (harguments x hx)) h₂.inv) ?_
  rintro vs b₃ ⟨h₃, hvs⟩
  have hop := hmake ((hv.grows h₂.grows).grows h₃.grows) (hn.grows h₃.grows) hvs
  refine Succeeds.lift ((emitCall_gives h₃.inv hop span).mono ?_)
  exact fun r b₄ ⟨h₄, hr⟩ => ⟨((h₁.trans h₂).trans h₃).trans h₄, hr⟩

theorem new_keeps {cls : Lowering OperandId} {arguments : List (Lowering OperandId)}
    (hcls : Keeps F cls F.Mine) (harguments : ∀ x ∈ arguments, Keeps F x F.Mine) (span : Span) :
    Keeps F (do
      let cls ← cls
      let arguments ← arguments.mapM current
      new cls arguments span) F.Mine := by
  intro b h
  refine Succeeds.bind (hcls h) ?_
  rintro c b₁ ⟨h₁, hc⟩
  refine Succeeds.bind (mapM_keeps (fun x hx => current_keeps (harguments x hx)) h₁.inv) ?_
  rintro vs b₂ ⟨h₂, hvs⟩
  refine Succeeds.lift ((new_gives h₂.inv (hc.grows h₂.grows) hvs span).mono ?_)
  exact fun r b₃ ⟨h₃, hr⟩ => ⟨(h₁.trans h₂).trans h₃, hr⟩

theorem unary_keeps (op : UnaryOp) {arg : Lowering OperandId} (harg : Keeps F arg F.Mine)
    (span : Span) :
    Keeps F (do
      let arg ← current arg
      unary op arg span) F.Mine := by
  intro b h
  refine Succeeds.bind (current_keeps harg h) ?_
  rintro x b₁ ⟨h₁, hx⟩
  refine Succeeds.lift ((unary_gives h₁.inv op hx span).mono ?_)
  exact fun r b₂ ⟨h₂, hr⟩ => ⟨h₁.trans h₂, hr⟩

/-- A call without arguments casts nothing in place. -/
theorem null_targets : Targets F (newOperand .null) := by
  intro b h
  refine Succeeds.lift ((newOperand_gives h .null trivial).mono ?_)
  rintro x b' ⟨h', -, hx, hkind⟩
  refine ⟨{}, h', hx, .inr ⟨rfl, fun name _ => ?_⟩⟩
  rw [(h'.inv.tidy x hx).nameOf?_eq, Base.shortName?, hkind]
  exact (Option.some_ne_none name).symm

mutual

/-- Lowering a plain expression keeps the invariant. -/
theorem expr_keeps : ∀ e : Expr, plainExpr e = true → Keeps F (expr e) F.Mine
  | .mk kind span, h => exprKind_keeps span kind h

theorem exprKind_keeps (span : Span) :
    ∀ kind : ExprKind, plainKind kind = true → Keeps F (exprKind span kind) F.Mine
  | .variable name, _ => variableOperand_keeps name
  | .literal value, _ => literal_keeps value
  | .name name, _ => newString_keeps _
  | .identifier name, _ => newString_keeps name
  | .constFetch name, h => constant_keeps h span
  | .assign var value, h => by
    obtain ⟨hvar, hvalue⟩ := Bool.and_eq_true_iff.1 h
    obtain ⟨name, s, rfl⟩ := isVariable_iff.1 hvar
    exact assign_keeps _ (expr_keeps value hvalue) (write_targets (variableOperand_keeps name)) span
  | .assignOp op var value, h => by
    obtain ⟨hvar, hvalue⟩ := Bool.and_eq_true_iff.1 h
    obtain ⟨name, s, rfl⟩ := isVariable_iff.1 hvar
    exact assignOp_keeps op (variableOperand_keeps name) (expr_keeps value hvalue)
      (write_targets (variableOperand_keeps name)) span
  | .binary op left right, h => by
    obtain ⟨hleft, hright⟩ := Bool.and_eq_true_iff.1 h
    exact binaryStep_keeps op span (spine_keeps left hleft) (expr_keeps right hright)
  | .unary op arg, h => unary_keeps op (expr_keeps arg h) span
  | .incDec increment before var, h => by
    obtain ⟨name, s, rfl⟩ := isVariable_iff.1 (Bool.and_eq_true_iff.1 h).2
    exact incDec_keeps increment before (variableOperand_keeps name)
      (write_targets (variableOperand_keeps name)) span
  | .call name arguments, h => by
    obtain ⟨hname, harguments⟩ := Bool.and_eq_true_iff.1 h
    exact call_keeps (args_keep arguments harguments) (nameSlot_keeps (expr_keeps name hname))
      (firstTarget_targets arguments harguments) span
  | .new cls arguments, h => by
    obtain ⟨hcls, harguments⟩ := Bool.and_eq_true_iff.1 h
    exact new_keeps (nameSlot_keeps (expr_keeps cls hcls)) (args_keep arguments harguments) span
  | .methodCall var name arguments nullsafe, h => by
    obtain ⟨h, harguments⟩ := Bool.and_eq_true_iff.1 h
    obtain ⟨hvar, hname⟩ := Bool.and_eq_true_iff.1 h
    exact methodCall_keeps (current_keeps (expr_keeps var hvar))
      (nameSlot_keeps (expr_keeps name hname)) (args_keep arguments harguments)
      (valueOp_methodCall nullsafe) span
  | .staticCall cls name arguments, h => by
    obtain ⟨h, harguments⟩ := Bool.and_eq_true_iff.1 h
    obtain ⟨hcls, hname⟩ := Bool.and_eq_true_iff.1 h
    exact methodCall_keeps (nameSlot_keeps (expr_keeps cls hcls))
      (nameSlot_keeps (expr_keeps name hname)) (args_keep arguments harguments) valueOp_staticCall
      span
  | .ternary cond ifTrue ifFalse, h => by
    obtain ⟨h, hfalse⟩ := Bool.and_eq_true_iff.1 h
    obtain ⟨hcond, htrue⟩ := Bool.and_eq_true_iff.1 h
    exact ternary_keeps (expr_keeps cond hcond) (option_keeps ifTrue htrue)
      (expr_keeps ifFalse hfalse) span

theorem spine_keeps : ∀ e : Expr, plainExpr e = true → Keeps F (spine e) F.Mine
  | .mk kind span, h => by
    have hkind := current_keeps (exprKind_keeps span kind h)
    cases kind with
    | binary op left right =>
      obtain ⟨hleft, hright⟩ := Bool.and_eq_true_iff.1 h
      exact binaryStep_keeps op span (spine_keeps left hleft) (expr_keeps right hright)
    | _ => exact hkind

theorem option_keeps : ∀ e : Option Expr, plainOption e = true → ∀ x ∈ option e, Keeps F x F.Mine
  | none, _ => nofun
  | some e, h => by
    intro x hx
    cases hx
    exact expr_keeps e h

theorem args_keep : ∀ l : List (Arg Expr), plainArgs l = true → ∀ x ∈ args l, Keeps F x F.Mine
  | [], _ => nofun
  | ⟨value, unpack⟩ :: rest, h => by
    obtain ⟨hvalue, hrest⟩ := Bool.and_eq_true_iff.1 h
    exact List.forall_mem_cons.2 ⟨expr_keeps value hvalue, args_keep rest hrest⟩

theorem firstTarget_targets :
    ∀ l : List (Arg Expr), plainArgs l = true → Targets F (firstTarget l)
  | [], _ => null_targets
  | ⟨value, unpack⟩ :: rest, h => by
    have hvalue := (Bool.and_eq_true_iff.1 h).1
    exact target_targets hvalue (expr_keeps value hvalue)

end

theorem exprs_keep {l : List Expr} (h : plainExprs l = true) : ∀ x ∈ exprs l, Keeps F x F.Mine := by
  induction l with
  | nil => exact nofun
  | cons e rest ih =>
    obtain ⟨he, hrest⟩ := Bool.and_eq_true_iff.1 h
    exact List.forall_mem_cons.2 ⟨expr_keeps e he, ih hrest⟩

/-! ## Statements -/

theorem effect_runs {x : Lowering OperandId} (hx : Keeps F x F.Mine) :
    Runs F (do let _ ← x) := by
  intro b h
  refine Succeeds.bind (hx h) ?_
  exact fun _ b₁ h₁ => Succeeds.pure h₁.1

theorem emitEcho_succeeds {b : Builder} (h : Inv F {} b) {value : OperandId}
    (hvalue : F.Mine b.arena value) (span : Span) :
    Succeeds (do let _ ← emit (.echo value) span) b fun _ b' => After F {} b b' := by
  refine Succeeds.bind (.lift (emitReads_gives h (.echo value) (forall_mem_one.2 ⟨hvalue, rfl⟩) rfl
    nofun nofun span)) ?_
  exact fun _ b₁ h₁ => Succeeds.pure h₁.1

theorem echo_runs {spans : List Span} {values : List (Lowering OperandId)}
    (h : ∀ x ∈ values, Keeps F x F.Mine) :
    Runs F ((spans.zip values).forM fun (span, value) => do
      let value ← current value
      let _ ← emit (.echo value) span) := by
  intro b hb
  refine Succeeds.forM (I := After F {} b) ⟨hb, .refl _⟩ ?_
  rintro ⟨span, value⟩ hm b₁ h₁
  refine Succeeds.bind (current_keeps (h value (List.of_mem_zip hm).2) h₁.inv) ?_
  rintro v b₂ ⟨h₂, hv⟩
  exact (emitEcho_succeeds h₂.inv hv span).mono fun _ b₃ h₃ => (h₁.trans h₂).trans h₃

theorem inlineHtml_runs (text : String) (span : Span) :
    Runs F (do
      let value ← newString text
      let _ ← emit (.echo value) span) := by
  intro b h
  refine Succeeds.bind (newString_keeps text h) ?_
  rintro v b₁ ⟨h₁, hv⟩
  exact (emitEcho_succeeds h₁.inv hv span).mono fun _ b₂ h₂ => h₁.trans h₂

theorem returns_runs {arg : Option (Lowering OperandId)} (harg : ∀ x ∈ arg, Keeps F x F.Mine)
    (span : Span) :
    Runs F (do
      let value ← arg.mapM current
      let _ ← emit (.returns value) span
      goDead) := by
  intro b h
  refine Succeeds.bind (optional_keeps harg h) ?_
  rintro value b₁ ⟨h₁, hvalue⟩
  refine Succeeds.bind (.lift (emitReads_gives h₁.inv (.returns value)
    (forall_mem_optional.2 fun x hx => ⟨hvalue x hx, rfl⟩) rfl nofun nofun span)) ?_
  rintro _ b₂ ⟨h₂, -⟩
  exact Succeeds.lift ((goDead_gives h₂.inv).mono fun _ b₃ h₃ => (h₁.trans h₂).trans h₃)

/-- An element of a loop over a value is assigned to a variable. -/
theorem element_succeeds {dest : Lowering OperandId} (hdest : Targets F dest) (byRef : Bool)
    (span : Span) {b : Builder} (h : Inv F {} b) (value : OperandId)
    (hvalue : F.Mine b.arena value) :
    Succeeds (do
      let var ← dest
      let _ ← emitValue span fun result =>
        if byRef then .assignRef var value result else .assign var value result) b
      fun _ b' => After F {} b b' := by
  refine Succeeds.bind (hdest h) ?_
  rintro t b₁ ⟨D, h₁, ht, htakes⟩
  refine Succeeds.bind (.lift (emitAssign_gives h₁.inv htakes ht (hvalue.grows h₁.grows) ?_ span)) ?_
  · cases byRef
    · exact .inl rfl
    · exact .inr rfl
  · exact fun _ b₂ ⟨h₂, _⟩ => Succeeds.pure (h₁.trans h₂)

theorem variable_targets {e : Expr} (h : isVariable e = true) : Targets F (target e) := by
  obtain ⟨name, span, rfl⟩ := isVariable_iff.1 h
  exact write_targets (variableOperand_keeps name)

theorem keyTarget_targets {key : Option Expr} (h : key.all isVariable = true) :
    ∀ k ∈ keyTarget key, Targets F k.2 := by
  cases key with
  | none => exact nofun
  | some e =>
    rintro k hk
    cases hk
    exact variable_targets h

theorem current_stays (value : Literal) : Stays F (current (literal value)) := by
  intro b h
  obtain ⟨c, hc⟩ : ∃ c, literal value = newOperand (.scalar c) := by cases value <;> exact ⟨_, rfl⟩
  rw [hc]
  refine Succeeds.bind (.lift (newOperand_gives h (.scalar c) trivial)) ?_
  rintro x b₁ ⟨h₁, hs₁, hx, -⟩
  refine Succeeds.lift ((readVariable_gives h₁.inv hx).mono ?_)
  rintro y b₂ ⟨h₂, hs₂, hy, -⟩
  exact ⟨h₁.trans h₂, hs₂.block.trans hs₁.block, hy⟩

theorem jumpTable_stays {choices : List (Case Expr Stmt)} (h : isJumpTable choices = true) :
    ∀ c ∈ cases choices, ∀ x ∈ c.cond, Stays F (current x) := by
  induction choices with
  | nil => exact nofun
  | cons first rest ih =>
    obtain ⟨cond, body, span⟩ := first
    obtain ⟨hcond, hrest⟩ := Bool.and_eq_true_iff.1 h
    refine List.forall_mem_cons.2 ⟨?_, ih hrest⟩
    intro x hx
    match cond, hcond, hx with
    | some (.mk (.literal value) s), _, hx =>
      cases hx
      exact current_stays value

mutual

/-- Lowering a plain statement keeps the invariant. -/
theorem stmt_runs : ∀ s : Stmt, plainStmt s = true → Runs F (stmt s)
  | .mk kind span, h => stmtKind_runs span kind h

theorem stmtKind_runs (span : Span) :
    ∀ kind : StmtKind, plainStmtKind kind = true → Runs F (stmtKind span kind)
  | .expr arg, h => effect_runs (expr_keeps arg h)
  | .echo values, h => echo_runs (exprs_keep h)
  | .inlineHtml text, _ => inlineHtml_runs text span
  | .returns arg, h => returns_runs (option_keeps arg h) span
  | .ifElse cond thenBody further elseBody, h => by
    obtain ⟨h, helse⟩ := Bool.and_eq_true_iff.1 h
    obtain ⟨h, hfurther⟩ := Bool.and_eq_true_iff.1 h
    obtain ⟨hcond, hthen⟩ := Bool.and_eq_true_iff.1 h
    exact ifElse_runs (expr_keeps cond hcond) (inOrder_runs (stmts_run thenBody hthen))
      (elseIfs_run further hfurther) (blockOption_runs elseBody helse) span
  | .whileLoop cond inside, h => by
    obtain ⟨hcond, hinside⟩ := Bool.and_eq_true_iff.1 h
    exact loop_runs (current_keeps (expr_keeps cond hcond))
      (inOrder_runs (stmts_run inside hinside)) span
  | .doWhile inside cond, h => by
    obtain ⟨hcond, hinside⟩ := Bool.and_eq_true_iff.1 h
    exact doWhile_runs (inOrder_runs (stmts_run inside hinside)) (expr_keeps cond hcond) span
  | .forLoop init cond step inside, h => by
    obtain ⟨h, hinside⟩ := Bool.and_eq_true_iff.1 h
    obtain ⟨h, hstep⟩ := Bool.and_eq_true_iff.1 h
    obtain ⟨hinit, hcond⟩ := Bool.and_eq_true_iff.1 h
    exact forLoop_runs (exprs_keep hinit) (exprs_keep hcond) (exprs_keep hstep)
      (inOrder_runs (stmts_run inside hinside)) span
  | .foreach subject key dest byRef inside, h => by
    obtain ⟨h, hinside⟩ := Bool.and_eq_true_iff.1 h
    obtain ⟨h, hdest⟩ := Bool.and_eq_true_iff.1 h
    obtain ⟨hsubject, hkey⟩ := Bool.and_eq_true_iff.1 h
    obtain ⟨name, s, rfl⟩ := isVariable_iff.1 hdest
    exact foreach_runs (expr_keeps subject hsubject) (keyTarget_targets hkey)
      (fun b hb v hv => element_succeeds (variable_targets hdest) byRef s hb v hv)
      (inOrder_runs (stmts_run inside hinside)) byRef s span
  | .switch subject choices, h => by
    obtain ⟨hsubject, hchoices⟩ := Bool.and_eq_true_iff.1 h
    exact switch_runs (expr_keeps subject hsubject) (cases_run choices hchoices)
      jumpTable_stays span
  | .goto name, _ => goto_runs name span
  | .label name, _ => fun _ h => Succeeds.lift (label_gives name span h)
  | .block inside, h => inOrder_runs (stmts_run inside h)
  | .nop, _ => fun _ h => Succeeds.pure ⟨h, .refl _⟩

theorem stmts_run : ∀ l : List Stmt, plainStmts l = true → ∀ x ∈ stmts l, Runs F x
  | [], _ => nofun
  | s :: rest, h => by
    obtain ⟨hs, hrest⟩ := Bool.and_eq_true_iff.1 h
    exact List.forall_mem_cons.2 ⟨stmt_runs s hs, stmts_run rest hrest⟩

theorem blockOption_runs :
    ∀ l : Option (List Stmt), plainBlock l = true → ∀ x ∈ blockOption l, Runs F x
  | none, _ => nofun
  | some inside, h => by
    intro x hx
    cases hx
    exact inOrder_runs (stmts_run inside h)

theorem elseIfs_run : ∀ l : List (ElseIf Expr Stmt), plainElseIfs l = true →
    ∀ e ∈ elseIfs l, Keeps F e.cond F.Mine ∧ ∀ x ∈ e.body, Runs F x
  | [], _ => nofun
  | ⟨cond, inside, span⟩ :: rest, h => by
    obtain ⟨h, hrest⟩ := Bool.and_eq_true_iff.1 h
    obtain ⟨hcond, hinside⟩ := Bool.and_eq_true_iff.1 h
    exact List.forall_mem_cons.2
      ⟨⟨expr_keeps cond hcond, stmts_run inside hinside⟩, elseIfs_run rest hrest⟩

theorem cases_run : ∀ l : List (Case Expr Stmt), plainCases l = true → CasesRun F (cases l)
  | [], _ => nofun
  | ⟨cond, inside, span⟩ :: rest, h => by
    obtain ⟨h, hrest⟩ := Bool.and_eq_true_iff.1 h
    obtain ⟨hcond, hinside⟩ := Bool.and_eq_true_iff.1 h
    exact List.forall_mem_cons.2
      ⟨⟨option_keeps cond hcond, stmts_run inside hinside⟩, cases_run rest hrest⟩

end

end QueryTaint.Lower
