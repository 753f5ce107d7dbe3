import QueryTaint.Lower.Tree
import QueryTaint.Proofs.Flow.Body
import QueryTaint.Proofs.Lower.Total
import QueryTaint.Proofs.Prepass.Loop
import QueryTaint.Proofs.Prepass.Magic
import QueryTaint.Proofs.Syntax.Jump

/-!
# Trees without `break` and `continue` are lowered

By induction over the parts of a tree, lowering what contains no `break` and no `continue` never fails
(`succeeds_of_exitFree`): every step that lowers a form of expression or statement lowers some of its
parts, in which there is none either.
-/

namespace QueryTaint.Lower

/-- All ways of lowering an expression never fail. -/
structure ExprSucceeds (e : Expr) : Prop where
  operand : Total (expr e)
  spine : Total (spine e)
  target : Total (target e)
  slot : Total (nameSlot e)
  pattern : ∀ {items isList inner}, e = .mk (.array items isList) inner →
    ∀ span value position, Total (destructure span value position items)

/-- Lowering what stands in a part never fails. -/
def PartSucceeds : Part → Prop
  | .expr e => ExprSucceeds e
  | .body statements => ∀ x ∈ stmts statements, Total x

/-! ## Lists of parts -/

theorem exprs_succeed {es : List Expr} (h : ∀ p ∈ exprParts es, PartSucceeds p) :
    ∀ x ∈ exprs es, Total x := by
  induction es with
  | nil => exact List.forall_mem_nil _
  | cons e rest ih =>
    obtain ⟨he, hrest⟩ := List.forall_mem_cons.1 h
    exact List.forall_mem_cons.2 ⟨he.operand, ih hrest⟩

theorem option_succeeds {e : Option Expr} (h : ∀ p ∈ optionParts e, PartSucceeds p) :
    ∀ x ∈ option e, Total x := by
  cases e with
  | none => exact nofun
  | some e =>
    rintro _ ⟨⟩
    exact (h _ List.mem_cons_self).operand

theorem keyTarget_succeeds {key : Option Expr} (h : ∀ p ∈ optionParts key, PartSucceeds p) :
    ∀ k ∈ keyTarget key, Total k.2 := by
  cases key with
  | none => exact nofun
  | some e =>
    rintro _ ⟨⟩
    exact (h _ List.mem_cons_self).target

theorem args_succeed {arguments : List (Arg Expr)} (h : ∀ p ∈ argParts arguments, PartSucceeds p) :
    (∀ x ∈ args arguments, Total x) ∧ Total (firstTarget arguments) := by
  induction arguments with
  | nil => exact ⟨nofun, .lift _⟩
  | cons arg rest ih =>
    obtain ⟨value, unpack⟩ := arg
    obtain ⟨hvalue, hrest⟩ := List.forall_mem_cons.1 h
    exact ⟨List.forall_mem_cons.2 ⟨hvalue.operand, (ih hrest).1⟩, hvalue.target⟩

theorem items_succeed {elements : List (ArrayItem Expr)} (h : ∀ p ∈ itemParts elements, PartSucceeds p) :
    ∀ item ∈ items elements, (∀ x ∈ item.key, Total x) ∧ ∀ x ∈ item.value, Total x := by
  induction elements with
  | nil => exact List.forall_mem_nil _
  | cons item rest ih =>
    obtain ⟨key, value, byRef, unpack⟩ := item
    obtain ⟨hitem, hrest⟩ := List.forall_mem_append.1 h
    obtain ⟨hkey, hvalue⟩ := List.forall_mem_append.1 hitem
    exact List.forall_mem_cons.2 ⟨⟨option_succeeds hkey, option_succeeds hvalue⟩, ih hrest⟩

theorem params_succeed {parameters : List (Param Expr)}
    (h : ∀ p ∈ paramParts parameters, PartSucceeds p) :
    ∀ p ∈ params parameters, ∀ x ∈ p.default, Total x := by
  induction parameters with
  | nil => exact List.forall_mem_nil _
  | cons param rest ih =>
    obtain ⟨hparam, hrest⟩ := List.forall_mem_append.1 h
    exact List.forall_mem_cons.2 ⟨option_succeeds hparam, ih hrest⟩

theorem declared_succeed {vars : List (Declared Expr)} (h : ∀ p ∈ declaredParts vars, PartSucceeds p) :
    ∀ d ∈ declared vars, ∀ x ∈ d.default, Total x := by
  induction vars with
  | nil => exact List.forall_mem_nil _
  | cons var rest ih =>
    obtain ⟨hvar, hrest⟩ := List.forall_mem_append.1 h
    exact List.forall_mem_cons.2 ⟨option_succeeds hvar, ih hrest⟩

theorem constants_succeed {decls : List (ConstDecl Expr)} (h : ∀ p ∈ constParts decls, PartSucceeds p) :
    ∀ c ∈ constants decls, Total c.value := by
  induction decls with
  | nil => exact List.forall_mem_nil _
  | cons decl rest ih =>
    obtain ⟨hdecl, hrest⟩ := List.forall_mem_cons.1 h
    exact List.forall_mem_cons.2 ⟨hdecl.operand, ih hrest⟩

theorem blockOption_succeeds {body : Option (List Stmt)} (h : ∀ p ∈ bodyParts body, PartSucceeds p) :
    ∀ x ∈ blockOption body, Total x := by
  cases body with
  | none => exact nofun
  | some body =>
    rintro _ ⟨⟩
    exact inOrder_total (h _ List.mem_cons_self)

theorem optionalStmts_succeed {body : Option (List Stmt)} (h : ∀ p ∈ bodyParts body, PartSucceeds p) :
    ∀ x ∈ optionalStmts body, Total x := by
  cases body with
  | none => exact nofun
  | some body => exact h _ List.mem_cons_self

theorem elseIfs_succeed {further : List (ElseIf Expr Stmt)}
    (h : ∀ p ∈ elseIfParts further, PartSucceeds p) :
    ∀ e ∈ elseIfs further, Total e.cond ∧ ∀ x ∈ e.body, Total x := by
  induction further with
  | nil => exact List.forall_mem_nil _
  | cons next rest ih =>
    obtain ⟨hcond, h⟩ := List.forall_mem_cons.1 h
    obtain ⟨hbody, hrest⟩ := List.forall_mem_cons.1 h
    exact List.forall_mem_cons.2 ⟨⟨hcond.operand, hbody⟩, ih hrest⟩

theorem cases_succeed {choices : List (Case Expr Stmt)} (h : ∀ p ∈ caseParts choices, PartSucceeds p) :
    ∀ c ∈ cases choices, (∀ x ∈ c.cond, Total x) ∧ ∀ x ∈ c.body, Total x := by
  induction choices with
  | nil => exact List.forall_mem_nil _
  | cons case rest ih =>
    obtain ⟨hcase, hrest⟩ := List.forall_mem_append.1 h
    obtain ⟨hcond, hbody⟩ := List.forall_mem_append.1 hcase
    exact List.forall_mem_cons.2
      ⟨⟨option_succeeds hcond, hbody _ List.mem_cons_self⟩, ih hrest⟩

theorem catches_succeed {handlers : List (Catch Stmt)} (h : ∀ p ∈ catchParts handlers, PartSucceeds p) :
    ∀ c ∈ catches handlers, ∀ x ∈ c.body, Total x := by
  induction handlers with
  | nil => exact List.forall_mem_nil _
  | cons handler rest ih =>
    obtain ⟨hbody, hrest⟩ := List.forall_mem_cons.1 h
    exact List.forall_mem_cons.2 ⟨hbody, ih hrest⟩

/-- A pattern takes the elements that its items stand for. -/
theorem destructure_succeeds {pattern : List (ArrayItem Expr)}
    (h : ∀ p ∈ itemParts pattern, PartSucceeds p) (span : Span) (value : OperandId) (position : Nat) :
    Total (destructure span value position pattern) := by
  induction pattern generalizing position with
  | nil => exact .pure _
  | cons item rest ih =>
    obtain ⟨key, dest, byRef, unpack⟩ := item
    obtain ⟨hitem, hrest⟩ := List.forall_mem_append.1 h
    obtain ⟨hkey, hdest⟩ := List.forall_mem_append.1 hitem
    have hkey := option_succeeds hkey
    match dest, hdest with
    | none, _ => exact ih hrest _
    | some (.mk kind inner), hdest =>
      have hdest : ExprSucceeds (.mk kind inner) := hdest _ List.mem_cons_self
      have hleaf (hkind : ∀ nested short, kind ≠ .array nested short) :
          Total (destructure span value position
            (⟨key, some (.mk kind inner), byRef, unpack⟩ :: rest)) := by
        rw [destructure_target hkind]
        exact .bind (elementIndex_total hkey position) fun _ => .build fun _ =>
          .bind hdest.target fun _ => .build fun _ => ih hrest _
      cases kind with
      | array nested isList =>
        exact .bind (elementIndex_total hkey position) fun _ => .build fun _ =>
          .bind (hdest.pattern rfl _ _ _) fun _ => ih hrest _
      | _ => exact hleaf (by rintro nested short ⟨⟩)

/-! ## Expressions -/

theorem binaryStep_total (op : BinaryOp) {left right : Lowering OperandId} (hleft : Total left)
    (hright : Total right) (span : Span) :
    Total (do
      let left ← left
      let right ← current right
      readVariable (← binary op left right span)) :=
  .bind hleft fun _ => .bind (current_total hright) fun _ => .build fun _ => .lift _

theorem exprKind_total (span : Span) {kind : ExprKind} (h : ∀ p ∈ kind.parts, PartSucceeds p) :
    Total (exprKind span kind) := by
  cases kind with
  | «variable» name => exact .lift _
  | dynamicVariable name =>
    obtain ⟨hname, -⟩ := List.forall_mem_cons.1 h
    exact .bind (current_total hname.operand) fun _ => .lift _
  | literal value => exact .lift _
  | interpolated parts => exact .bind (currents_total (exprs_succeed h)) fun _ => .lift _
  | constFetch name => exact .lift _
  | magicConst constant => exact .lift _
  | name name => exact .lift _
  | identifier name => exact .lift _
  | array elements isList => exact array_total (items_succeed h) span
  | element var dim =>
    obtain ⟨hvar, hdim⟩ := List.forall_mem_cons.1 h
    exact .bind (current_total hvar.operand) fun _ => .bind (optional_total (option_succeeds hdim))
      fun _ => .lift _
  | property var name nullsafe =>
    obtain ⟨hvar, h⟩ := List.forall_mem_cons.1 h
    obtain ⟨hname, -⟩ := List.forall_mem_cons.1 h
    exact property_total hvar.operand hname.slot span
  | staticProperty cls name =>
    obtain ⟨hcls, h⟩ := List.forall_mem_cons.1 h
    obtain ⟨hname, -⟩ := List.forall_mem_cons.1 h
    exact .bind hcls.slot fun _ => .bind hname.slot fun _ => .lift _
  | classConst cls name =>
    obtain ⟨hcls, -⟩ := List.forall_mem_cons.1 h
    exact .bind hcls.slot fun _ => .lift _
  | assign var value =>
    obtain ⟨hvar, h⟩ := List.forall_mem_cons.1 h
    obtain ⟨hvalue, -⟩ := List.forall_mem_cons.1 h
    obtain ⟨kind, inner⟩ := var
    cases kind with
    | array pattern isList =>
      exact .bind (current_total hvalue.operand) fun _ => .bind (hvar.pattern rfl _ _ _)
        fun _ => .pure _
    | _ => exact assign_total _ hvalue.operand hvar.target span
  | assignRef var value =>
    obtain ⟨hvar, h⟩ := List.forall_mem_cons.1 h
    obtain ⟨hvalue, -⟩ := List.forall_mem_cons.1 h
    exact .bind (current_total hvalue.operand) fun _ => .bind hvar.target fun _ => .lift _
  | assignOp op var value =>
    obtain ⟨hvar, h⟩ := List.forall_mem_cons.1 h
    obtain ⟨hvalue, -⟩ := List.forall_mem_cons.1 h
    exact assignOp_total op hvar.operand hvalue.operand hvar.target span
  | binary op left right =>
    obtain ⟨hleft, h⟩ := List.forall_mem_cons.1 h
    obtain ⟨hright, -⟩ := List.forall_mem_cons.1 h
    exact binaryStep_total op hleft.spine hright.operand span
  | unary op arg =>
    obtain ⟨harg, -⟩ := List.forall_mem_cons.1 h
    exact .bind (current_total harg.operand) fun _ => .lift _
  | cast kind arg =>
    obtain ⟨harg, -⟩ := List.forall_mem_cons.1 h
    exact .bind (current_total harg.operand) fun _ => .lift _
  | incDec increment before var =>
    obtain ⟨hvar, -⟩ := List.forall_mem_cons.1 h
    exact incDec_total increment before hvar.operand hvar.target span
  | call name arguments =>
    obtain ⟨hname, harguments⟩ := List.forall_mem_cons.1 h
    obtain ⟨hargs, hfirst⟩ := args_succeed harguments
    exact call_total hargs hname.slot hfirst span
  | methodCall var name arguments nullsafe =>
    obtain ⟨hvar, h⟩ := List.forall_mem_cons.1 h
    obtain ⟨hname, harguments⟩ := List.forall_mem_cons.1 h
    exact .bind (current_total hvar.operand) fun _ => .bind hname.slot fun _ =>
      .bind (currents_total (args_succeed harguments).1) fun _ => .lift _
  | staticCall cls name arguments =>
    obtain ⟨hcls, h⟩ := List.forall_mem_cons.1 h
    obtain ⟨hname, harguments⟩ := List.forall_mem_cons.1 h
    exact .bind hcls.slot fun _ => .bind hname.slot fun _ =>
      .bind (currents_total (args_succeed harguments).1) fun _ => .lift _
  | new cls arguments =>
    obtain ⟨hcls, harguments⟩ := List.forall_mem_cons.1 h
    exact .bind hcls.slot fun _ => .bind (currents_total (args_succeed harguments).1) fun _ => .lift _
  | closure parameters uses byRef isStatic returnType statements arrow =>
    obtain ⟨hparams, hbody⟩ := List.forall_mem_append.1 h
    exact closure_total (params_succeed hparams) (hbody _ List.mem_cons_self) uses byRef isStatic
      returnType span
  | includeFile kind path =>
    obtain ⟨hpath, -⟩ := List.forall_mem_cons.1 h
    exact includeFile_total kind _ hpath.operand span
  | instanceOf arg cls =>
    obtain ⟨harg, h⟩ := List.forall_mem_cons.1 h
    obtain ⟨hcls, -⟩ := List.forall_mem_cons.1 h
    exact .bind (current_total harg.operand) fun _ => .bind hcls.slot fun _ => .lift _
  | isset vars => exact .bind (currents_total (exprs_succeed h)) fun _ => .lift _
  | exit arg =>
    exact .bind (optional_total (option_succeeds h)) fun _ => .build fun _ => .build fun _ => .lift _
  | errorSuppress arg =>
    obtain ⟨harg, -⟩ := List.forall_mem_cons.1 h
    exact harg.operand
  | ternary cond ifTrue ifFalse =>
    obtain ⟨hcond, h⟩ := List.forall_mem_cons.1 h
    obtain ⟨htrue, hfalse⟩ := List.forall_mem_append.1 h
    exact ternary_total hcond.operand (option_succeeds htrue) (hfalse _ List.mem_cons_self).operand span
  | yield key value =>
    obtain ⟨hkey, hvalue⟩ := List.forall_mem_append.1 h
    exact .bind (optional_total (option_succeeds hkey)) fun _ =>
      .bind (optional_total (option_succeeds hvalue)) fun _ => .lift _
  | yieldFrom arg =>
    obtain ⟨harg, -⟩ := List.forall_mem_cons.1 h
    exact .bind (current_total harg.operand) fun _ => .lift _
  | shellExec parts =>
    exact .bind (currents_total (exprs_succeed h)) fun _ => .build fun _ => .build fun _ => .lift _

theorem succeeds_expr (span : Span) {kind : ExprKind} (h : ∀ p ∈ kind.parts, PartSucceeds p) :
    ExprSucceeds (.mk kind span) := by
  have hkind := exprKind_total span h
  refine ⟨hkind, ?_, ?_, ?_, ?_⟩
  · cases kind with
    | binary op left right => exact hkind
    | _ => exact current_total hkind
  · cases kind with
    | element var dim =>
      obtain ⟨hvar, hdim⟩ := List.forall_mem_cons.1 h
      exact .bind (optional_total (option_succeeds hdim)) fun _ => hvar.target
    | _ => exact .bind hkind fun _ => .lift _
  · cases kind with
    | name name => exact .lift _
    | identifier name => exact .lift _
    | _ => exact current_total hkind
  · rintro items isList inner ⟨⟩
    exact destructure_succeeds h

/-! ## Statements -/

theorem stmtKind_total (span : Span) {kind : StmtKind} (hexit : kind.isExit = false)
    (h : ∀ p ∈ kind.parts, PartSucceeds p) : Total (stmtKind span kind) := by
  cases kind with
  | expr arg =>
    obtain ⟨harg, -⟩ := List.forall_mem_cons.1 h
    exact .bind harg.operand fun _ => .pure _
  | echo values =>
    refine .forM ?_
    rintro ⟨span, value⟩ hmem
    exact .bind (current_total (exprs_succeed h value (List.of_mem_zip hmem).2)) fun _ =>
      .build fun _ => .pure _
  | returns arg =>
    exact .bind (optional_total (option_succeeds h)) fun _ => .build fun _ => .lift _
  | ifElse cond thenBody further elseBody =>
    obtain ⟨hcond, h⟩ := List.forall_mem_cons.1 h
    obtain ⟨hthen, h⟩ := List.forall_mem_cons.1 h
    obtain ⟨hfurther, helse⟩ := List.forall_mem_append.1 h
    exact ifElse_total hcond.operand (inOrder_total hthen) (elseIfs_succeed hfurther)
      (blockOption_succeeds helse) span
  | whileLoop cond body =>
    obtain ⟨hcond, h⟩ := List.forall_mem_cons.1 h
    obtain ⟨hbody, -⟩ := List.forall_mem_cons.1 h
    exact loop_total (current_total hcond.operand) (inOrder_total hbody) span
  | doWhile body cond =>
    obtain ⟨hbody, h⟩ := List.forall_mem_cons.1 h
    obtain ⟨hcond, -⟩ := List.forall_mem_cons.1 h
    exact doWhile_total (inOrder_total hbody) hcond.operand span
  | forLoop init cond step body =>
    obtain ⟨hinit, h⟩ := List.forall_mem_append.1 h
    obtain ⟨hcond, h⟩ := List.forall_mem_append.1 h
    obtain ⟨hstep, hbody⟩ := List.forall_mem_append.1 h
    exact forLoop_total (exprs_succeed hinit) (exprs_succeed hcond) (exprs_succeed hstep)
      (inOrder_total (hbody _ List.mem_cons_self)) span
  | foreach subject key dest byRef body =>
    obtain ⟨hsubject, h⟩ := List.forall_mem_cons.1 h
    obtain ⟨hkey, h⟩ := List.forall_mem_append.1 h
    obtain ⟨hdest, h⟩ := List.forall_mem_cons.1 h
    obtain ⟨hbody, -⟩ := List.forall_mem_cons.1 h
    obtain ⟨kind, inner⟩ := dest
    have hleaf (hkind : ∀ pattern short, kind ≠ .array pattern short) :
        Total (stmtKind span (.foreach subject key (.mk kind inner) byRef body)) := by
      rw [foreach_target hkind]
      exact foreach_total hsubject.operand (keyTarget_succeeds hkey)
        (fun _ => .bind hdest.target fun _ => .build fun _ => .pure _) (inOrder_total hbody)
        byRef inner span
    cases kind with
    | array pattern isList =>
      exact foreach_total hsubject.operand (keyTarget_succeeds hkey)
        (fun _ => hdest.pattern rfl _ _ _) (inOrder_total hbody) byRef inner span
    | _ => exact hleaf (by rintro pattern short ⟨⟩)
  | switch subject choices =>
    obtain ⟨hsubject, hcases⟩ := List.forall_mem_cons.1 h
    exact switch_total hsubject.operand (cases_succeed hcases) span
  | breakLoop level => cases hexit
  | continueLoop level => cases hexit
  | goto label => exact goto_total label span
  | label name => exact .lift _
  | tryCatch body catches finish =>
    obtain ⟨hbody, h⟩ := List.forall_mem_cons.1 h
    obtain ⟨hcatches, hfinish⟩ := List.forall_mem_append.1 h
    exact tryCatch_total (inOrder_total hbody) (catches_succeed hcatches) (blockOption_succeeds hfinish)
  | throws arg =>
    obtain ⟨harg, -⟩ := List.forall_mem_cons.1 h
    exact .bind (current_total harg.operand) fun _ => .build fun _ => .lift _
  | global vars =>
    refine .forM ?_
    rintro ⟨span, var⟩ hmem
    exact .bind (exprs_succeed h var (List.of_mem_zip hmem).2) fun _ => .build fun _ =>
      .build fun _ => .pure _
  | static vars => exact .forM fun v hv => staticVar_total (declared_succeed h v hv)
  | unset vars =>
    exact .bind (unset_total fun v hv => exprs_succeed h v.2 (List.of_mem_zip hv).2) fun _ =>
      .build fun _ => .pure _
  | function name parameters byRef returnType body =>
    obtain ⟨hparams, hbody⟩ := List.forall_mem_append.1 h
    exact function_total (params_succeed hparams) (hbody _ List.mem_cons_self) _ byRef returnType span
  | classDecl kind name modifiers parent implements body =>
    exact classDecl_total (h _ List.mem_cons_self) kind _ modifiers parent implements span
  | method name modifiers parameters byRef returnType body =>
    obtain ⟨hparams, hbody⟩ := List.forall_mem_append.1 h
    exact method_total (params_succeed hparams) (optionalStmts_succeed hbody) name modifiers byRef
      returnType span
  | properties modifiers type props =>
    exact .forM fun p hp => propertyDecl_total (declared_succeed h p hp) modifiers _
  | classConsts decls => exact .forM fun c hc => constDecl_total (constants_succeed h c hc) true
  | consts decls => exact .forM fun c hc => constDecl_total (constants_succeed h c hc) false
  | traitUse traits adaptations =>
    exact .bind (.mapM fun _ _ => .lift _) fun _ => .build fun _ => .pure _
  | namespaceDecl name body => exact inOrder_total (optionalStmts_succeed h)
  | useDecl kind stem uses => exact .pure _
  | inlineHtml text => exact .build fun _ => .build fun _ => .pure _
  | block body => exact inOrder_total (h _ List.mem_cons_self)
  | nop => exact .pure _

/-- Lowering a part without `break` and `continue` never fails. -/
theorem succeeds_of_exitFree {p : Part} (h : p.ExitFree) : PartSucceeds p := by
  induction h with
  | expr _ ih => exact succeeds_expr _ ih
  | nil => exact List.forall_mem_nil _
  | cons hexit _ _ ih ihrest => exact List.forall_mem_cons.2 ⟨stmtKind_total _ hexit ih, ihrest⟩

end QueryTaint.Lower

/-!
## Prepared trees are lowered

The passes fail where a `break` or a `continue` leads nowhere or a relative class name has no class.
A tree that goes through all of them is lowered (`lowerFile_prepared`), since no `break` and no
`continue` is left in it.
-/

namespace QueryTaint

/-- What all passes make of a tree contains no `break` and no `continue`. -/
theorem Prepass.prepare_exitFree {path : String} {stmts out : List Stmt} {labels : Labels}
    (h : prepare path stmts = .ok (out, labels)) : (Part.body out).ExitFree := by
  rw [prepare] at h
  match hloop : loopPass path (namePass stmts) with
  | .error e =>
    rw [hloop] at h
    cases h
  | .ok (resolved, made) =>
    rw [hloop] at h
    replace h : (do return (← magicPass path resolved, made)) = Except.ok (out, labels) := h
    match hmagic : magicPass path resolved with
    | .error e =>
      rw [hmagic] at h
      cases h
    | .ok replaced =>
      rw [hmagic] at h
      cases h
      exact magicPass_exitFree (loopPass_exitFree hloop) hmagic

/-- A tree that went through all passes is lowered into any arena. -/
theorem lowerFile_prepared {path : String} {stmts out : List Stmt} {labels : Labels}
    (h : Prepass.prepare path stmts = .ok (out, labels)) (arena : Arena) :
    ∃ script, (lowerFile arena path labels out).1 = .ok script := by
  have hsteps : ∀ x ∈ Lower.stmts out, Lower.Total x :=
    Lower.succeeds_of_exitFree (Prepass.prepare_exitFree h)
  have hparams : ∀ p ∈ ([] : List (Param (Lower.Lowering OperandId))), ∀ x ∈ p.default,
      Lower.Total x := nofun
  obtain ⟨_, b, hrun⟩ := Lower.body_total hparams hsteps
    (Lower.Builder.start arena path labels).func [] (Lower.Builder.start arena path labels)
  refine ⟨b.script, ?_⟩
  rw [lowerFile, hrun]
  rfl

theorem lowerFile_prepared_nestedJumps : ∃ out labels,
    Prepass.prepare "page.php" Prepass.nestedJumps = .ok (out, labels) ∧
      ∃ script, (lowerFile {} "page.php" labels out).1 = .ok script := by
  have hok : (Prepass.prepare "page.php" Prepass.nestedJumps).isOk = true := rfl
  match h : Prepass.prepare "page.php" Prepass.nestedJumps with
  | .ok (out, labels) => exact ⟨out, labels, rfl, lowerFile_prepared h {}⟩
  | .error e =>
    rw [h] at hok
    cases hok

end QueryTaint
