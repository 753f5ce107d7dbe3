import QueryTaint.Lower.Tree
import QueryTaint.Proofs.Flow.Body
import QueryTaint.Proofs.Relabel.Declare

/-!
# Lowering syntax trees into different arenas

By one induction over expressions and statements, lowering any syntax tree does the same in different
arenas (`expr_rebuilds`, `stmt_repeats`).
-/

namespace QueryTaint.Lower

variable {g : Graft} {n : Nat}

/-! ## Expressions -/

theorem binaryStep_rebuilds (op : BinaryOp) {left right : Lowering OperandId}
    (hleft : Rebuilds g left) (hright : Rebuilds g right) (span : Span) :
    Rebuilds g (do
      let left ← left
      let right ← current right
      readVariable (← binary op left right span)) := fun n =>
  .bind (hleft n) fun left => .bind (current_rebuilds hright n) fun right =>
    .bind (.lift (binary_mirrors op left right span)) fun result =>
    .lift (readVariable_mirrors result)

theorem write_rebuilds {x : Lowering OperandId} (hx : Rebuilds g x) :
    Rebuilds g (do writeVariable (← x)) := fun n =>
  .bind (hx n) fun y => .lift (writeVariable_mirrors y)

/-! ## Statements -/

theorem echo_repeats {spans : List Span} {values : List (Lowering OperandId)}
    (h : ∀ x ∈ values, Rebuilds g x) :
    Repeats g ((spans.zip values).forM fun (span, value) => do
      let value ← current value
      let _ ← emit (.echo value) span) := fun n =>
  .forM_same fun y hy => .bind (current_rebuilds (h y.2 (List.of_mem_zip hy).2) n) fun _ =>
    .bind (.lift (emit_mirrors _ rfl y.1)) fun _ => .pure rfl

theorem global_repeats {spans : List Span} {vars : List (Lowering OperandId)}
    (h : ∀ x ∈ vars, Rebuilds g x) :
    Repeats g ((spans.zip vars).forM fun (span, var) => do
      let value ← writeVariable (← var)
      let _ ← emit (.globalVar value) span) := fun n =>
  .forM_same fun y hy => .bind (h y.2 (List.of_mem_zip hy).2 n) fun x =>
    .bind (.lift (writeVariable_mirrors x)) fun _ =>
    .bind (.lift (emit_mirrors _ rfl y.1)) fun _ => .pure rfl

theorem all_repeat {α : Type} {l : List α} {step : α → Lowering Unit}
    (h : ∀ x ∈ l, Repeats g (step x)) : Repeats g (l.forM step) := fun n =>
  .forM_same fun x hx => h x hx n

theorem element_follows {dest : Lowering OperandId} (hdest : Rebuilds g dest) (byRef : Bool)
    (span : Span) (value : OperandId) :
    Follows g n id
      (do
        let var ← dest
        let _ ← emitValue span fun result =>
          if byRef then .assignRef var value result else .assign var value result)
      (do
        let var ← dest
        let _ ← emitValue span fun result =>
          if byRef then .assignRef var (g.operand value) result
          else .assign var (g.operand value) result) := by
  refine .bind (hdest n) fun _ => .bind (.lift (emitValue_mirrors (fun _ => ?_) span)) fun _ =>
    .pure rfl
  cases byRef <;> rfl

/-- An element of a value is assigned to a target that is no pattern, and the rest goes on. -/
theorem destructureTarget_follows {kind : ExprKind}
    (hkind : ∀ pattern short, kind ≠ .array pattern short) (span : Span) {inner : Span}
    (value : OperandId) (position : Nat) {key : Option Expr} (byRef unpack : Bool)
    {rest : List (ArrayItem Expr)} (hkey : ∀ x ∈ option key, Rebuilds g x)
    (htarget : Rebuilds g (target (.mk kind inner)))
    (hrest : ∀ position, Follows g n id (destructure span value position rest)
      (destructure span (g.operand value) position rest)) :
    Follows g n id
      (destructure span value position (⟨key, some (.mk kind inner), byRef, unpack⟩ :: rest))
      (destructure span (g.operand value) position
        (⟨key, some (.mk kind inner), byRef, unpack⟩ :: rest)) := by
  rw [destructure_target hkind, destructure_target hkind]
  exact .bind (elementIndex_follows position hkey) fun _ =>
    .bind (.lift (emitValue_mirrors (fun _ => rfl) inner)) fun _ =>
    .bind (htarget n) fun _ => .bind (.lift (emitValue_mirrors (fun _ => rfl) span)) fun _ => hrest _

theorem foreachTarget_repeats {kind : ExprKind}
    (hkind : ∀ pattern short, kind ≠ .array pattern short) (span : Span) {inner : Span}
    {subject : Expr} {key : Option Expr} (byRef : Bool) {inside : List Stmt}
    (hsubject : Rebuilds g (expr subject)) (hkey : ∀ k ∈ keyTarget key, Rebuilds g k.2)
    (htarget : Rebuilds g (target (.mk kind inner))) (hinside : Repeats g (inOrder (stmts inside))) :
    Repeats g (stmtKind span (.foreach subject key (.mk kind inner) byRef inside)) := by
  rw [foreach_target hkind]
  exact foreach_repeats hsubject hkey (fun _ value => element_follows htarget byRef inner value)
    hinside span

/-- A body ends with an operation, and what follows is dead. -/
theorem endHere_follows (kind : OpKind) {kind' : OpKind} (h : kind' = kind.relabel g.toRelabel)
    (span : Span) :
    Follows g n id
      (do
        let _ ← emit kind span
        goDead : Lowering Unit)
      (do
        let _ ← emit kind' span
        goDead : Lowering Unit) :=
  .bind (.lift (emit_mirrors kind h span)) fun _ => .lift goDead_mirrors

/-! ## All syntax trees -/

mutual

/-- Lowering an expression does the same in different arenas. -/
theorem expr_rebuilds : ∀ e : Expr, Rebuilds g (expr e)
  | .mk kind span => exprKind_rebuilds span kind

theorem exprKind_rebuilds (span : Span) : ∀ kind : ExprKind, Rebuilds g (exprKind span kind)
  | .variable name => fun _ => .lift (variableOperand_mirrors name)
  | .dynamicVariable name => fun n =>
    .bind (current_rebuilds (expr_rebuilds name) n) fun _ => .lift (newOperand_mirrors _ rfl)
  | .literal value => fun _ => .lift (literal_mirrors value)
  | .interpolated parts => fun _ =>
    .bind (currents_follows (exprs_rebuild parts)) fun _ =>
      .lift (emitValue_mirrors (fun _ => rfl) span)
  | .constFetch name => fun _ => .lift (constant_mirrors name span)
  | .magicConst _ => fun _ => .lift (newString_mirrors "")
  | .name name => fun _ => .lift (newString_mirrors name.joined)
  | .identifier name => fun _ => .lift (newString_mirrors name)
  | .array elements _ => array_rebuilds (items_rebuild elements) span
  | .element var dim => fun n =>
    .bind (current_rebuilds (expr_rebuilds var) n) fun _ =>
      .bind (optional_follows (option_rebuild dim)) fun _ =>
      .lift (emitValue_mirrors (fun _ => rfl) span)
  | .property var name _ => property_rebuilds (expr_rebuilds var) (nameSlot_rebuilds name) span
  | .staticProperty cls name => fun n =>
    .bind (nameSlot_rebuilds cls n) fun _ => .bind (nameSlot_rebuilds name n) fun _ =>
      .lift (staticProperty_mirrors _ _ span)
  | .classConst cls name => fun n =>
    .bind (nameSlot_rebuilds cls n) fun _ => .lift (classConstant_mirrors _ name span)
  | .assign (.mk kind s) value => by
    have hvalue := expr_rebuilds value
    cases kind with
    | array pattern short =>
      exact fun n => .bind (current_rebuilds hvalue n) fun v =>
        .bind (destructure_follows span v 0 pattern) fun _ => .pure rfl
    | _ => exact assign_rebuilds _ hvalue (target_rebuilds (.mk _ s)) span
  | .assignRef var value => fun n =>
    .bind (current_rebuilds (expr_rebuilds value) n) fun _ => .bind (target_rebuilds var n) fun _ =>
      .lift (emitValue_mirrors (fun _ => rfl) span)
  | .assignOp op var value =>
    assignOp_rebuilds op (expr_rebuilds var) (expr_rebuilds value) (target_rebuilds var) span
  | .binary op left right => binaryStep_rebuilds op (spine_rebuilds left) (expr_rebuilds right) span
  | .unary op arg => fun n =>
    .bind (current_rebuilds (expr_rebuilds arg) n) fun x => .lift (unary_mirrors op x span)
  | .cast kind arg => fun n =>
    .bind (current_rebuilds (expr_rebuilds arg) n) fun _ =>
      .lift (emitValue_mirrors (fun _ => rfl) span)
  | .incDec increment before var =>
    incDec_rebuilds increment before (expr_rebuilds var) (target_rebuilds var) span
  | .call name arguments =>
    call_rebuilds (args_rebuild arguments) (nameSlot_rebuilds name) (firstTarget_rebuilds arguments)
      span
  | .methodCall var name arguments nullsafe => fun n =>
    .bind (current_rebuilds (expr_rebuilds var) n) fun _ => .bind (nameSlot_rebuilds name n) fun _ =>
      .bind (currents_follows (args_rebuild arguments)) fun _ =>
      .lift (emitCall_mirrors (fun _ => rfl) span)
  | .staticCall cls name arguments => fun n =>
    .bind (nameSlot_rebuilds cls n) fun _ => .bind (nameSlot_rebuilds name n) fun _ =>
      .bind (currents_follows (args_rebuild arguments)) fun _ =>
      .lift (emitCall_mirrors (fun _ => rfl) span)
  | .new cls arguments => fun n =>
    .bind (nameSlot_rebuilds cls n) fun cls =>
      .bind (currents_follows (args_rebuild arguments)) fun args => .lift (new_mirrors cls args span)
  | .closure parameters uses byRef isStatic returnType statements _ =>
    closure_rebuilds (params_rebuild parameters) uses byRef isStatic returnType
      (stmts_repeat statements) span
  | .includeFile kind path => includeFile_rebuilds kind _ (expr_rebuilds path) span
  | .instanceOf arg cls => fun n =>
    .bind (current_rebuilds (expr_rebuilds arg) n) fun arg => .bind (nameSlot_rebuilds cls n)
      fun cls => .lift (instanceOf_mirrors arg cls span)
  | .isset vars => fun _ =>
    .bind (currents_follows (exprs_rebuild vars)) fun _ =>
      .lift (emitValue_mirrors (fun _ => rfl) span)
  | .exit arg => fun _ =>
    .bind (optional_follows (option_rebuild arg)) fun _ =>
      .bind (.lift (emit_mirrors _ rfl span)) fun _ => .bind (.lift goDead_mirrors) fun _ =>
      .lift (newOperand_mirrors .null rfl)
  | .errorSuppress arg => expr_rebuilds arg
  | .ternary cond ifTrue ifFalse =>
    ternary_rebuilds (expr_rebuilds cond) (option_rebuild ifTrue) (expr_rebuilds ifFalse) span
  | .yield key value => fun _ =>
    .bind (optional_follows (option_rebuild key)) fun _ =>
      .bind (optional_follows (option_rebuild value)) fun _ =>
      .lift (emitValue_mirrors (fun _ => rfl) span)
  | .yieldFrom arg => fun n =>
    .bind (current_rebuilds (expr_rebuilds arg) n) fun _ =>
      .lift (emitValue_mirrors (fun _ => rfl) span)
  | .shellExec parts => fun _ =>
    .bind (currents_follows (exprs_rebuild parts)) fun _ =>
      .bind (.lift (emitValue_mirrors (fun _ => rfl) span)) fun _ =>
      .bind (.lift (newString_mirrors "shell_exec")) fun _ =>
      .lift (emitCall_mirrors (fun _ => rfl) span)

theorem spine_rebuilds : ∀ e : Expr, Rebuilds g (spine e)
  | .mk kind span => by
    have hkind := current_rebuilds (exprKind_rebuilds span kind)
    cases kind with
    | binary op left right =>
      exact binaryStep_rebuilds op (spine_rebuilds left) (expr_rebuilds right) span
    | _ => exact hkind

theorem target_rebuilds : ∀ e : Expr, Rebuilds g (target e)
  | .mk kind span => by
    have hkind := write_rebuilds (exprKind_rebuilds span kind)
    cases kind with
    | element var dim =>
      exact fun n => .bind (optional_follows (option_rebuild dim)) fun _ => target_rebuilds var n
    | _ => exact hkind

theorem nameSlot_rebuilds : ∀ e : Expr, Rebuilds g (nameSlot e)
  | .mk kind span => by
    have hkind := current_rebuilds (exprKind_rebuilds span kind)
    cases kind with
    | name name => exact fun _ => .lift (newString_mirrors _)
    | identifier name => exact fun _ => .lift (newString_mirrors _)
    | _ => exact hkind

theorem destructure_follows (span : Span) (value : OperandId) (position : Nat) {n : Nat} :
    ∀ l : List (ArrayItem Expr), Follows g n id (destructure span value position l)
      (destructure span (g.operand value) position l)
  | [] => .pure rfl
  | ⟨_, none, _, _⟩ :: rest => destructure_follows span value (position + 1) rest
  | ⟨key, some (.mk kind inner), byRef, unpack⟩ :: rest => by
    have hkey := option_rebuild key
    have hrest (position : Nat) := destructure_follows (n := n) span value position rest
    have hleaf (hkind) := destructureTarget_follows hkind span value position byRef unpack hkey
      (target_rebuilds (.mk kind inner)) hrest
    cases kind with
    | array pattern short =>
      exact .bind (elementIndex_follows position hkey) fun _ =>
        .bind (.lift (emitValue_mirrors (fun _ => rfl) inner)) fun element =>
        .bind (destructure_follows inner element 0 pattern) fun _ => hrest _
    | _ => exact hleaf nofun

theorem exprs_rebuild : ∀ l : List Expr, ∀ x ∈ exprs l, Rebuilds g x
  | [] => nofun
  | e :: rest => List.forall_mem_cons.2 ⟨expr_rebuilds e, exprs_rebuild rest⟩

theorem option_rebuild : ∀ e : Option Expr, ∀ x ∈ option e, Rebuilds g x
  | none => nofun
  | some e => fun x hx => by
    cases hx
    exact expr_rebuilds e

theorem items_rebuild : ∀ l : List (ArrayItem Expr), ∀ item ∈ items l,
    (∀ x ∈ item.key, Rebuilds g x) ∧ ∀ x ∈ item.value, Rebuilds g x
  | [] => nofun
  | ⟨key, value, _, _⟩ :: rest =>
    List.forall_mem_cons.2 ⟨⟨option_rebuild key, option_rebuild value⟩, items_rebuild rest⟩

theorem args_rebuild : ∀ l : List (Arg Expr), ∀ x ∈ args l, Rebuilds g x
  | [] => nofun
  | ⟨value, _⟩ :: rest => List.forall_mem_cons.2 ⟨expr_rebuilds value, args_rebuild rest⟩

theorem firstTarget_rebuilds : ∀ l : List (Arg Expr), Rebuilds g (firstTarget l)
  | [] => fun _ => .lift (newOperand_mirrors .null rfl)
  | ⟨value, _⟩ :: _ => target_rebuilds value

theorem params_rebuild : ∀ l : List (Param Expr), ∀ p ∈ params l, ∀ x ∈ p.default, Rebuilds g x
  | [] => nofun
  | ⟨_, default, _, _, _, _⟩ :: rest =>
    List.forall_mem_cons.2 ⟨option_rebuild default, params_rebuild rest⟩

theorem keyTarget_rebuild : ∀ key : Option Expr, ∀ k ∈ keyTarget key, Rebuilds g k.2
  | none => nofun
  | some e => fun k hk => by
    cases hk
    exact target_rebuilds e

theorem declared_rebuild : ∀ l : List (Declared Expr), ∀ d ∈ declared l, ∀ x ∈ d.default,
    Rebuilds g x
  | [] => nofun
  | ⟨_, default, _⟩ :: rest => List.forall_mem_cons.2 ⟨option_rebuild default, declared_rebuild rest⟩

theorem constants_rebuild : ∀ l : List (ConstDecl Expr), ∀ c ∈ constants l, Rebuilds g c.value
  | [] => nofun
  | ⟨_, value, _⟩ :: rest => List.forall_mem_cons.2 ⟨expr_rebuilds value, constants_rebuild rest⟩

/-- Lowering a statement does the same in different arenas. -/
theorem stmt_repeats : ∀ s : Stmt, Repeats g (stmt s)
  | .mk kind span => stmtKind_repeats span kind

theorem stmtKind_repeats (span : Span) : ∀ kind : StmtKind, Repeats g (stmtKind span kind)
  | .expr arg => fun n => .bind (expr_rebuilds arg n) fun _ => .pure rfl
  | .echo values => echo_repeats (exprs_rebuild values)
  | .inlineHtml text => fun _ =>
    .bind (.lift (newString_mirrors text)) fun _ =>
      .bind (.lift (emit_mirrors _ rfl span)) fun _ => .pure rfl
  | .returns arg => fun _ =>
    .bind (optional_follows (option_rebuild arg)) fun _ => endHere_follows _ rfl span
  | .throws arg => fun n =>
    .bind (current_rebuilds (expr_rebuilds arg) n) fun _ => endHere_follows _ rfl span
  | .ifElse cond thenBody further elseBody =>
    ifElse_repeats (expr_rebuilds cond) (inOrder_repeats (stmts_repeat thenBody))
      (elseIfs_repeat further) (blockOption_repeat elseBody) span
  | .whileLoop cond inside =>
    loop_repeats (current_rebuilds (expr_rebuilds cond)) (inOrder_repeats (stmts_repeat inside)) span
  | .doWhile inside cond =>
    doWhile_repeats (inOrder_repeats (stmts_repeat inside)) (expr_rebuilds cond) span
  | .forLoop init cond step inside =>
    forLoop_repeats (exprs_rebuild init) (exprs_rebuild cond) (exprs_rebuild step)
      (inOrder_repeats (stmts_repeat inside)) span
  | .foreach subject key (.mk kind inner) byRef inside => by
    have hsubject := expr_rebuilds subject
    have hkey := keyTarget_rebuild key
    have hinside := inOrder_repeats (stmts_repeat inside)
    have hleaf (hkind) := foreachTarget_repeats hkind span byRef hsubject hkey
      (target_rebuilds (.mk kind inner)) hinside
    cases kind with
    | array pattern short =>
      exact foreach_repeats hsubject hkey (fun _ value => destructure_follows inner value 0 pattern)
        hinside span
    | _ => exact hleaf nofun
  | .switch subject choices => switch_repeats (expr_rebuilds subject) (cases_repeat choices) span
  | .breakLoop _ => fun _ => .get (fun b b' hb => by rw [hb.script.path]) fun _ => .throw _
  | .continueLoop _ => fun _ => .get (fun b b' hb => by rw [hb.script.path]) fun _ => .throw _
  | .goto name => goto_repeats name span
  | .label name => fun _ => .lift (label_mirrors name span)
  | .tryCatch inside handlers finish =>
    tryCatch_repeats (inOrder_repeats (stmts_repeat inside)) (catches_repeat handlers)
      (blockOption_repeat finish)
  | .global vars => global_repeats (exprs_rebuild vars)
  | .static vars => all_repeat fun v hv => staticVar_repeats (declared_rebuild vars v hv)
  | .unset vars => fun _ =>
    .bind (unset_follows fun v hv => exprs_rebuild vars v.2 (List.of_mem_zip hv).2) fun _ =>
      .bind (.lift (emit_mirrors _ rfl span)) fun _ => .pure rfl
  | .function name parameters byRef returnType statements =>
    function_repeats name.joined (params_rebuild parameters) byRef returnType
      (stmts_repeat statements) span
  | .classDecl kind name modifiers parent implements statements =>
    classDecl_repeats kind name.joined modifiers parent implements (stmts_repeat statements) span
  | .method name modifiers parameters byRef returnType statements =>
    method_repeats name modifiers (params_rebuild parameters) byRef returnType
      (optionalStmts_repeat statements) span
  | .properties modifiers type props =>
    all_repeat fun p hp => propertyDecl_repeats modifiers _ (declared_rebuild props p hp)
  | .classConsts consts =>
    all_repeat fun c hc => constDecl_repeats true (constants_rebuild consts c hc)
  | .consts consts => all_repeat fun c hc => constDecl_repeats false (constants_rebuild consts c hc)
  | .traitUse traits adaptations => fun _ =>
    .bind (names_follows traits) fun _ => .bind (.lift (emit_mirrors _ rfl span))
      fun _ => .pure rfl
  | .namespaceDecl _ inside => inOrder_repeats (optionalStmts_repeat inside)
  | .block inside => inOrder_repeats (stmts_repeat inside)
  | .useDecl .. => fun _ => .pure rfl
  | .nop => fun _ => .pure rfl

theorem stmts_repeat : ∀ l : List Stmt, ∀ x ∈ stmts l, Repeats g x
  | [] => nofun
  | s :: rest => List.forall_mem_cons.2 ⟨stmt_repeats s, stmts_repeat rest⟩

theorem optionalStmts_repeat : ∀ l : Option (List Stmt), ∀ x ∈ optionalStmts l, Repeats g x
  | none => nofun
  | some l => stmts_repeat l

theorem blockOption_repeat : ∀ l : Option (List Stmt), ∀ x ∈ blockOption l, Repeats g x
  | none => nofun
  | some l => fun x hx => by
    cases hx
    exact inOrder_repeats (stmts_repeat l)

theorem elseIfs_repeat : ∀ l : List (ElseIf Expr Stmt), ∀ e ∈ elseIfs l,
    Rebuilds g e.cond ∧ ∀ x ∈ e.body, Repeats g x
  | [] => nofun
  | ⟨cond, body, _⟩ :: rest =>
    List.forall_mem_cons.2 ⟨⟨expr_rebuilds cond, stmts_repeat body⟩, elseIfs_repeat rest⟩

theorem cases_repeat : ∀ l : List (Case Expr Stmt), ∀ c ∈ cases l, CaseRepeats g c
  | [] => nofun
  | ⟨cond, body, _⟩ :: rest =>
    List.forall_mem_cons.2 ⟨⟨option_rebuild cond, stmts_repeat body⟩, cases_repeat rest⟩

theorem catches_repeat : ∀ l : List (Catch Stmt), ∀ c ∈ catches l, ∀ x ∈ c.body, Repeats g x
  | [] => nofun
  | ⟨_, _, body⟩ :: rest => List.forall_mem_cons.2 ⟨stmts_repeat body, catches_repeat rest⟩

end

end QueryTaint.Lower

/-!
## Lowering files into different arenas

Lowering a file into two arenas, one of which is embedded in the other one, fails in both or gives the
same script up to numbers, and the arenas stay embedded (`lowerFile_embeds`).
-/

namespace QueryTaint

namespace Lower

variable {g : Graft} {a a' : Arena}

theorem start_below (a : Arena) (path : String) (labels : Labels) :
    a.Below (Builder.start a path labels).arena :=
  (Arena.Below.newFunc a Func.mainName).trans (.modifyFunc _ _ _)

/-- The top level of a file is a function that is there. -/
theorem start_lt (a : Arena) (path : String) (labels : Labels) :
    (Builder.start a path labels).func.index + 1 ≤
      (Builder.start a path labels).arena.funcs.size := by
  simp [Builder.start, Arena.newFunc, Arena.modifyFunc]

theorem start_twin (h : Arena.Embeds g a a') (path : String) (labels : Labels)
    (hlimit : (Builder.start a path labels).arena.Below g.limit) :
    (Builder.start a path labels).Twin g (Builder.start a' path labels) := by
  have hbelow : (a.newFunc Func.mainName).2.Below g.limit :=
    Arena.Below.trans (.modifyFunc _ _ _) hlimit
  obtain ⟨hmain, hnew⟩ := h.newFunc Func.mainName hbelow
  have harena : Arena.Embeds g (Builder.start a path labels).arena
      (Builder.start a' path labels).arena := by
    change Arena.Embeds g (Arena.modifyFunc _ (a.newFunc Func.mainName).1 _)
      (Arena.modifyFunc _ (a'.newFunc Func.mainName).1 _)
    rw [hmain]
    exact hnew.modifyFunc _ fun _ => rfl
  have hfunc : (Builder.start a' path labels).func = g.func (Builder.start a path labels).func :=
    hmain
  refine ⟨harena, ?_, rfl, .empty _, hfunc, ?_, rfl, fun _ => rfl⟩
  · change Script.Twin _ _ (Script.ofMain path (a'.newFunc Func.mainName).1)
    rw [hmain]
    exact .ofMain path _
  · change ((Builder.start a' path labels).arena.func (Builder.start a' path labels).func).entry =
      g.block ((Builder.start a path labels).arena.func (Builder.start a path labels).func).entry
    rw [hfunc, harena.func (start_lt a path labels)]
    rfl

end Lower

/-- Both results are the same error, or scripts that differ in their numbers only. -/
inductive Script.TwinResults (ρ : Relabel) : Except Error Script → Except Error Script → Prop
  | error (e : Error) : TwinResults ρ (.error e) (.error e)
  | ok {s s' : Script} (h : s.Twin ρ s') : TwinResults ρ (.ok s) (.ok s')

variable {g : Graft} {a a' : Arena}

theorem Arena.Below.lowerFile (a : Arena) (path : String) (labels : Labels) (stmts : List Stmt)
    (g : Graft) : a.Below (lowerFile a path labels stmts).2 :=
  (Lower.start_below a path labels).trans
    ((Lower.body_follows (g := g) (Nat.lt_succ_self _) [] (List.forall_mem_nil _)
      (Lower.stmts_repeat stmts)).widens _)

theorem lowerFile_eq (a : Arena) (path : String) (labels : Labels) (stmts : List Stmt) :
    lowerFile a path labels stmts =
      let r := (Lower.body (Lower.Builder.start a path labels).func [] [] (Lower.stmts stmts)).run.run
        (Lower.Builder.start a path labels)
      (r.1.map fun _ => r.2.script, r.2.arena) := by
  rw [lowerFile]
  generalize (Lower.body (Lower.Builder.start a path labels).func [] [] (Lower.stmts stmts)).run.run
    (Lower.Builder.start a path labels) = r
  rfl

/-- Lowering a file does the same in different arenas. -/
theorem lowerFile_embeds (h : Arena.Embeds g a a') (path : String) (labels : Labels)
    (stmts : List Stmt) (hlimit : (lowerFile a path labels stmts).2.Below g.limit) :
    Script.TwinResults g.toRelabel (lowerFile a path labels stmts).1
        (lowerFile a' path labels stmts).1 ∧
      Arena.Embeds g (lowerFile a path labels stmts).2 (lowerFile a' path labels stmts).2 := by
  let start := Lower.Builder.start a path labels
  have hbody := Lower.body_follows (g := g) (n := start.func.index + 1) (Nat.lt_succ_self _) []
    (List.forall_mem_nil _) (Lower.stmts_repeat stmts)
  have hstart := Lower.start_twin h path labels ((hbody.widens start).trans hlimit)
  obtain ⟨hresult, htwin⟩ := hbody.twin hstart (Lower.start_lt a path labels) hlimit
  rw [List.map_nil, ← show _ = g.func start.func from hstart.func] at hresult htwin
  rw [lowerFile_eq, lowerFile_eq]
  refine ⟨?_, htwin.arena⟩
  dsimp only
  have hscript := htwin.script
  revert hresult hscript
  generalize (Lower.body start.func [] [] (Lower.stmts stmts)).run.run start = r
  generalize (Lower.body (Lower.Builder.start a' path labels).func [] [] (Lower.stmts stmts)).run.run
    (Lower.Builder.start a' path labels) = r'
  intro hresult hscript
  rw [hresult]
  cases r.1 with
  | error e => exact .error e
  | ok _ => exact .ok hscript

end QueryTaint
