import QueryTaint.Lower.Declare

/-!
# Lowering syntax trees

One recursion over statements and expressions. `expr` gives the raw operand of an expression: a
literal, a variable that is not read yet, or the result of the operation that was made. Where the
value is meant, `current` reads it. Lists and other holders of expressions and statements become
holders of the steps that lower them.

The statements of a file become the functions of a script; the top level of the file is a function
too. A file that cannot be lowered leaves in the arena what was built until then.
-/

namespace QueryTaint.Lower

/-- Whether an expression is a literal that a jump table may hold. -/
def isTableLiteral : Expr → Bool
  | .mk (.literal .null) _ => false
  | .mk (.literal _) _ => true
  | _ => false

/-- Whether all cases of a switch are literals. -/
def isJumpTable (cases : List (Case Expr Stmt)) : Bool :=
  cases.all fun case => (case.cond.map isTableLiteral).getD true

/-- Whether an expression is an element of an array. -/
def isElement : Expr → Bool
  | .mk (.element ..) _ => true
  | _ => false

/-- Whether an expression names a variable or property. -/
def isNamed : Expr → Bool
  | .mk (.variable _) _ | .mk (.dynamicVariable _) _ | .mk (.property ..) _
  | .mk (.staticProperty ..) _ => true
  | _ => false

mutual

/-- The raw operand of an expression. -/
def expr : Expr → Lowering OperandId
  | .mk kind span => exprKind span kind

/-- The raw operand of a form of expression. -/
def exprKind (span : Span) : ExprKind → Lowering OperandId
  | .variable name => variableOperand name
  | .dynamicVariable name => do
    let name ← current (expr name)
    newOperand (.variable name none)
  | .literal value => literal value
  | .interpolated parts => do
    let parts ← (exprs parts).mapM current
    emitValue span (.concatList parts ·)
  | .constFetch name => constant name span
  | .magicConst _ => newString ""
  | .name name => newString name.joined
  | .identifier name => newString name
  | .array elements _ => array (items elements) span
  | .element var dim => do
    let var ← current (expr var)
    let dim ← (option dim).mapM current
    emitValue span (.element var dim ·)
  | .property var name _ => property (expr var) (nameSlot name) span
  | .staticProperty cls name => do
    let cls ← nameSlot cls
    let name ← nameSlot name
    staticProperty cls name span
  | .classConst cls name => do
    let cls ← nameSlot cls
    classConstant cls name span
  | .assign (.mk (.array pattern _) _) value => do
    let value ← current (expr value)
    destructure span value 0 pattern
    return value
  | .assign var value => assign (!isElement var) (expr value) (target var) span
  | .assignRef var value => do
    let value ← current (expr value)
    let target ← target var
    emitValue span (.assignRef target value ·)
  | .assignOp op var value => assignOp op (expr var) (expr value) (target var) span
  | .binary op left right => do
    let left ← spine left
    let right ← current (expr right)
    readVariable (← binary op left right span)
  | .unary op arg => do
    let arg ← current (expr arg)
    unary op arg span
  | .cast kind arg => do
    let arg ← current (expr arg)
    emitValue span (.cast kind arg ·)
  | .incDec increment before var => incDec increment before (expr var) (target var) span
  | .call name arguments => call (args arguments) (nameSlot name) (firstTarget arguments) span
  | .methodCall var name arguments nullsafe => do
    let var ← current (expr var)
    let name ← nameSlot name
    let arguments ← (args arguments).mapM current
    emitCall span (.methodCall var name arguments nullsafe ·)
  | .staticCall cls name arguments => do
    let cls ← nameSlot cls
    let name ← nameSlot name
    let arguments ← (args arguments).mapM current
    emitCall span (.staticCall cls name arguments ·)
  | .new cls arguments => do
    let cls ← nameSlot cls
    let arguments ← (args arguments).mapM current
    new cls arguments span
  | .closure parameters uses byRef isStatic returnType statements _ =>
    closure (params parameters) uses byRef isStatic returnType (stmts statements) span
  | .includeFile kind path => includeFile kind (staticText? path) (expr path) span
  | .instanceOf arg cls => do
    let arg ← current (expr arg)
    let cls ← nameSlot cls
    instanceOf arg cls span
  | .isset vars => do
    let vars ← (exprs vars).mapM current
    emitValue span (.isset vars ·)
  | .exit arg => do
    let arg ← (option arg).mapM current
    let _ ← emit (.exit arg) span
    goDead
    newOperand .null
  | .errorSuppress arg => expr arg
  | .ternary cond ifTrue ifFalse => ternary (expr cond) (option ifTrue) (expr ifFalse) span
  | .yield key value => do
    let key ← (option key).mapM current
    let value ← (option value).mapM current
    emitValue span (.yield key value ·)
  | .yieldFrom arg => do
    let arg ← current (expr arg)
    emitValue span (.yieldFrom arg ·)
  | .shellExec parts => do
    let parts ← (exprs parts).mapM current
    let command ← emitValue span (.concatList parts ·)
    let name ← newString "shell_exec"
    emitCall span (.functionCall name [command] ·)

/-- The value of the left side of a binary operator. A chain of operators that nests to the left
is one descent. -/
def spine : Expr → Lowering OperandId
  | .mk (.binary op left right) span => do
    let left ← spine left
    let right ← current (expr right)
    readVariable (← binary op left right span)
  | .mk kind span => current (exprKind span kind)

/-- What an assignment writes; an assignment to an element writes the variable that holds it. -/
def target : Expr → Lowering OperandId
  | .mk (.element var dim) _ => do
    let _ ← (option dim).mapM current
    target var
  | .mk kind span => do writeVariable (← exprKind span kind)

/-- A class or member: a name that is given is a string, and anything else is read. -/
def nameSlot : Expr → Lowering OperandId
  | .mk (.name name) _ => newString name.joined
  | .mk (.identifier name) _ => newString name
  | .mk kind span => current (exprKind span kind)

/-- Assigns the elements of a value to the targets of a pattern. A target without a key takes the
element at its position; holes count. -/
def destructure (span : Span) (value : OperandId) (position : Nat) :
    List (ArrayItem Expr) → Lowering Unit
  | [] => return
  | ⟨_, none, _, _⟩ :: rest => destructure span value (position + 1) rest
  | ⟨key, some (.mk (.array pattern _) inner), _, _⟩ :: rest => do
    let (index, next) ← elementIndex position (option key)
    let element ← emitValue inner (.element value (some index) ·)
    destructure inner element 0 pattern
    destructure span value next rest
  | ⟨key, some dest, _, _⟩ :: rest => do
    let (index, next) ← elementIndex position (option key)
    let element ← emitValue dest.span (.element value (some index) ·)
    let dest ← target dest
    let _ ← emitValue span (.assign dest element ·)
    destructure span value next rest

/-- The steps that lower expressions. -/
def exprs : List Expr → List (Lowering OperandId)
  | [] => []
  | e :: rest => expr e :: exprs rest

/-- The step that lowers an expression that may be absent. -/
def option : Option Expr → Option (Lowering OperandId)
  | none => none
  | some e => some (expr e)

/-- The target of an expression that may be absent, with its span. -/
def keyTarget : Option Expr → Option (Span × Lowering OperandId)
  | none => none
  | some e => some (e.span, target e)

/-- The steps that lower the items of an array. -/
def items : List (ArrayItem Expr) → List (ArrayItem (Lowering OperandId))
  | [] => []
  | ⟨key, value, byRef, unpack⟩ :: rest =>
    ⟨option key, option value, byRef, unpack⟩ :: items rest

/-- The steps that lower arguments. -/
def args : List (Arg Expr) → List (Lowering OperandId)
  | [] => []
  | ⟨value, _⟩ :: rest => expr value :: args rest

/-- The target of the first argument. -/
def firstTarget : List (Arg Expr) → Lowering OperandId
  | [] => newOperand .null
  | ⟨value, _⟩ :: _ => target value

/-- The steps that lower the defaults of parameters. -/
def params : List (Param Expr) → List (Param (Lowering OperandId))
  | [] => []
  | ⟨name, default, byRef, variadic, type, span⟩ :: rest =>
    ⟨name, option default, byRef, variadic, type, span⟩ :: params rest

/-- The steps that lower the first values of declared names. -/
def declared : List (Declared Expr) → List (Declared (Lowering OperandId))
  | [] => []
  | ⟨name, default, span⟩ :: rest => ⟨name, option default, span⟩ :: declared rest

/-- The steps that lower the values of constants. -/
def constants : List (ConstDecl Expr) → List (ConstDecl (Lowering OperandId))
  | [] => []
  | ⟨name, value, span⟩ :: rest => ⟨name, expr value, span⟩ :: constants rest

/-- Lowers a statement. -/
def stmt : Stmt → Lowering Unit
  | .mk kind span => stmtKind span kind

/-- Lowers a form of statement. -/
def stmtKind (span : Span) : StmtKind → Lowering Unit
  | .expr arg => do
    let _ ← expr arg
  | .echo values =>
    ((values.map Expr.span).zip (exprs values)).forM fun (span, value) => do
      let value ← current value
      let _ ← emit (.echo value) span
  | .inlineHtml text => do
    let value ← newString text
    let _ ← emit (.echo value) span
  | .returns arg => do
    let value ← (option arg).mapM current
    let _ ← emit (.returns value) span
    goDead
  | .throws arg => do
    let value ← current (expr arg)
    let _ ← emit (.throws value) span
    goDead
  | .ifElse cond thenBody further elseBody =>
    ifElse (expr cond) (inOrder (stmts thenBody)) (elseIfs further) (blockOption elseBody) span
  | .whileLoop cond inside => loop (current (expr cond)) (inOrder (stmts inside)) span
  | .doWhile inside cond => doWhile (inOrder (stmts inside)) (expr cond) span
  | .forLoop init cond step inside =>
    forLoop (exprs init) (exprs cond) (exprs step) (inOrder (stmts inside)) span
  | .foreach subject key (.mk (.array pattern _) inner) byRef inside =>
    foreach (expr subject) (keyTarget key) byRef inner
      (fun value => destructure inner value 0 pattern) (inOrder (stmts inside)) span
  | .foreach subject key dest byRef inside =>
    foreach (expr subject) (keyTarget key) byRef dest.span
      (fun value => do
        let var ← target dest
        let _ ← emitValue dest.span fun result =>
          if byRef then .assignRef var value result else .assign var value result)
      (inOrder (stmts inside)) span
  | .switch subject choices => switch (expr subject) (isJumpTable choices) (cases choices) span
  | .breakLoop _ | .continueLoop _ => do
    throw (.lowering (← get).script.path (.unresolvedLoopExit span.startLine))
  | .goto name => goto name span
  | .label name => label name span
  | .tryCatch inside handlers finish =>
    tryCatch (inOrder (stmts inside)) (catches handlers) (blockOption finish)
  | .global vars =>
    ((vars.map Expr.span).zip (exprs vars)).forM fun (span, var) => do
      let value ← writeVariable (← var)
      let _ ← emit (.globalVar value) span
  | .static vars => (declared vars).forM staticVar
  | .unset vars => do
    let (reads, writes) ← unset ((vars.map isNamed).zip (exprs vars))
    let _ ← emit (.unset reads writes) span
  | .function name parameters byRef returnType statements =>
    function name.joined (params parameters) byRef returnType (stmts statements) span
  | .classDecl kind name modifiers parent implements statements =>
    classDecl kind name.joined modifiers parent implements (stmts statements) span
  | .method name modifiers parameters byRef returnType statements =>
    method name modifiers (params parameters) byRef returnType (optionalStmts statements) span
  | .properties modifiers type props =>
    (declared props).forM (propertyDecl modifiers (declaredType type))
  | .classConsts consts => (constants consts).forM (constDecl true)
  | .consts consts => (constants consts).forM (constDecl false)
  | .traitUse traits adaptations => do
    let traits ← traits.mapM fun name => (newString name.joined : Build OperandId)
    let _ ← emit (.traitUse traits adaptations) span
  | .namespaceDecl _ inside => inOrder (optionalStmts inside)
  | .block inside => inOrder (stmts inside)
  | .useDecl .. | .nop => return

/-- The steps that lower statements. -/
def stmts : List Stmt → List (Lowering Unit)
  | [] => []
  | s :: rest => stmt s :: stmts rest

/-- The steps that lower statements that may be absent. -/
def optionalStmts : Option (List Stmt) → List (Lowering Unit)
  | none => []
  | some body => stmts body

/-- The step that lowers statements that may be absent. -/
def blockOption : Option (List Stmt) → Option (Lowering Unit)
  | none => none
  | some body => some (inOrder (stmts body))

/-- The steps that lower further conditions and their bodies. -/
def elseIfs : List (ElseIf Expr Stmt) → List (ElseIf (Lowering OperandId) (Lowering Unit))
  | [] => []
  | ⟨cond, body, span⟩ :: rest => ⟨expr cond, stmts body, span⟩ :: elseIfs rest

/-- The steps that lower the cases of a switch. -/
def cases : List (Case Expr Stmt) → List (Case (Lowering OperandId) (Lowering Unit))
  | [] => []
  | ⟨cond, body, span⟩ :: rest => ⟨option cond, stmts body, span⟩ :: cases rest

/-- The steps that lower handlers. -/
def catches : List (Catch Stmt) → List (Catch (Lowering Unit))
  | [] => []
  | ⟨types, var, body⟩ :: rest => ⟨types, var, stmts body⟩ :: catches rest

end

end QueryTaint.Lower

/-! ## Files -/

namespace QueryTaint

/-- The builder of a file. -/
def Lower.Builder.start (arena : Arena) (path : String) (labels : Labels) : Lower.Builder :=
  let (main, arena) := arena.newFunc Func.mainName
  let arena := arena.modifyFunc main fun f => { f with file := some path }
  { arena, script := .ofMain path main, labels, func := main, block := (arena.func main).entry }

/-- Lowers a file that went through all passes, with the labels that they made. -/
def lowerFile (arena : Arena) (path : String) (labels : Labels) (stmts : List Stmt) :
    Except Error Script × Arena :=
  let start := Lower.Builder.start arena path labels
  let (result, b) := (Lower.body start.func [] [] (Lower.stmts stmts)).run.run start
  (result.map fun _ => b.script, b.arena)

end QueryTaint
