import QueryTaint.Syntax.Tree

/-!
# Going through syntax trees

A `Traversal` sees every statement and expression twice, before and after its parts. What it decides
before the parts is an edit that is applied once these are done, so that the order of its
effects is the order of the text. After a statement it may add statements, which it does not see.
-/

namespace QueryTaint

/-- What is done at each statement and expression. -/
structure Traversal (m : Type → Type) where
  /-- Sees a statement before its parts. -/
  enterStmt : Stmt → m (StmtKind → StmtKind)
  /-- Sees a statement whose parts are done; the answer adds statements after it. -/
  leaveStmt : StmtKind → Span → m (StmtKind × List Stmt)
  /-- Sees an expression before its parts. -/
  enterExpr : Expr → m (ExprKind → ExprKind)
  /-- Sees an expression whose parts are done. -/
  leaveExpr : ExprKind → m Unit

namespace Traversal

variable {m : Type → Type} [Monad m]

mutual

/-- Goes through an expression. -/
def expr (r : Traversal m) : Expr → m Expr
  | .mk kind span => do
    let edit ← r.enterExpr (.mk kind span)
    let kind := edit (← r.exprKind kind)
    r.leaveExpr kind
    return .mk kind span

/-- Goes through the parts of an expression. -/
def exprKind (r : Traversal m) : ExprKind → m ExprKind
  | .variable name => return .variable name
  | .dynamicVariable name => return .dynamicVariable (← r.expr name)
  | .literal value => return .literal value
  | .interpolated parts => return .interpolated (← r.exprs parts)
  | .constFetch name => return .constFetch name
  | .magicConst constant => return .magicConst constant
  | .name name => return .name name
  | .identifier name => return .identifier name
  | .array items isList => return .array (← r.items items) isList
  | .element var none => return .element (← r.expr var) none
  | .element var (some dim) => do
    let var ← r.expr var
    return .element var (some (← r.expr dim))
  | .property var name nullsafe => do
    let var ← r.expr var
    return .property var (← r.expr name) nullsafe
  | .staticProperty cls name => do
    let cls ← r.expr cls
    return .staticProperty cls (← r.expr name)
  | .classConst cls name => return .classConst (← r.expr cls) name
  | .assign var value => do
    let var ← r.expr var
    return .assign var (← r.expr value)
  | .assignRef var value => do
    let var ← r.expr var
    return .assignRef var (← r.expr value)
  | .assignOp op var value => do
    let var ← r.expr var
    return .assignOp op var (← r.expr value)
  | .binary op left right => do
    let left ← r.expr left
    return .binary op left (← r.expr right)
  | .unary op arg => return .unary op (← r.expr arg)
  | .cast kind arg => return .cast kind (← r.expr arg)
  | .incDec increment before var => return .incDec increment before (← r.expr var)
  | .call name args => do
    let name ← r.expr name
    return .call name (← r.args args)
  | .methodCall var name args nullsafe => do
    let var ← r.expr var
    let name ← r.expr name
    return .methodCall var name (← r.args args) nullsafe
  | .staticCall cls name args => do
    let cls ← r.expr cls
    let name ← r.expr name
    return .staticCall cls name (← r.args args)
  | .new cls args => do
    let cls ← r.expr cls
    return .new cls (← r.args args)
  | .closure params uses byRef isStatic returnType body arrow => do
    let params ← r.params params
    return .closure params uses byRef isStatic returnType (← r.stmts body) arrow
  | .includeFile kind path => return .includeFile kind (← r.expr path)
  | .instanceOf arg cls => do
    let arg ← r.expr arg
    return .instanceOf arg (← r.expr cls)
  | .isset vars => return .isset (← r.exprs vars)
  | .exit none => return .exit none
  | .exit (some arg) => return .exit (some (← r.expr arg))
  | .errorSuppress arg => return .errorSuppress (← r.expr arg)
  | .ternary cond none ifFalse => do
    let cond ← r.expr cond
    return .ternary cond none (← r.expr ifFalse)
  | .ternary cond (some ifTrue) ifFalse => do
    let cond ← r.expr cond
    let ifTrue ← r.expr ifTrue
    return .ternary cond (some ifTrue) (← r.expr ifFalse)
  | .yield none none => return .yield none none
  | .yield none (some value) => return .yield none (some (← r.expr value))
  | .yield (some key) none => return .yield (some (← r.expr key)) none
  | .yield (some key) (some value) => do
    let key ← r.expr key
    return .yield (some key) (some (← r.expr value))
  | .yieldFrom arg => return .yieldFrom (← r.expr arg)
  | .shellExec parts => return .shellExec (← r.exprs parts)

/-- Goes through expressions from left to right. -/
def exprs (r : Traversal m) : List Expr → m (List Expr)
  | [] => return []
  | e :: rest => do
    let e ← r.expr e
    return e :: (← r.exprs rest)

/-- Goes through the items of an array, the key before the value. -/
def items (r : Traversal m) : List (ArrayItem Expr) → m (List (ArrayItem Expr))
  | [] => return []
  | ⟨none, none, byRef, unpack⟩ :: rest =>
    return ⟨none, none, byRef, unpack⟩ :: (← r.items rest)
  | ⟨none, some value, byRef, unpack⟩ :: rest => do
    let value ← r.expr value
    return ⟨none, some value, byRef, unpack⟩ :: (← r.items rest)
  | ⟨some key, none, byRef, unpack⟩ :: rest => do
    let key ← r.expr key
    return ⟨some key, none, byRef, unpack⟩ :: (← r.items rest)
  | ⟨some key, some value, byRef, unpack⟩ :: rest => do
    let key ← r.expr key
    let value ← r.expr value
    return ⟨some key, some value, byRef, unpack⟩ :: (← r.items rest)

/-- Goes through the arguments of a call. -/
def args (r : Traversal m) : List (Arg Expr) → m (List (Arg Expr))
  | [] => return []
  | ⟨value, unpack⟩ :: rest => do
    let value ← r.expr value
    return ⟨value, unpack⟩ :: (← r.args rest)

/-- Goes through the defaults of parameters. -/
def params (r : Traversal m) : List (Param Expr) → m (List (Param Expr))
  | [] => return []
  | ⟨name, none, byRef, variadic, type, span⟩ :: rest =>
    return ⟨name, none, byRef, variadic, type, span⟩ :: (← r.params rest)
  | ⟨name, some default, byRef, variadic, type, span⟩ :: rest => do
    let default ← r.expr default
    return ⟨name, some default, byRef, variadic, type, span⟩ :: (← r.params rest)

/-- Goes through statements, with the added ones after each. -/
def stmts (r : Traversal m) : List Stmt → m (List Stmt)
  | [] => return []
  | .mk kind span :: rest => do
    let edit ← r.enterStmt (.mk kind span)
    let kind := edit (← r.stmtKind kind)
    let (kind, added) ← r.leaveStmt kind span
    return .mk kind span :: (added ++ (← r.stmts rest))

/-- Goes through the parts of a statement. -/
def stmtKind (r : Traversal m) : StmtKind → m StmtKind
  | .expr arg => return .expr (← r.expr arg)
  | .echo args => return .echo (← r.exprs args)
  | .returns none => return .returns none
  | .returns (some arg) => return .returns (some (← r.expr arg))
  | .ifElse cond thenBody elseIfs none => do
    let cond ← r.expr cond
    let thenBody ← r.stmts thenBody
    return .ifElse cond thenBody (← r.elseIfs elseIfs) none
  | .ifElse cond thenBody elseIfs (some elseBody) => do
    let cond ← r.expr cond
    let thenBody ← r.stmts thenBody
    let elseIfs ← r.elseIfs elseIfs
    return .ifElse cond thenBody elseIfs (some (← r.stmts elseBody))
  | .whileLoop cond body => do
    let cond ← r.expr cond
    return .whileLoop cond (← r.stmts body)
  | .doWhile body cond => do
    let body ← r.stmts body
    return .doWhile body (← r.expr cond)
  | .forLoop init cond step body => do
    let init ← r.exprs init
    let cond ← r.exprs cond
    let step ← r.exprs step
    return .forLoop init cond step (← r.stmts body)
  | .foreach subject none value byRef body => do
    let subject ← r.expr subject
    let value ← r.expr value
    return .foreach subject none value byRef (← r.stmts body)
  | .foreach subject (some key) value byRef body => do
    let subject ← r.expr subject
    let key ← r.expr key
    let value ← r.expr value
    return .foreach subject (some key) value byRef (← r.stmts body)
  | .switch cond cases => do
    let cond ← r.expr cond
    return .switch cond (← r.cases cases)
  | .breakLoop none => return .breakLoop none
  | .breakLoop (some level) => return .breakLoop (some (← r.expr level))
  | .continueLoop none => return .continueLoop none
  | .continueLoop (some level) => return .continueLoop (some (← r.expr level))
  | .goto label => return .goto label
  | .label name => return .label name
  | .tryCatch body catches none => do
    let body ← r.stmts body
    return .tryCatch body (← r.catches catches) none
  | .tryCatch body catches (some finish) => do
    let body ← r.stmts body
    let catches ← r.catches catches
    return .tryCatch body catches (some (← r.stmts finish))
  | .throws arg => return .throws (← r.expr arg)
  | .global args => return .global (← r.exprs args)
  | .static vars => return .static (← r.declared vars)
  | .unset args => return .unset (← r.exprs args)
  | .function name params byRef returnType body => do
    let params ← r.params params
    return .function name params byRef returnType (← r.stmts body)
  | .classDecl kind name modifiers parent implements body =>
    return .classDecl kind name modifiers parent implements (← r.stmts body)
  | .method name modifiers params byRef returnType none =>
    return .method name modifiers (← r.params params) byRef returnType none
  | .method name modifiers params byRef returnType (some body) => do
    let params ← r.params params
    return .method name modifiers params byRef returnType (some (← r.stmts body))
  | .properties modifiers type props => return .properties modifiers type (← r.declared props)
  | .classConsts consts => return .classConsts (← r.constDecls consts)
  | .consts consts => return .consts (← r.constDecls consts)
  | .traitUse traits adaptations => return .traitUse traits adaptations
  | .namespaceDecl name none => return .namespaceDecl name none
  | .namespaceDecl name (some body) => return .namespaceDecl name (some (← r.stmts body))
  | .useDecl kind stem uses => return .useDecl kind stem uses
  | .inlineHtml text => return .inlineHtml text
  | .block body => return .block (← r.stmts body)
  | .nop => return .nop

/-- Goes through the further branches of an if statement. -/
def elseIfs (r : Traversal m) : List (ElseIf Expr Stmt) → m (List (ElseIf Expr Stmt))
  | [] => return []
  | ⟨cond, body, span⟩ :: rest => do
    let cond ← r.expr cond
    let body ← r.stmts body
    return ⟨cond, body, span⟩ :: (← r.elseIfs rest)

/-- Goes through the cases of a switch statement. -/
def cases (r : Traversal m) : List (Case Expr Stmt) → m (List (Case Expr Stmt))
  | [] => return []
  | ⟨none, body, span⟩ :: rest => do
    let body ← r.stmts body
    return ⟨none, body, span⟩ :: (← r.cases rest)
  | ⟨some cond, body, span⟩ :: rest => do
    let cond ← r.expr cond
    let body ← r.stmts body
    return ⟨some cond, body, span⟩ :: (← r.cases rest)

/-- Goes through the handlers of a try statement. -/
def catches (r : Traversal m) : List (Catch Stmt) → m (List (Catch Stmt))
  | [] => return []
  | ⟨types, var, body⟩ :: rest => do
    let body ← r.stmts body
    return ⟨types, var, body⟩ :: (← r.catches rest)

/-- Goes through the first values of declared variables. -/
def declared (r : Traversal m) : List (Declared Expr) → m (List (Declared Expr))
  | [] => return []
  | ⟨name, none, span⟩ :: rest => return ⟨name, none, span⟩ :: (← r.declared rest)
  | ⟨name, some default, span⟩ :: rest => do
    let default ← r.expr default
    return ⟨name, some default, span⟩ :: (← r.declared rest)

/-- Goes through the values of declared constants. -/
def constDecls (r : Traversal m) : List (ConstDecl Expr) → m (List (ConstDecl Expr))
  | [] => return []
  | ⟨name, value, span⟩ :: rest => do
    let value ← r.expr value
    return ⟨name, value, span⟩ :: (← r.constDecls rest)

end

end Traversal

end QueryTaint
