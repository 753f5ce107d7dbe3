import QueryTaint.Syntax.Operator
import QueryTaint.Text.Span

/-!
# Syntax trees

The statements and expressions of a PHP file. Every statement and expression carries its span.
Structures that hold expressions or statements take those types as parameters, so that the two
mutual types stay small.

A name of a class, function or constant is a list of parts between backslashes. How it was written
decides how the enclosing namespace and its aliases complete it.
-/

namespace QueryTaint

/-! ## Names -/

/-- How a name was written: to be completed by alias and namespace, complete, or relative to the
current namespace. -/
inductive NameKind where
  | plain | full | relative
deriving DecidableEq, Repr, Inhabited

/-- The word for a form of names. -/
def NameKind.word : NameKind → String
  | plain => "Name"
  | full => "FullyQualified"
  | relative => "Relative"

/-- A possibly qualified name. -/
structure Name where
  kind : NameKind
  parts : List String
  span : Span
deriving DecidableEq, Repr, Inhabited

namespace Name

/-- The start of a name that is relative to the current namespace. -/
def relativeStart : String := "namespace\\"

/-- Reads a name; empty parts are dropped. -/
def parse (text : String) (span : Span) : Name :=
  let cs := text.toList
  let (kind, rest) :=
    if cs.head? = some '\\' then (NameKind.full, cs.drop 1)
    else if lowerAscii (String.ofList (cs.take 10)) == relativeStart then
      (NameKind.relative, cs.drop 10)
    else (NameKind.plain, cs)
  ⟨kind, ((String.ofList rest).splitOn "\\").filter (· ≠ ""), span⟩

/-- The parts with separators between them and none before them. -/
def joined (n : Name) : String := "\\".intercalate n.parts

/-- The last part. -/
def leaf (n : Name) : String := n.parts.getLast?.getD ""

/-- Whether the name is a single part to be completed. -/
def isUnqualified (n : Name) : Bool := n.kind = .plain && n.parts.length = 1

end Name

/-- What follows the last backslash of a text, in lower case. -/
def leafName (text : String) : String :=
  lowerAscii ((text.splitOn "\\").getLast?.getD text)

/-! ## Trees -/

/-- A literal value. -/
inductive Literal where
  | null
  | bool (b : Bool)
  | int (n : Int64)
  | float (x : Float)
  | string (s : String)
deriving Repr, Inhabited

/-- A declared type: a name that may admit null, or one of several types. -/
inductive TypeHint where
  | named (name : Name) (nullable : Bool)
  | union (types : List TypeHint)
deriving Repr, Inhabited

/-- An argument of a call. -/
structure Arg (ε : Type) where
  value : ε
  unpack : Bool
deriving Repr, Inhabited

/-- An item of an array literal or list pattern; a pattern's hole has no value. -/
structure ArrayItem (ε : Type) where
  key : Option ε
  value : Option ε
  byRef : Bool
  unpack : Bool
deriving Repr, Inhabited

/-- A parameter of a function. -/
structure Param (ε : Type) where
  name : String
  default : Option ε
  byRef : Bool
  variadic : Bool
  type : Option TypeHint
  span : Span
deriving Repr, Inhabited

/-- A declared static variable or property with its first value. -/
structure Declared (ε : Type) where
  name : String
  default : Option ε
  span : Span
deriving Repr, Inhabited

/-- A declared constant. -/
structure ConstDecl (ε : Type) where
  name : Name
  value : ε
  span : Span
deriving Repr, Inhabited

/-- A variable that a closure captures. -/
structure Capture where
  name : String
  byRef : Bool
deriving DecidableEq, Repr, Inhabited

/-- A further condition of an if statement. -/
structure ElseIf (ε σ : Type) where
  cond : ε
  body : List σ
  span : Span
deriving Repr, Inhabited

/-- A case of a switch statement; the default case has no condition. -/
structure Case (ε σ : Type) where
  cond : Option ε
  body : List σ
  span : Span
deriving Repr, Inhabited

/-- A handler of a try statement. -/
structure Catch (σ : Type) where
  types : List Name
  var : Option String
  body : List σ
deriving Repr, Inhabited

/-- What an imported name stands for. -/
inductive UseKind where
  | classes | functions | constants
deriving DecidableEq, Repr, Inhabited

/-- The word for what is imported. -/
def UseKind.word : UseKind → String
  | classes => "Normal"
  | functions => "Function"
  | constants => "Const"

/-- An imported name; an item of a mixed group has a kind of its own. -/
structure UseItem where
  name : Name
  localName : Option String
  kind : Option UseKind
deriving DecidableEq, Repr, Inhabited

/-- The kind of a class-like declaration. -/
inductive ClassKind where
  | plain | interface | trait
deriving DecidableEq, Repr, Inhabited

/-- The word for a kind of class. -/
def ClassKind.word : ClassKind → String
  | plain => "Class"
  | interface => "Interface"
  | trait => "Trait"

mutual

/-- An expression and its span. -/
inductive Expr where
  | mk (kind : ExprKind) (span : Span)

/-- The forms of expressions. -/
inductive ExprKind where
  | variable (name : String)
  | dynamicVariable (name : Expr)
  | literal (value : Literal)
  | interpolated (parts : List Expr)
  | constFetch (name : Name)
  | magicConst (constant : MagicConst)
  | name (name : Name)
  | identifier (name : String)
  | array (items : List (ArrayItem Expr)) (isList : Bool)
  | element (var : Expr) (dim : Option Expr)
  | property (var : Expr) (name : Expr) (nullsafe : Bool)
  | staticProperty (cls : Expr) (name : Expr)
  | classConst (cls : Expr) (name : String)
  | assign (var : Expr) (value : Expr)
  | assignRef (var : Expr) (value : Expr)
  | assignOp (op : BinaryOp) (var : Expr) (value : Expr)
  | binary (op : BinaryOp) (left : Expr) (right : Expr)
  | unary (op : UnaryOp) (arg : Expr)
  | cast (kind : CastKind) (arg : Expr)
  | incDec (increment : Bool) (before : Bool) (var : Expr)
  | call (name : Expr) (args : List (Arg Expr))
  | methodCall (var : Expr) (name : Expr) (args : List (Arg Expr)) (nullsafe : Bool)
  | staticCall (cls : Expr) (name : Expr) (args : List (Arg Expr))
  | new (cls : Expr) (args : List (Arg Expr))
  | closure (params : List (Param Expr)) (uses : List Capture) (byRef : Bool) (isStatic : Bool)
      (returnType : Option TypeHint) (body : List Stmt) (arrow : Bool)
  | includeFile (kind : IncludeKind) (path : Expr)
  | instanceOf (arg : Expr) (cls : Expr)
  | isset (vars : List Expr)
  | exit (arg : Option Expr)
  | errorSuppress (arg : Expr)
  | ternary (cond : Expr) (ifTrue : Option Expr) (ifFalse : Expr)
  | yield (key : Option Expr) (value : Option Expr)
  | yieldFrom (arg : Expr)
  | shellExec (parts : List Expr)

/-- A statement and its span. -/
inductive Stmt where
  | mk (kind : StmtKind) (span : Span)

/-- The forms of statements. -/
inductive StmtKind where
  | expr (arg : Expr)
  | echo (args : List Expr)
  | returns (arg : Option Expr)
  | ifElse (cond : Expr) (thenBody : List Stmt) (elseIfs : List (ElseIf Expr Stmt))
      (elseBody : Option (List Stmt))
  | whileLoop (cond : Expr) (body : List Stmt)
  | doWhile (body : List Stmt) (cond : Expr)
  | forLoop (init : List Expr) (cond : List Expr) (step : List Expr) (body : List Stmt)
  | foreach (subject : Expr) (key : Option Expr) (value : Expr) (byRef : Bool) (body : List Stmt)
  | switch (cond : Expr) (cases : List (Case Expr Stmt))
  | breakLoop (level : Option Expr)
  | continueLoop (level : Option Expr)
  | goto (label : String)
  | label (name : String)
  | tryCatch (body : List Stmt) (catches : List (Catch Stmt)) (finish : Option (List Stmt))
  | throws (arg : Expr)
  | global (args : List Expr)
  | static (vars : List (Declared Expr))
  | unset (args : List Expr)
  | function (name : Name) (params : List (Param Expr)) (byRef : Bool)
      (returnType : Option TypeHint) (body : List Stmt)
  | classDecl (kind : ClassKind) (name : Name) (modifiers : Nat) (parent : Option Name)
      (implements : List Name) (body : List Stmt)
  | method (name : String) (modifiers : Nat) (params : List (Param Expr)) (byRef : Bool)
      (returnType : Option TypeHint) (body : Option (List Stmt))
  | properties (modifiers : Nat) (type : Option TypeHint) (props : List (Declared Expr))
  | classConsts (consts : List (ConstDecl Expr))
  | consts (consts : List (ConstDecl Expr))
  | traitUse (traits : List Name) (adaptations : List String)
  | namespaceDecl (name : Option Name) (body : Option (List Stmt))
  | useDecl (kind : UseKind) (stem : Option Name) (uses : List UseItem)
  | inlineHtml (text : String)
  | block (body : List Stmt)
  | nop

end

instance : Inhabited Expr := ⟨.mk (.literal .null) .none⟩

instance : Inhabited Stmt := ⟨.mk .nop .none⟩

/-- The form of an expression. -/
def Expr.kind : Expr → ExprKind
  | .mk kind _ => kind

/-- The span of an expression. -/
def Expr.span : Expr → Span
  | .mk _ span => span

/-- The form of a statement. -/
def Stmt.kind : Stmt → StmtKind
  | .mk kind _ => kind

/-- The span of a statement. -/
def Stmt.span : Stmt → Span
  | .mk _ span => span

/-- A file's path, its text and its statements. -/
structure SourceFile where
  path : String
  text : String
  stmts : List Stmt
deriving Inhabited

end QueryTaint
