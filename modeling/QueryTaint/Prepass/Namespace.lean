import QueryTaint.Syntax.Traversal

/-!
# Completing names

Every name of a class, function or constant becomes complete: aliases of the current namespace are
resolved, and any other name is put into it. Declared names are put into it as well.
-/

namespace QueryTaint.Prepass

/-- What a name stands for. -/
inductive NameRole where
  | cls | function | constant
deriving DecidableEq, Repr

/-- Aliases and the parts they stand for, the newest first. -/
abbrev Aliases := List (String × List String)

/-- The current namespace and its aliases. Aliases of classes and functions are kept in lower
case. -/
structure NamespaceScope where
  parts : List String := []
  classes : Aliases := []
  functions : Aliases := []
  constants : Aliases := []
deriving Inhabited

/-- The names that stand for themselves in the place of a class. -/
def selfNaming : List String :=
  ["self", "static", "parent", "int", "float", "bool", "string", "void", "iterable", "object",
    "array", "callable", "mixed", "null", "never", "false", "true"]

/-- Whether a name stands for itself in the place of a class. -/
def isSelfNaming (n : QueryTaint.Name) : Bool :=
  n.isUnqualified && lowerAscii n.leaf ∈ selfNaming

namespace NamespaceScope

/-- The scope at the start of a namespace. -/
def enter (name : Option QueryTaint.Name) : NamespaceScope :=
  { parts := (name.map (·.parts)).getD [] }

/-- Adds an alias; without a name of its own it is the target's last part. -/
def addAlias (s : NamespaceScope) (kind : UseKind) (target : List String)
    (localName : Option String) : NamespaceScope :=
  match localName.or target.getLast? with
  | none => s
  | some name =>
    match kind with
    | .classes => { s with classes := (lowerAscii name, target) :: s.classes }
    | .functions => { s with functions := (lowerAscii name, target) :: s.functions }
    | .constants => { s with constants := (name, target) :: s.constants }

/-- What the first part of a name is an alias of. A qualified name starts with a class or a
namespace. -/
def alias? (s : NamespaceScope) (role : NameRole) (first : String) (qualified : Bool) :
    Option (List String) :=
  if qualified then s.classes.lookup (lowerAscii first)
  else match role with
    | .cls => s.classes.lookup (lowerAscii first)
    | .function => s.functions.lookup (lowerAscii first)
    | .constant => s.constants.lookup first

/-- The complete parts of a name. -/
def complete (s : NamespaceScope) (role : NameRole) (n : QueryTaint.Name) : List String :=
  match n.kind, n.parts with
  | .full, parts => parts
  | .relative, parts => s.parts ++ parts
  | .plain, [] => []
  | .plain, first :: rest =>
    match s.alias? role first (!rest.isEmpty) with
    | some target => target ++ rest
    | none => s.parts ++ first :: rest

/-- The complete name. -/
def resolve (s : NamespaceScope) (role : NameRole) (n : QueryTaint.Name) : QueryTaint.Name :=
  if role = .cls && isSelfNaming n then n
  else { n with kind := .full, parts := s.complete role n }

/-- The complete name of a declaration. -/
def declare (s : NamespaceScope) (n : QueryTaint.Name) : QueryTaint.Name :=
  { n with
    kind := .full
    parts := if n.kind = .plain then s.parts ++ n.parts else n.parts }

mutual

/-- A type with its names complete. -/
def resolveType (s : NamespaceScope) : TypeHint → TypeHint
  | .named name nullable => .named (s.resolve .cls name) nullable
  | .union types => .union (s.resolveTypes types)

/-- Types with their names complete. -/
def resolveTypes (s : NamespaceScope) : List TypeHint → List TypeHint
  | [] => []
  | type :: rest => s.resolveType type :: s.resolveTypes rest

end

/-- Parameters with the names of their types complete. -/
def resolveParams (s : NamespaceScope) (params : List (Param Expr)) : List (Param Expr) :=
  params.map fun p => { p with type := p.type.map s.resolveType }

/-- A class slot with its name complete. -/
def resolveSlot (s : NamespaceScope) (role : NameRole) : Expr → Expr
  | .mk (.name n) span => .mk (.name (s.resolve role n)) span
  | e => e

/-- The names in an expression itself, completed. -/
def editExpr (s : NamespaceScope) : ExprKind → ExprKind
  | .constFetch name => .constFetch (s.resolve .constant name)
  | .call name args => .call (s.resolveSlot .function name) args
  | .new cls args => .new (s.resolveSlot .cls cls) args
  | .staticCall cls name args => .staticCall (s.resolveSlot .cls cls) name args
  | .staticProperty cls name => .staticProperty (s.resolveSlot .cls cls) name
  | .classConst cls name => .classConst (s.resolveSlot .cls cls) name
  | .instanceOf arg cls => .instanceOf arg (s.resolveSlot .cls cls)
  | .closure params uses byRef isStatic returnType body arrow =>
    .closure (s.resolveParams params) uses byRef isStatic (returnType.map s.resolveType) body
      arrow
  | other => other

/-- The names in a statement itself, completed. -/
def editStmt (s : NamespaceScope) : StmtKind → StmtKind
  | .function name params byRef returnType body =>
    .function (s.declare name) (s.resolveParams params) byRef (returnType.map s.resolveType) body
  | .classDecl kind name modifiers parent implements body =>
    .classDecl kind (s.declare name) modifiers (parent.map (s.resolve .cls))
      (implements.map (s.resolve .cls)) body
  | .method name modifiers params byRef returnType body =>
    .method name modifiers (s.resolveParams params) byRef (returnType.map s.resolveType) body
  | .properties modifiers type props =>
    .properties modifiers (type.map s.resolveType) props
  | .consts consts => .consts (consts.map fun c => { c with name := s.declare c.name })
  | .traitUse traits adaptations => .traitUse (traits.map (s.resolve .cls)) adaptations
  | .tryCatch body catches finish =>
    .tryCatch body (catches.map fun c => { c with types := c.types.map (s.resolve .cls) }) finish
  | other => other

/-- The scope after a statement is entered: a namespace starts afresh, and imports add aliases. -/
def afterEntering (s : NamespaceScope) : StmtKind → NamespaceScope
  | .namespaceDecl name _ => enter name
  | .useDecl kind stem uses =>
    uses.foldl (fun s item =>
      s.addAlias (item.kind.getD kind) (((stem.map (·.parts)).getD []) ++ item.name.parts)
        item.localName) s
  | _ => s

end NamespaceScope

/-- The traversal that completes names. -/
def completeNames : Traversal (StateM NamespaceScope) where
  enterStmt stmt := do
    modify (·.afterEntering stmt.kind)
    return (← get).editStmt
  leaveStmt kind _ := do
    if let .namespaceDecl _ (some _) := kind then set (NamespaceScope.enter none)
    return (kind, [])
  enterExpr _ := return (← get).editExpr
  leaveExpr _ := return ()

end QueryTaint.Prepass
