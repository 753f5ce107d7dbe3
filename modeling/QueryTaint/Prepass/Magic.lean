import QueryTaint.Error
import QueryTaint.Syntax.Traversal
import QueryTaint.Text.Path

/-!
# Magic constants

Constants whose value depends on where they stand become literals, and `self` and `parent` become
the enclosing class and its parent.
-/

namespace QueryTaint.Prepass

/-! ## Enclosing scopes -/

/-- The open scopes, the innermost first. -/
structure ScopeStack (α : Type) where
  scopes : List α := []
deriving Repr

namespace ScopeStack

variable {α : Type}

/-- Opens a scope. -/
def push (s : ScopeStack α) (scope : α) : ScopeStack α := ⟨scope :: s.scopes⟩

/-- The innermost scope. -/
def top? (s : ScopeStack α) : Option α := s.scopes.head?

/-- Closes the innermost scope, if there is one, and gives it. -/
def pop (s : ScopeStack α) : Option α × ScopeStack α := (s.top?, ⟨s.scopes.drop 1⟩)

/-- A name of the innermost scope, empty outside of all scopes. -/
def current (s : ScopeStack α) (name : α → String) : String := (s.top?.map name).getD ""

/-- How many scopes are open. -/
def depth (s : ScopeStack α) : Nat := s.scopes.length

/-- Whether no scope is open. -/
def isEmpty (s : ScopeStack α) : Bool := s.scopes.isEmpty

end ScopeStack

/-! ## Where an expression stands -/

/-- An enclosing class: its name, its parent's name and, if it is a trait, its name as one. -/
structure ClassScope where
  name : String
  parent : String
  trait : String

/-- An enclosing function: its name, and its name with that of its class. -/
structure FunctionScope where
  name : String
  method : String

/-- Where an expression stands: the file, the namespace, and the enclosing classes and functions,
the innermost first. -/
structure MagicScope where
  path : String
  namespaceName : String := ""
  classes : ScopeStack ClassScope := {}
  functions : ScopeStack FunctionScope := {}

/-! ## Replacing -/

/-- Replacing constants can fail. -/
abbrev MagicM := StateT MagicScope (Except Error)

/-- The name of every function without one. -/
def closureName : String := "\x7bclosure\x7d"

namespace MagicScope

/-- The value of a magic constant on some line. -/
def value (s : MagicScope) (line : Nat) : MagicConst → Literal
  | .className => .string (s.classes.current (·.name))
  | .traitName => .string (s.classes.current (·.trait))
  | .namespaceName => .string s.namespaceName
  | .functionName => .string (s.functions.current (·.name))
  | .methodName => .string (s.functions.current (·.method))
  | .line => .int (Int64.ofNat line)
  | .file => .string s.path
  | .directory => .string ((parentPath? s.path).getD "")

/-- The class that a relative class name stands for, none for any other name. -/
def relativeClass? (s : MagicScope) (n : QueryTaint.Name) : Option String :=
  if n.isUnqualified then
    match lowerAscii n.leaf with
    | "self" => some (s.classes.current (·.name))
    | "parent" => some (s.classes.current (·.parent))
    | _ => none
  else none

/-- A class slot with a relative class name replaced. -/
def resolveSlot (s : MagicScope) (cls : Expr) : Except Error Expr :=
  match cls with
  | .mk (.name n) span =>
    match s.relativeClass? n with
    | none => .ok cls
    | some "" => .error (.lowering s.path (.noClassScope n.leaf n.span.startLine))
    | some target => .ok (.mk (.name ⟨.full, target.splitOn "\\", n.span⟩) span)
  | _ => .ok cls

/-- Opens a function of some name. -/
def openFunction (s : MagicScope) (name method : String) : MagicScope :=
  { s with functions := s.functions.push ⟨name, method⟩ }

/-- Closes the innermost function. -/
def closeFunction (s : MagicScope) : MagicScope := { s with functions := s.functions.pop.2 }

/-- The scope inside a statement. -/
def enter (s : MagicScope) : StmtKind → MagicScope
  | .namespaceDecl name _ => { s with namespaceName := (name.map (·.joined)).getD "" }
  | .classDecl kind name _ parent _ _ =>
    let cls := ⟨name.joined, (parent.map (·.joined)).getD "",
      if kind = .trait then name.joined else ""⟩
    { s with classes := s.classes.push cls }
  | .function name .. => s.openFunction name.joined name.joined
  | .method name .. =>
    s.openFunction name (s.classes.current (·.name) ++ "::" ++ name)
  | _ => s

/-- The scope after a statement. -/
def leave (s : MagicScope) : StmtKind → MagicScope
  | .namespaceDecl _ (some _) => { s with namespaceName := "" }
  | .classDecl .. => { s with classes := s.classes.pop.2 }
  | .function .. | .method .. => s.closeFunction
  | _ => s

/-- How an expression is to be edited: its constant replaced, or the class in its class slot. -/
def edit (s : MagicScope) (line : Nat) : ExprKind → Except Error (ExprKind → ExprKind)
  | .magicConst constant => .ok fun _ => .literal (s.value line constant)
  | .new cls _ => return slot (← s.resolveSlot cls)
  | .staticCall cls _ _ => return slot (← s.resolveSlot cls)
  | .staticProperty cls _ => return slot (← s.resolveSlot cls)
  | .classConst cls _ => return slot (← s.resolveSlot cls)
  | .instanceOf _ cls => return slot (← s.resolveSlot cls)
  | _ => .ok id
where
  /-- Puts a class name into the class slot, which keeps any other expression. -/
  slot (cls : Expr) (kind : ExprKind) : ExprKind :=
    match cls, kind with
    | .mk (.name _) _, .new _ args => .new cls args
    | .mk (.name _) _, .staticCall _ name args => .staticCall cls name args
    | .mk (.name _) _, .staticProperty _ name => .staticProperty cls name
    | .mk (.name _) _, .classConst _ name => .classConst cls name
    | .mk (.name _) _, .instanceOf arg _ => .instanceOf arg cls
    | _, _ => kind

end MagicScope

/-- The traversal that replaces magic constants and relative class names. -/
def replaceMagic : Traversal MagicM where
  enterStmt stmt := do
    modify (·.enter stmt.kind)
    return id
  leaveStmt kind _ := do
    modify (·.leave kind)
    return (kind, [])
  enterExpr e := do
    let edit ← (← get).edit e.span.startLine e.kind
    if let .closure .. := e.kind then modify (·.openFunction closureName closureName)
    return edit
  leaveExpr kind := do
    if let .closure .. := kind then modify (·.closeFunction)

end QueryTaint.Prepass
