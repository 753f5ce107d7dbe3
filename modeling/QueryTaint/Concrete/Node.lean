import QueryTaint.Error
import QueryTaint.Syntax.Tree
import QueryTaint.Text.Span

/-!
# Concrete syntax trees

A concrete syntax tree has a node for every token and phrase of a text. Trees are given as the list
of their nodes in preorder, each with its depth, and `Tree.ofPreorder?` rebuilds them.

A tree is read from its leaves up: every node is marked with what it means in each place where a
grammar rule may use it (`Meaning`), and the meaning of a node is given by its label and its marked
children. A meaning is an action, so that nothing is read that no rule asks for and the first error
in reading order is the one reported.
-/

namespace QueryTaint.Concrete

/-! ## Trees -/

/-- A tree with a label at every node. -/
inductive Tree (α : Type) where
  | node (label : α) (children : List (Tree α))

namespace Tree

variable {α : Type}

/-- The label of the root. -/
def label : Tree α → α
  | node label _ => label

/-- The subtrees of the root. -/
def children : Tree α → List (Tree α)
  | node _ children => children

/-- Puts a node before the subtrees that follow it: those that are deeper become its children. -/
def gather (depth : Nat) (label : α) (after : List (Nat × Tree α)) : List (Nat × Tree α) :=
  let (below, rest) := after.span fun (d, _) => depth < d
  (depth, node label (below.map (·.2))) :: rest

/-- The tree whose nodes in preorder are given with their depths. -/
def ofPreorder? (nodes : List (Nat × α)) : Option (Tree α) :=
  (nodes.foldr (fun (depth, label) => gather depth label) []).head?.map (·.2)

end Tree

/-- What a node of a concrete tree says: its kind, the field of its parent that it fills, whether
it is a phrase rather than a token, and where it stands. -/
structure Label where
  kind : String
  field : Option String
  named : Bool
  start : Nat
  stop : Nat
  startRow : Nat
  stopRow : Nat
deriving Repr, Inhabited

/-- The span of a node; a node without text keeps its offset. -/
def Label.span (l : Label) : Span :=
  ⟨l.startRow + 1, l.stopRow + 1, l.start, if l.start < l.stop then l.stop - 1 else l.start⟩

/-- The path of a file and its bytes. -/
structure Source where
  path : String
  bytes : ByteArray

/-- The text of a node, empty when its ends do not lie between characters. -/
def Source.text (src : Source) (l : Label) : String :=
  if l.start ≤ l.stop && l.stop ≤ src.bytes.size then
    (String.fromUTF8? (src.bytes.extract l.start l.stop)).getD ""
  else ""

/-! ## Marked trees -/

/-- The deepest nesting of expressions that is read. -/
def maxDepth : Nat := 10000

/-- Reading at some nesting depth of expressions. -/
abbrev Reading := ReaderT Nat (Except Error)

/-- A part of an interpolated string: text with its span, or an expression. -/
inductive StringPart where
  | text (value : String) (span : Span)
  | expr (value : Expr)

/-- One operator of a chain of binary operators: the operator, its right side, and the span of
the expression that it makes. -/
structure Link where
  op : BinaryOp
  right : Reading Expr
  span : Span

/-- A chain of binary operators down its left sides, outermost first, and what stands at the end
of it. -/
structure Chain where
  links : List Link
  base : Reading Expr

/-- What a node means: as an expression, as a statement, as a comma-separated sequence, inside a
string, as the left side of a binary operator, and as a type. -/
structure Meaning where
  expr : Reading Expr
  stmt : Reading (Option Stmt)
  sequence : Reading (List Expr)
  parts : Reading (List StringPart)
  chain : Except Error Chain
  type : Thunk (Option TypeHint)

/-- A label and its meaning. -/
structure Mark where
  label : Label
  meaning : Meaning

/-- A tree whose nodes are marked. -/
abbrev Node := Tree Mark

/-- A node whose children are marked and which is to be marked itself. -/
structure Site where
  label : Label
  children : List Node

namespace Tree

/-- The node as a place of its own. -/
def site (n : Node) : Site := ⟨n.label.label, n.children⟩

/-- The kind of a node. -/
def kind (n : Node) : String := n.label.label.kind

/-- The span of a node. -/
def span (n : Node) : Span := n.label.label.span

/-- The node read as an expression. -/
def expr (n : Node) : Reading Expr := n.label.meaning.expr

/-- The node read as a statement. -/
def stmt (n : Node) : Reading (Option Stmt) := n.label.meaning.stmt

/-- The node read as a type. -/
def type (n : Node) : Option TypeHint := n.label.meaning.type.get

/-- The node's text. -/
def text (src : Source) (n : Node) : String := src.text n.label.label

/-- The node's text as the name of a variable. -/
def varText (src : Source) (n : Node) : String := dropStart (· == '$') (n.text src)

/-- The node's text as a name. -/
def nameText (src : Source) (n : Node) : QueryTaint.Name := .parse (n.text src) n.span

end Tree

namespace Site

/-- The kind of the node. -/
def kind (s : Site) : String := s.label.kind

/-- The span of the node. -/
def span (s : Site) : Span := s.label.span

/-- The children without comments. -/
def parts (s : Site) : List Node := s.children.filter (·.kind ≠ "comment")

/-- The children that are phrases, without comments. -/
def phrases (s : Site) : List Node := s.parts.filter (·.label.label.named)

/-- The first phrase. -/
def firstPhrase? (s : Site) : Option Node := s.phrases.head?

/-- The last phrase. -/
def lastPhrase? (s : Site) : Option Node := s.phrases.getLast?

/-- The child that fills a field. -/
def field? (s : Site) (name : String) : Option Node :=
  s.children.find? (·.label.label.field = some name)

/-- Whether some child is of a kind. -/
def hasKind (s : Site) (kind : String) : Bool := s.parts.any (·.kind = kind)

/-- The error that the node has a fault. -/
def fault (src : Source) (s : Site) (fault : ParseFault) : Error :=
  .parse src.path fault (s.label.startRow + 1) s.kind

/-- The given node, or the error that this node has a fault. -/
def need (src : Source) (s : Site) (n : Option Node) (fault : ParseFault) : Except Error Node :=
  match n with
  | some n => .ok n
  | none => .error (s.fault src fault)

/-- The child that fills a field, which must be there. -/
def field (src : Source) (s : Site) (name : String) : Except Error Node :=
  s.need src (s.field? name) (.missing name)

end Site

/-- Reads one or more levels deeper. -/
def deeper {α : Type} (src : Source) (s : Site) (levels : Nat) (act : Reading α) : Reading α :=
  fun depth =>
    if depth + levels > maxDepth then .error (s.fault src .tooDeep) else act (depth + levels)

/-- Reads a node if there is one. -/
def optionalExpr (n : Option Node) : Reading (Option Expr) := n.mapM (·.expr)

/-- Reads the phrases of a node as statements. -/
def stmtList (s : Site) : Reading (List Stmt) := s.phrases.filterMapM (·.stmt)

/-- Reads the body of a control structure: a block of any form, or a single statement. -/
def body (n : Node) : Reading (List Stmt) :=
  if n.kind ∈ ["compound_statement", "colon_block", "declaration_list", "switch_block"] then
    stmtList n.site
  else return (← n.stmt).toList

/-- Reads the parameters of a function. -/
def params (src : Source) (n : Option Node) : Reading (List (Param Expr)) :=
  match n with
  | none => return []
  | some n => n.site.phrases.filterMapM fun p => do
    if p.kind ∈ ["simple_parameter", "variadic_parameter", "property_promotion_parameter"] then
      let s := p.site
      let name ← s.field src "name"
      let default ← optionalExpr (s.field? "default_value")
      return some
        { name := name.varText src
          default
          byRef := s.hasKind "reference_modifier" || (s.field? "reference_modifier").isSome
          variadic := p.kind = "variadic_parameter"
          type := (s.field? "type").bind (·.type)
          span := p.span }
    else return none

end QueryTaint.Concrete
