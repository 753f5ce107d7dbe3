import QueryTaint.Concrete.Stmt

/-!
# Reading files

`mark` gives every node of a concrete tree its meaning, and `parseFile` takes from the root the
statements of the file.
-/

namespace QueryTaint.Concrete

/-- The meaning of a node, given the kind of its parent. -/
def Site.meaning (src : Source) (parent : String) (s : Site) : Meaning :=
  let expr := s.expr src
  { expr
    stmt := s.stmt src parent
    sequence := s.sequence expr
    parts := s.stringParts src
    chain := s.chain src expr
    type := .mk fun _ => s.type src }

mutual

/-- The tree with every node marked with its meaning. -/
def mark (src : Source) (parent : String) : Tree Label → Node
  | .node label children =>
    let children := markAll src label.kind children
    .node ⟨label, Site.meaning src parent ⟨label, children⟩⟩ children

/-- The marked children of a node of a kind. -/
def markAll (src : Source) (parent : String) : List (Tree Label) → List Node
  | [] => []
  | tree :: rest => mark src parent tree :: markAll src parent rest

end

/-- Whether a node stands for text that fits no rule. -/
def Site.isError (s : Site) : Bool := s.kind = "ERROR"

/-- The statements of a file, given its concrete tree. An error node at the root or right below it
fails the file; deeper ones are passed over. -/
def parseFile (path text : String) (tree : Tree Label) : Except Error SourceFile := do
  let src : Source := ⟨path, text.toUTF8⟩
  let root := (mark src "" tree).site
  if root.isError then throw (root.fault src .unparseable)
  match root.parts.find? (·.site.isError) with
  | some n => throw (n.site.fault src .syntaxError)
  | none => return ⟨path, text, ← (stmtList root).run 0⟩

/-- Whether files with an extension are read. -/
def supportsExtension (extension : String) : Bool :=
  lowerAscii extension ∈ ["php", "phtml", "inc"]

/-- The language that is read. -/
def languageName : String := "php"

end QueryTaint.Concrete
