import QueryTaint.Concrete.Expr

/-!
# Reading statements

The grammar rules for statements and declarations. `Site.stmt` gives the meaning of a node as a
statement; a node of unknown kind is no statement.
-/

namespace QueryTaint.Concrete

/-! ## Control structures -/

/-- The name of a label. -/
def labelName (src : Source) (s : Site) : Reading String := do
  return (← s.need src s.firstPhrase? .missingLabel).text src

/-- Reads a body that fills a field. -/
def fieldBody (src : Source) (s : Site) : Reading (List Stmt) := do
  body (← s.field src "body")

/-- Reads a condition that fills a field. -/
def fieldCondition (src : Source) (s : Site) : Reading Expr := do
  (← s.field src "condition").expr

/-- Reads the further branches of an if statement; of several else branches the last counts. -/
def elseBranches (src : Source) (found : List (ElseIf Expr Stmt)) (last : Option (List Stmt)) :
    List Node → Reading (List (ElseIf Expr Stmt) × Option (List Stmt))
  | [] => return (found.reverse, last)
  | n :: rest => do
    match n.kind with
    | "else_if_clause" =>
      let cond ← fieldCondition src n.site
      let body ← fieldBody src n.site
      elseBranches src (⟨cond, body, n.span⟩ :: found) last rest
    | "else_clause" => elseBranches src found (some (← fieldBody src n.site)) rest
    | _ => elseBranches src found last rest

/-- Reads an if statement. -/
def ifStmt (src : Source) (s : Site) : Reading StmtKind := do
  let cond ← fieldCondition src s
  let thenBody ← fieldBody src s
  let (elseIfs, elseBody) ← elseBranches src [] none s.phrases
  return .ifElse cond thenBody elseIfs elseBody

/-- The three sections of a for statement while they are read: the section that is open, none
outside the parentheses, and the expressions found so far. -/
structure ForSections where
  inside : Bool := false
  current : Nat := 0
  init : List Expr := []
  cond : List Expr := []
  step : List Expr := []

/-- Adds expressions to the open section. -/
def ForSections.add (f : ForSections) (es : List Expr) : ForSections :=
  match f.current with
  | 0 => { f with init := f.init ++ es }
  | 1 => { f with cond := f.cond ++ es }
  | _ => { f with step := f.step ++ es }

/-- Reads one part of a for statement: a semicolon opens the next section. -/
def ForSections.next (f : ForSections) (n : Node) : Reading ForSections := do
  if n.kind = "(" && !f.inside then return { f with inside := true }
  else if n.kind = ")" && f.inside && f.current = 2 then return { f with inside := false }
  else if n.kind = ";" && f.inside then return { f with current := min (f.current + 1) 2 }
  else if f.inside && n.label.label.named then return f.add (← n.label.meaning.sequence)
  else return f

/-- Reads a for statement. -/
def forStmt (src : Source) (s : Site) : Reading StmtKind := do
  let sections ← s.parts.foldlM ForSections.next {}
  let bodyNode ← s.need src ((s.field? "body").or s.lastPhrase?) .missingForBody
  return .forLoop sections.init sections.cond sections.step (← body bodyNode)

/-- Reads a foreach statement. -/
def foreachStmt (src : Source) (s : Site) : Reading StmtKind := do
  match s.phrases with
  | subject :: binding :: third :: rest =>
    let subject ← subject.expr
    let bodyNode := (s.field? "body").getD ((third :: rest).getLast?.getD third)
    let (key, value) ← show Reading (Option Expr × Node) from do
      if binding.kind = "pair" then
        match binding.site.phrases with
        | [key, value] => return (some (← key.expr), value)
        | _ => throw (binding.site.fault src .malformedForeachPair)
      else return (none, binding)
    let (byRef, value) ← show Reading (Bool × Node) from do
      if value.kind = "by_ref" then
        return (true, ← value.site.need src value.site.firstPhrase? .emptyReference)
      else return (false, value)
    let value ← value.expr
    return .foreach subject key value byRef (← body bodyNode)
  | _ => throw (s.fault src .malformedForeach)

/-- Reads one case of a switch statement. -/
def switchCase (src : Source) (n : Node) : Reading (Option (Case Expr Stmt)) := do
  let s := n.site
  match n.kind with
  | "case_statement" =>
    let value ← s.field src "value"
    let others : Site := ⟨s.label, s.children.eraseP (·.label.label.field = some "value")⟩
    let body ← stmtList others
    return some ⟨some (← value.expr), body, n.span⟩
  | "default_statement" => return some ⟨none, ← stmtList s, n.span⟩
  | _ => return none

/-- Reads a switch statement. -/
def switchStmt (src : Source) (s : Site) : Reading StmtKind := do
  let cond ← fieldCondition src s
  let block ← s.field src "body"
  return .switch cond (← block.site.phrases.filterMapM (switchCase src))

/-- Reads the handlers of a try statement; of several closing blocks the last counts. -/
def handlers (src : Source) (found : List (Catch Stmt)) (last : Option (List Stmt)) :
    List Node → Reading (List (Catch Stmt) × Option (List Stmt))
  | [] => return (found.reverse, last)
  | n :: rest => do
    let s := n.site
    match n.kind with
    | "catch_clause" =>
      let types := match s.field? "type" with
        | some list => list.site.phrases.map (·.nameText src)
        | none => []
      let var := (s.field? "name").map (·.varText src)
      let body ← fieldBody src s
      handlers src (⟨types, var, body⟩ :: found) last rest
    | "finally_clause" => handlers src found (some (← fieldBody src s)) rest
    | _ => handlers src found last rest

/-- Reads a try statement. -/
def tryStmt (src : Source) (s : Site) : Reading StmtKind := do
  let body ← fieldBody src s
  let (catches, finish) ← handlers src [] none s.phrases
  return .tryCatch body catches finish

/-! ## Declarations -/

/-- The modifier bits of a declaration. -/
def modifiers (src : Source) (s : Site) : Nat :=
  s.parts.foldl (fun bits n =>
    if n.kind ∈ ["visibility_modifier", "static_modifier", "abstract_modifier", "final_modifier",
        "readonly_modifier"]
    then bits ||| Modifier.bit (trim (n.text src)) else bits) 0

/-- The names that a node lists. -/
def nameList (src : Source) (n : Node) : List QueryTaint.Name :=
  n.site.phrases.map (·.nameText src)

/-- Reads a class, interface, trait or enumeration. The bases of an interface are interfaces. -/
def classStmt (src : Source) (s : Site) : Reading StmtKind := do
  let kind : ClassKind := match s.kind with
    | "interface_declaration" => .interface
    | "trait_declaration" => .trait
    | _ => .plain
  let name ← s.field src "name"
  let ofKind (k : String) := s.phrases.filter (·.kind = k)
  let parent := if kind = .interface then none
    else (ofKind "base_clause").getLast?.bind fun n => (nameList src n).head?
  let implements := s.phrases.flatMap fun n =>
    if n.kind = "class_interface_clause" || (n.kind = "base_clause" && kind = .interface)
    then nameList src n else []
  let body ← match s.field? "body" with
    | some b => stmtList b.site
    | none => pure []
  return .classDecl kind (name.nameText src) (modifiers src s) parent implements body

/-- Reads the properties of a declaration. -/
def propertyStmt (src : Source) (s : Site) : Reading StmtKind := do
  let props ← (s.phrases.filter (·.kind = "property_element")).mapM fun n => do
    let name ← n.site.field src "name"
    let value := (n.site.field? "default_value").or
      ((n.site.phrases.find? (·.kind = "property_initializer")).bind (·.site.firstPhrase?))
    return (⟨name.varText src, ← optionalExpr value, n.span⟩ : Declared Expr)
  return .properties (modifiers src s) ((s.field? "type").bind (·.type)) props

/-- Reads the constants of a declaration. -/
def constElements (src : Source) (s : Site) : Reading (List (ConstDecl Expr)) :=
  (s.phrases.filter (·.kind = "const_element")).mapM fun n => do
    match n.site.phrases with
    | name :: second :: rest =>
      let value ← ((second :: rest).getLast?.getD second).expr
      return ⟨name.nameText src, value, n.span⟩
    | _ => throw (n.site.fault src .malformedConst)

/-- Reads the static variables of a declaration. -/
def staticStmt (src : Source) (s : Site) : Reading StmtKind := do
  return .static (← s.phrases.mapM fun n => do
    let name ← n.site.field src "name"
    return ⟨name.varText src, ← optionalExpr (n.site.field? "value"), n.span⟩)

/-- What the keyword before the first phrase of an import says that the names stand for. -/
def useKind? (src : Source) (s : Site) : Option UseKind :=
  (s.parts.takeWhile (!·.label.label.named)).findSome? fun n =>
    match lowerAscii (n.text src) with
    | "function" => some .functions
    | "const" => some .constants
    | _ => none

/-- Takes up one phrase of an import: the first name is what is imported, and a second one is
its alias. -/
def useStep (src : Source) (found : Option QueryTaint.Name × Option String) (n : Node) :
    Option QueryTaint.Name × Option String :=
  let (name, localName) := found
  if n.kind ∈ ["name", "qualified_name", "namespace_name"] && name.isNone then
    (some (n.nameText src), localName)
  else if n.kind = "name" && localName.isNone then (name, some (n.text src))
  else if n.kind = "namespace_aliasing_clause" then
    (name, n.site.firstPhrase?.map (·.text src))
  else found

/-- One imported name. -/
def useItem (src : Source) (n : Node) : UseItem :=
  let start := (none, (n.site.field? "alias").map (·.text src))
  let (name, localName) := n.site.phrases.foldl (useStep src) start
  ⟨name.getD (n.nameText src), localName, useKind? src n.site⟩

/-- An import of names. -/
def useStmt (src : Source) (s : Site) : StmtKind :=
  let stem := (s.phrases.filter (·.kind = "namespace_name")).getLast?.map (·.nameText src)
  let uses := s.phrases.flatMap fun n =>
    match n.kind with
    | "namespace_use_clause" => [useItem src n]
    | "namespace_use_group" => n.site.phrases.map (useItem src)
    | _ => []
  .useDecl ((useKind? src s).getD .classes) stem uses

/-- A use of traits inside a class. -/
def traitStmt (src : Source) (s : Site) : StmtKind :=
  let isName (n : Node) : Bool := n.kind = "name" || n.kind = "qualified_name"
  .traitUse ((s.phrases.filter isName).map (·.nameText src))
    ((s.phrases.filter (!isName ·)).map (·.text src))

/-! ## All statements -/

/-- Reads an expression statement; a thrown value makes a statement of its own. -/
def exprStmt (src : Source) (s : Site) : Reading StmtKind := do
  let inner ← s.need src s.firstPhrase? .emptyExpression
  if inner.kind = "throw_expression" then
    let thrown ← inner.site.need src inner.site.firstPhrase? .emptyThrow
    return .throws (← thrown.expr)
  else return .expr (← inner.expr)

/-- Reads the form of a statement, none for a node that is no statement. -/
def stmtKind? (src : Source) (parent : String) (s : Site) : Reading (Option StmtKind) := do
  match s.kind with
  | "text_interpolation" => return some (.inlineHtml (src.text s.label))
  | "expression_statement" => exprStmt src s
  | "echo_statement" =>
    return some (.echo (← s.phrases.mapM (·.label.meaning.sequence)).flatten)
  | "return_statement" => return some (.returns (← optionalExpr s.firstPhrase?))
  | "exit_statement" =>
    return some (.expr (.mk (.exit (← optionalExpr s.firstPhrase?)) s.span))
  | "compound_statement" => return some (.block (← stmtList s))
  | "if_statement" => ifStmt src s
  | "while_statement" =>
    let cond ← fieldCondition src s
    return some (.whileLoop cond (← fieldBody src s))
  | "do_statement" =>
    let body ← fieldBody src s
    return some (.doWhile body (← fieldCondition src s))
  | "for_statement" => forStmt src s
  | "foreach_statement" => foreachStmt src s
  | "switch_statement" => switchStmt src s
  | "break_statement" => return some (.breakLoop (← optionalExpr s.firstPhrase?))
  | "continue_statement" => return some (.continueLoop (← optionalExpr s.firstPhrase?))
  | "goto_statement" => return some (.goto (← labelName src s))
  | "named_label_statement" => return some (.label (← labelName src s))
  | "try_statement" => tryStmt src s
  | "global_declaration" => return some (.global (← s.phrases.mapM (·.expr)))
  | "function_static_declaration" => staticStmt src s
  | "unset_statement" => return some (.unset (← s.phrases.mapM (·.expr)))
  | "function_definition" =>
    let name ← s.field src "name"
    let params ← params src (s.field? "parameters")
    let body ← fieldBody src s
    return some (.function (.parse (name.text src) s.span) params
      (s.hasKind "reference_modifier") ((s.field? "return_type").bind (·.type)) body)
  | "class_declaration" | "interface_declaration" | "trait_declaration" | "enum_declaration" =>
    classStmt src s
  | "method_declaration" =>
    let name ← s.field src "name"
    let params ← params src (s.field? "parameters")
    let body ← (s.field? "body").mapM body
    return some (.method (name.text src) (modifiers src s) params
      (s.hasKind "reference_modifier") ((s.field? "return_type").bind (·.type)) body)
  | "property_declaration" => propertyStmt src s
  | "const_declaration" =>
    let consts ← constElements src s
    return some (if parent = "declaration_list" then .classConsts consts else .consts consts)
  | "use_declaration" => return some (traitStmt src s)
  | "namespace_definition" =>
    let name := (s.field? "name").map (·.nameText src)
    let body ← (s.field? "body").mapM (stmtList ·.site)
    return some (.namespaceDecl name body)
  | "namespace_use_declaration" => return some (useStmt src s)
  | _ => return none

/-- The meaning of a node as a statement, given the kind of its parent. -/
def Site.stmt (src : Source) (parent : String) (s : Site) : Reading (Option Stmt) := do
  return (← stmtKind? src parent s).map (.mk · s.span)

end QueryTaint.Concrete
