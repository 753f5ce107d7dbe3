import QueryTaint.Concrete.Literal
import QueryTaint.Concrete.Node

/-!
# Reading expressions

The grammar rules for types, strings, calls, arrays and operators. `Site.expr` gives the meaning of
a node as an expression; a node of unknown kind reads as null.
-/

namespace QueryTaint.Concrete

/-! ## Types -/

/-- The type that a node names. -/
def Site.type (src : Source) (s : Site) : Option TypeHint :=
  match s.kind with
  | "optional_type" =>
    match s.firstPhrase?.bind (·.type) with
    | some (.named name _) => some (.named name true)
    | other => other
  | "union_type" | "intersection_type" | "disjunctive_normal_form_type" =>
    some (.union (s.phrases.filterMap (·.type)))
  | "named_type" =>
    match s.phrases with
    | [inner] => inner.type
    | _ => some (.named (.parse (trim (src.text s.label)) s.span) false)
  | _ => some (.named (.parse (trim (src.text s.label)) s.span) false)

/-! ## Slots for names -/

/-- The name of a class, or an expression in its place. -/
def classRef (src : Source) (n : Node) : Reading Expr :=
  if n.kind ∈ ["name", "qualified_name", "relative_scope", "named_type"] then
    return .mk (.name (.parse (trim (n.text src)) n.span)) n.span
  else n.expr

/-- The name of a member, or an expression in its place. A static property's name is written like
a variable. -/
def memberName (src : Source) (parent : Site) (n : Node) : Reading Expr :=
  if n.kind = "name" then return .mk (.identifier (n.text src)) n.span
  else if n.kind = "variable_name" && parent.kind = "scoped_property_access_expression" then
    return .mk (.identifier (n.varText src)) n.span
  else n.expr

/-! ## Arguments and array items -/

/-- Reads the arguments of a call; the placeholder of a partial application is none. -/
def args (src : Source) (n : Option Node) : Reading (List (Arg Expr)) :=
  match n with
  | none => return []
  | some n => n.site.phrases.filterMapM fun arg =>
    match arg.kind with
    | "variadic_placeholder" => return none
    | "argument" => do
      let value ← arg.site.need src arg.site.lastPhrase? .emptyArgument
      if value.kind = "variadic_unpacking" then
        let inner ← value.site.need src value.site.firstPhrase? .emptyUnpack
        return some ⟨← inner.expr, true⟩
      else return some ⟨← value.expr, false⟩
    | _ => return some ⟨← arg.expr, false⟩

/-- Reads a value that may be taken by reference. -/
def refValue (src : Source) (n : Node) : Reading (Bool × Expr) := do
  if n.kind = "by_ref" then
    let inner ← n.site.need src n.site.firstPhrase? .emptyReference
    return (true, ← inner.expr)
  else return (false, ← n.expr)

/-- Reads one item of an array or list. -/
def arrayItem (src : Source) (n : Node) : Reading (ArrayItem Expr) := do
  if n.kind ≠ "array_element_initializer" then
    let (byRef, value) ← refValue src n
    return ⟨none, some value, byRef, false⟩
  else
    let hasArrow := n.site.parts.any (·.text src = "=>")
    match n.site.phrases with
    | [key, value] =>
      if hasArrow then
        let (byRef, value) ← refValue src value
        return ⟨some (← key.expr), some value, byRef, false⟩
      else throw (n.site.fault src .malformedElement)
    | [value] =>
      if value.kind = "variadic_unpacking" then
        let inner ← value.site.need src value.site.firstPhrase? .emptyUnpack
        return ⟨none, some (← inner.expr), false, true⟩
      else
        let (byRef, value) ← refValue src value
        return ⟨none, some value, byRef, false⟩
    | _ => throw (n.site.fault src .malformedElement)

/-- The item of a hole. -/
def hole : ArrayItem Expr := ⟨none, none, false, false⟩

/-- Reads items and the commas between them, where `waiting` tells that no item stands since the
last comma. A comma that follows no item makes a hole. -/
def arrayItemsFrom (src : Source) (waiting : Bool) :
    List Node → Reading (List (ArrayItem Expr) × Bool)
  | [] => return ([], waiting)
  | n :: rest => do
    if n.label.label.named then
      let item ← arrayItem src n
      let (items, waiting) ← arrayItemsFrom src false rest
      return (item :: items, waiting)
    else if n.text src = "," then
      let (items, last) ← arrayItemsFrom src true rest
      return (if waiting then hole :: items else items, last)
    else arrayItemsFrom src waiting rest

/-- Reads the items of an array or list. A hole before the closing bracket is dropped. -/
def arrayItems (src : Source) (s : Site) : Reading (List (ArrayItem Expr)) := do
  let (items, waiting) ← arrayItemsFrom src true s.parts
  match items.getLast? with
  | some ⟨none, none, _, _⟩ => return if waiting then items.dropLast else items
  | _ => return items

/-! ## Strings -/

/-- Puts neighbouring texts together; the text starts where the first of them does. -/
def joinText : List StringPart → List Expr
  | [] => []
  | .expr e :: rest => e :: joinText rest
  | .text value span :: rest => go value span rest
where
  /-- Continues a text that was begun. -/
  go (value : String) (span : Span) : List StringPart → List Expr
    | [] => [.mk (.literal (.string value)) span]
    | .text more _ :: rest => go (value ++ more) span rest
    | .expr e :: rest => .mk (.literal (.string value)) span :: e :: joinText rest

/-- Reads an element access inside a string, where a bare key is a string. -/
def stringElement (n : Node) (src : Source) : Reading Expr := do
  match n.site.phrases with
  | [var, dim] =>
    if dim.kind = "name" then
      let var ← var.expr
      return .mk (.element var (some (.mk (.literal (.string (dim.text src))) dim.span))) n.span
    else n.expr
  | _ => n.expr

/-- Reads the parts of a string. -/
def Site.stringParts (src : Source) (s : Site) : Reading (List StringPart) := do
  let parts ← s.parts.mapM fun n => show Reading (List StringPart) from
    match n.kind with
    | "string_content" | "string_value" | "nowdoc_string" | "string" =>
      return [.text (n.text src) n.span]
    | "escape_sequence" => return [.text (unescape (n.text src)) n.span]
    | "heredoc_body" | "nowdoc_body" => n.label.meaning.parts
    | "heredoc_start" | "heredoc_end" | "heredoc_start_newline" | "heredoc_end_newline" =>
      return []
    | "subscript_expression" =>
      if n.label.label.named then return [.expr (← stringElement n src)] else return []
    | _ => if n.label.label.named then return [.expr (← n.expr)] else return []
  return parts.flatten

/-- Reads a string that may hold expressions. -/
def interpolated (src : Source) (s : Site) : Reading ExprKind := do
  match joinText (← s.stringParts src) with
  | [] => return .literal (.string "")
  | [.mk (.literal value) _] => return .literal value
  | parts => return .interpolated parts

/-! ## Operators -/

/-- Reads a type test. -/
def instanceOf (src : Source) (s : Site) : Reading Expr := do
  let left ← (← s.field src "left").expr
  let cls ← classRef src (← s.field src "right")
  return .mk (.instanceOf left cls) s.span

/-- The chain of binary operators that ends in a node. -/
def Site.chain (src : Source) (s : Site) (self : Reading Expr) : Except Error Chain := do
  if s.kind ≠ "binary_expression" then return ⟨[], self⟩
  else
    let token ← s.field src "operator"
    if lowerAscii (token.text src) = "instanceof" then return ⟨[], instanceOf src s⟩
    else
      match BinaryOp.ofToken? (token.text src) with
      | none => throw (token.site.fault src .unknownBinary)
      | some op =>
        let right ← s.field src "right"
        let left ← s.field src "left"
        let below ← left.label.meaning.chain
        return ⟨⟨op, right.expr, s.span⟩ :: below.links, below.base⟩

/-- Reads the right sides of a chain from its end outwards. -/
def Chain.build (base : Expr) : List Link → Reading Expr
  | [] => return base
  | link :: outer => do
    let right ← link.right
    build (.mk (.binary link.op base right) link.span) outer

/-- Reads a chain of binary operators; every link but one counts as a level of nesting. -/
def Chain.expr (src : Source) (s : Site) (c : Chain) : Reading Expr :=
  deeper src s (c.links.length - 1) do
    Chain.build (← c.base) c.links.reverse

/-- The unary operator of a token. -/
def unaryOp? : String → Option UnaryOp
  | "!" => some .booleanNot
  | "-" => some .unaryMinus
  | "+" => some .unaryPlus
  | "~" => some .bitwiseNot
  | _ => none

/-- Whether one text occurs in another. -/
def occursIn (part whole : String) : Bool := (whole.splitOn part).length > 1

/-- Reads a cast. -/
def castExpr (src : Source) (s : Site) : Reading ExprKind := do
  let type ← s.need src ((s.field? "type").or s.firstPhrase?) .missingCastType
  let value ← s.need src ((s.field? "value").or s.lastPhrase?) .missingCastValue
  let isParen (c : Char) : Bool := c == '(' || c == ')'
  match CastKind.ofKeyword? (dropEnd isParen (dropStart isParen (type.text src))) with
  | none => throw (type.site.fault src .unknownCast)
  | some kind => return .cast kind (← value.expr)

/-- Reads a call of a function, or of a construct that is written like one. -/
def callExpr (src : Source) (s : Site) : Reading ExprKind := do
  let function ← s.field src "function"
  let args ← args src (s.field? "arguments")
  if function.kind = "name" || function.kind = "qualified_name" then
    let name := function.nameText src
    let word := if name.parts.length = 1 then lowerAscii name.leaf else ""
    if word = "isset" then return .isset (args.map (·.value))
    else if word = "empty" || word = "eval" then
      match args with
      | arg :: _ => return .unary (if word = "empty" then .empty else .evaluate) arg.value
      | [] => throw (s.fault src .missingArgument)
    else if word = "exit" || word = "die" then return .exit (args.head?.map (·.value))
    else return .call (.mk (.name name) function.span) args
  else return .call (← function.expr) args

/-- Reads the class and the arguments of an object creation from its phrases in turn. -/
def newParts (src : Source) (cls : Option Expr) (found : List (Arg Expr)) :
    List Node → Reading (Option Expr × List (Arg Expr))
  | [] => return (cls, found)
  | n :: rest => do
    match n.kind with
    | "arguments" => newParts src cls (← args src (some n)) rest
    | "anonymous_class" =>
      let name : QueryTaint.Name := ⟨.plain, ["class@anonymous"], .none⟩
      let found ← args src (n.site.phrases.find? (·.kind = "arguments"))
      newParts src (some (.mk (.name name) n.span)) found rest
    | _ =>
      match cls with
      | none => newParts src (some (← classRef src n)) found rest
      | some _ => newParts src cls found rest

/-- Reads a yield: of all values of another generator, or of one value with or without a key. -/
def yieldExpr (src : Source) (s : Site) : Reading ExprKind := do
  let afterKeyword := String.ofList ((src.text s.label).toList.drop 5)
  if (lowerAscii (trimStart afterKeyword)).startsWith "from" then
    let inner ← s.need src s.firstPhrase? .emptyYieldFrom
    return .yieldFrom (← inner.expr)
  else
    match s.firstPhrase? with
    | none => return .yield none none
    | some value =>
      if value.kind = "array_element_initializer" then
        match value.site.phrases with
        | [key, value] =>
          let key ← key.expr
          return .yield (some key) (some (← value.expr))
        | parts => return .yield none (← optionalExpr parts.head?)
      else return .yield none (some (← value.expr))

/-! ## Closures -/

/-- The variables that a closure captures. -/
def captures (src : Source) (s : Site) : List Capture :=
  (s.phrases.filter (·.kind = "anonymous_function_use_clause")).flatMap fun clause =>
    clause.site.phrases.map fun var =>
      if var.kind = "by_ref" then ⟨(var.site.firstPhrase?.getD var).varText src, true⟩
      else ⟨var.varText src, false⟩

/-- Reads a closure. -/
def closureExpr (src : Source) (s : Site) : Reading ExprKind := do
  let params ← params src (s.field? "parameters")
  let body ← body (← s.field src "body")
  return .closure params (captures src s) (s.hasKind "reference_modifier")
    (s.hasKind "static_modifier") ((s.field? "return_type").bind (·.type)) body false

/-- Reads an arrow function, whose body is what it returns. -/
def arrowExpr (src : Source) (s : Site) : Reading ExprKind := do
  let body ← s.field src "body"
  let value ← body.expr
  let params ← params src (s.field? "parameters")
  return .closure params [] (s.hasKind "reference_modifier") (s.hasKind "static_modifier")
    ((s.field? "return_type").bind (·.type)) [.mk (.returns (some value)) body.span] true

/-! ## All expressions -/

/-- Reads a node that stands for another one inside it. -/
def transparent? (src : Source) (s : Site) : Option (Reading Expr) :=
  match s.kind with
  | "parenthesized_expression" =>
    some do (← s.need src s.firstPhrase? .emptyParens).expr
  | "sequence_expression" => some do (← s.need src s.lastPhrase? .emptySequence).expr
  | "by_ref" => some do (← s.need src s.firstPhrase? .emptyReference).expr
  | _ => none

/-- Reads the form of a node that stands for itself. -/
def exprKind (src : Source) (s : Site) : Reading ExprKind := do
  let text := src.text s.label
  match s.kind with
  | "variable_name" => return .variable (dropStart (· == '$') text)
  | "dynamic_variable_name" =>
    return .dynamicVariable (← (← s.need src s.firstPhrase? .emptyDynamic).expr)
  | "integer" => return .literal (intLiteral text)
  | "float" => return .literal (.float (floatValue (withoutSeparators text)))
  | "boolean" => return .literal (.bool (lowerAscii text = "true"))
  | "null" => return .literal .null
  | "string" => return .literal (.string (unquoteSingle text))
  | "encapsed_string" | "heredoc" | "nowdoc" => interpolated src s
  | "shell_command_expression" =>
    match ← interpolated src s with
    | .interpolated parts => return .shellExec parts
    | other => return .shellExec [.mk other s.span]
  | "name" | "qualified_name" =>
    match MagicConst.ofWord? text with
    | some constant => return .magicConst constant
    | none => return .constFetch (.parse text s.span)
  | "relative_scope" | "named_type" | "primitive_type" =>
    return .name (.parse (trim text) s.span)
  | "assignment_expression" =>
    let var ← (← s.field src "left").expr
    return .assign var (← (← s.field src "right").expr)
  | "reference_assignment_expression" =>
    let var ← (← s.field src "left").expr
    return .assignRef var (← (← s.field src "right").expr)
  | "augmented_assignment_expression" =>
    let token ← s.field src "operator"
    let spelling := token.text src
    let stem := if spelling.endsWith "=" then (spelling.dropEnd 1).toString else spelling
    match BinaryOp.ofToken? stem with
    | none => throw (token.site.fault src .unknownCompound)
    | some op =>
      let var ← (← s.field src "left").expr
      return .assignOp op var (← (← s.field src "right").expr)
  | "unary_op_expression" =>
    let operand ← s.need src s.lastPhrase? .missingOperand
    let token := (s.parts.find? (!·.label.label.named)).map (·.text src)
    match unaryOp? (token.getD "") with
    | none => throw (s.fault src .unknownUnary)
    | some op => return .unary op (← operand.expr)
  | "update_expression" =>
    let before := (s.parts.head?.map (·.text src)).any fun t => t = "++" || t = "--"
    let operand ← s.need src s.firstPhrase? .missingOperand
    return .incDec (occursIn "++" text) before (← operand.expr)
  | "cast_expression" => castExpr src s
  | "conditional_expression" =>
    let cond ← (← s.field src "condition").expr
    let ifTrue ← optionalExpr (s.field? "body")
    return .ternary cond ifTrue (← (← s.field src "alternative").expr)
  | "member_access_expression" | "nullsafe_member_access_expression" =>
    let var ← (← s.field src "object").expr
    let name ← memberName src s (← s.field src "name")
    return .property var name (s.kind.startsWith "nullsafe")
  | "member_call_expression" | "nullsafe_member_call_expression" =>
    let var ← (← s.field src "object").expr
    let name ← memberName src s (← s.field src "name")
    let args ← args src (s.field? "arguments")
    return .methodCall var name args (s.kind.startsWith "nullsafe")
  | "scoped_call_expression" =>
    let cls ← classRef src (← s.field src "scope")
    let name ← memberName src s (← s.field src "name")
    return .staticCall cls name (← args src (s.field? "arguments"))
  | "scoped_property_access_expression" =>
    let cls ← classRef src (← s.field src "scope")
    return .staticProperty cls (← memberName src s (← s.field src "name"))
  | "class_constant_access_expression" =>
    match s.phrases with
    | [cls, name] => return .classConst (← classRef src cls) (name.text src)
    | _ => throw (s.fault src .malformedClassConst)
  | "function_call_expression" => callExpr src s
  | "object_creation_expression" =>
    match ← newParts src none [] s.phrases with
    | (some cls, args) => return .new cls args
    | (none, _) => throw (s.fault src .missingClass)
  | "subscript_expression" =>
    match s.phrases with
    | [] => throw (s.fault src .missingArray)
    | var :: rest =>
      let var ← var.expr
      return .element var (← optionalExpr rest.head?)
  | "array_creation_expression" => return .array (← arrayItems src s) false
  | "list_literal" => return .array (← arrayItems src s) true
  | "include_expression" | "include_once_expression" | "require_expression"
  | "require_once_expression" =>
    let keyword := (s.kind.splitOn "_expression").headD ""
    let inner ← s.need src s.firstPhrase? .emptyInclude
    return .includeFile ((IncludeKind.ofKeyword? keyword).getD .plain) (← inner.expr)
  | "print_intrinsic" =>
    return .unary .print (← (← s.need src s.firstPhrase? .emptyPrint).expr)
  | "clone_expression" =>
    return .unary .clone (← (← s.need src s.firstPhrase? .emptyClone).expr)
  | "error_suppression_expression" =>
    return .errorSuppress (← (← s.need src s.firstPhrase? .emptySuppress).expr)
  | "anonymous_function" | "anonymous_function_creation_expression" => closureExpr src s
  | "arrow_function" => arrowExpr src s
  | "yield_expression" => yieldExpr src s
  | _ => return .literal .null

/-- The meaning of a node as an expression, one level deeper than what encloses it. -/
def Site.expr (src : Source) (s : Site) : Reading Expr :=
  deeper src s 1 <|
    match transparent? src s with
    | some inner => inner
    | none =>
      if s.kind = "binary_expression" then do
        -- the chain of the node itself never ends at once, so no meaning of its own is needed
        (← s.chain src (throw (s.fault src .emptyExpression))).expr src s
      else return .mk (← exprKind src s) s.span

/-- The meaning of a node as a sequence of expressions. -/
def Site.sequence (s : Site) (self : Reading Expr) : Reading (List Expr) := do
  if s.kind = "sequence_expression" then
    return (← s.phrases.mapM (·.label.meaning.sequence)).flatten
  else return [← self]

end QueryTaint.Concrete
