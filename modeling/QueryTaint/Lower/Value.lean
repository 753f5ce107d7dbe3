import QueryTaint.Lower.Variable
import QueryTaint.Number.Numeric
import QueryTaint.Text.Path

/-!
# Lowering expressions

How each form of expression is built, given the steps that lower its parts.
-/

namespace QueryTaint.Lower

/-! ## Literals and names -/

/-- Makes the operand of a literal. -/
def literal : Literal → Build OperandId
  | .null => newOperand .null
  | .bool b => newOperand (.scalar (.bool b))
  | .int n => newNumber (Binary64.ofInt n.toInt)
  | .float x => newNumber x
  | .string s => newString s

/-- Makes the operand of a variable; inside a class, `$this` is an object of it. -/
def variableOperand (name : String) : Build OperandId := do
  match name, (← get).cls with
  | "this", some cls =>
    let name ← newString "this"
    let object ← newOperand (.object cls)
    newOperand (.bound name (some object) false .object)
  | _, _ => newVariable name

/-- The value that a constant is known to have, by its full name or by its last part. -/
def knownConst (name : Name) (fallback : OperandId) : Build OperandId := do
  let consts := (← get).consts
  return ((consts.get? name.joined).or (consts.get? name.leaf)).getD fallback

/-- Reads a constant. -/
def constant (name : Name) (span : Span) : Build OperandId := do
  match lowerAscii name.joined with
  | "true" => newOperand (.scalar (.bool true))
  | "false" => newOperand (.scalar (.bool false))
  | "null" => newOperand .null
  | _ =>
    let operand ← newString name.joined
    let result ← emitValue span (.constFetch operand ·)
    knownConst name result

/-- Reads a constant of a class; the constant `class` is the name of the class. -/
def classConstant (cls : OperandId) (name : String) (span : Span) : Build OperandId := do
  let className ← look (·.stringOf? cls)
  match className, lowerAscii name with
  | some className, "class" => newString className
  | _, _ =>
    let operand ← newString name
    let result ← emitValue span (.classConst cls operand ·)
    let consts := (← get).consts
    return (className.bind fun c => consts.get? (c ++ "::" ++ name)).getD result

/-! ## Elements and properties -/

/-- Makes the result of reading a property: a version of the variable that stands for it, if its
name is known. -/
def fieldResult (key : Option String) : Build OperandId := do
  match key with
  | some key => newTemporary (some (← newVariable key))
  | none => newTemporary none

/-- The part of a name that follows the start of a property's name. -/
def dropPropertyStem (name : String) : String :=
  if name.startsWith propertyStem then
    String.ofList (name.toList.drop propertyStem.length)
  else name

/-- Reads a property. -/
def property (object name : Lowering OperandId) (span : Span) : Lowering OperandId := do
  let raw ← object
  let base := (← look (·.nameOf? raw)).map dropPropertyStem
  let object ← readVariable raw
  let name ← name
  let key := match base, ← look (·.stringOf? name) with
    | some base, some field => some (propertyStem ++ base ++ "->" ++ field)
    | _, _ => none
  let result ← fieldResult key
  let _ ← emit (.property object name result) span
  return result

/-- Reads a static property. -/
def staticProperty (cls name : OperandId) (span : Span) : Build OperandId := do
  let key := match ← look (·.stringOf? cls), ← look (·.stringOf? name) with
    | some cls, some field => some (staticPropertyStem ++ cls ++ "::" ++ field)
    | _, _ => none
  let result ← fieldResult key
  let _ ← emit (.staticProperty cls name result) span
  return result

/-- The items of an array: the operands of keys and values, and which values are references. An
item without a key has the key null; a hole is left out. -/
def arrayItems : List (ArrayItem (Lowering OperandId)) →
    Lowering (List OperandId × List OperandId × List Bool)
  | [] => return ([], [], [])
  | ⟨_, none, _, _⟩ :: rest => arrayItems rest
  | ⟨key, some value, byRef, _⟩ :: rest => do
    let key ← match key with
      | some key => current key
      | none => newOperand .null
    let value ← current value
    let (keys, values, byRefs) ← arrayItems rest
    return (key :: keys, value :: values, byRef :: byRefs)

/-- Makes an array. -/
def array (items : List (ArrayItem (Lowering OperandId))) (span : Span) :
    Lowering OperandId := do
  let (keys, values, byRefs) ← arrayItems items
  emitValue span (.array keys values byRefs ·)

/-! ## Assignments -/

/-- Assigns a value to a target. A constant that is assigned to a whole variable becomes the known
value of the variable, and a scalar one the value of the expression. -/
def assign (whole : Bool) (value target : Lowering OperandId) (span : Span) :
    Lowering OperandId := do
  let value ← current value
  let target ← target
  let result ← emitValue span (.assign target value ·)
  let resolved ← look (·.valueOf value)
  let kind ← look fun a => (a.operand resolved).kind
  if whole && kind.isConstantLike then
    change (·.setValue target resolved)
    return if kind.scalar?.isSome then resolved else result
  else return result

/-- Combines the value of a target with another one and assigns the result. -/
def assignOp (op : BinaryOp) (left right target : Lowering OperandId) (span : Span) :
    Lowering OperandId := do
  let left ← current left
  let right ← current right
  let combined ← emitValue span (.binary op left right ·)
  let target ← target
  let _ ← emitValue span (.assign target combined ·)
  return combined

/-- Adds one to a target or subtracts one from it; the value is that before or after it. -/
def incDec (increment before : Bool) (value target : Lowering OperandId) (span : Span) :
    Lowering OperandId := do
  let value ← current value
  let one ← newNumber 1.0
  let op := if increment then BinaryOp.plus else BinaryOp.minus
  let updated ← emitValue span (.binary op value one ·)
  let target ← target
  let _ ← emitValue span (.assign target updated ·)
  return if before then updated else value

/-- The index of an element that a pattern takes, and the position after it. A key that is given
leaves the position as it is. -/
def elementIndex (position : Nat) (key : Option (Lowering OperandId)) :
    Lowering (OperandId × Nat) := do
  match key with
  | some key => return (← current key, position)
  | none => return (← newNumber (Binary64.ofInt position), position + 1)

/-! ## Operators -/

/-- The type that a name given by `gettype` stands for. -/
def runtimeType : String → String
  | "integer" => "int"
  | "double" => "float"
  | "boolean" => "bool"
  | "NULL" => "null"
  | other => other

/-- The variable whose type an operand holds the name of. -/
def typeSubject? (a : Arena) (id : OperandId) : Option OperandId := do
  let op ← (a.operand id).defs.head?
  match (a.op op).kind with
  | .functionCall name args _ =>
    let name ← a.stringOf? name
    if lowerAscii name == "gettype" then
      args.head?.filter fun subject => (a.nameOf? subject).isSome
    else none
  | _ => none

/-- The variable and the type that an equation between the name of the variable's type and a string
speaks of. -/
def typeEquation? (a : Arena) (left right : OperandId) : Option (OperandId × String) :=
  let side (x y : OperandId) : Option (OperandId × String) := do
    return (← typeSubject? a x, ← a.stringOf? y)
  (side left right).or (side right left)

/-- Asserts something of a variable where a condition is true. -/
def addAssertion (cond var : OperandId) (assertion : Assertion) : Build Unit :=
  change (·.modifyOperand cond fun o => o.addAssertion var assertion)

/-- Asserts of a condition what is asserted of another one. -/
def copyAssertions (edit : Assertion → Assertion) (source cond : OperandId) : Build Unit := do
  let assertions ← look fun a => (a.operand source).assertions
  assertions.forM fun asserted => addAssertion cond asserted.var (edit asserted.assertion)

/-- Asserts the type that an equation speaks of. -/
def assertType (negated : Bool) (left right result : OperandId) : Build Unit := do
  match ← look fun a => typeEquation? a left right with
  | some (subject, type) =>
    let type ← newString (runtimeType type)
    addAssertion result subject (.type type negated)
  | none => return

/-- Applies a binary operator. -/
def binary (op : BinaryOp) (left right : OperandId) (span : Span) : Build OperandId := do
  let result ← emitValue span (.binary op left right ·)
  match op with
  | .equal | .identical => assertType false left right result
  | .notEqual | .notIdentical => assertType true left right result
  | .logicalAnd =>
    copyAssertions id left result
    copyAssertions id right result
  | _ => pure ()
  return result

/-- Applies a unary operator. -/
def unary (op : UnaryOp) (arg : OperandId) (span : Span) : Build OperandId := do
  let result ← emitValue span (.unary op arg ·)
  if op = .booleanNot then copyAssertions Assertion.negation arg result
  return result

/-- Tests whether a value is an object of a class. -/
def instanceOf (arg cls : OperandId) (span : Span) : Build OperandId := do
  let result ← emitValue span (.instanceOf arg cls ·)
  if (← look (·.nameOf? arg)).isSome then addAssertion result arg (.type cls false)
  return result

/-- Chooses one of two values. The first is the condition itself if none is given. -/
def ternary (cond : Lowering OperandId) (ifTrue : Option (Lowering OperandId))
    (ifFalse : Lowering OperandId) (span : Span) : Lowering OperandId := do
  let cond ← current cond
  let ifBlock ← newBlock
  let elseBlock ← newBlock
  let last ← newBlock
  jumpIf cond ifBlock elseBlock span
  assertBranches cond ifBlock elseBlock
  let arm (block : BlockId) (value : Lowering OperandId) : Lowering (List OperandId) := do
    guardBlock block
    goTo block
    let value ← value
    let dead ← isDead (← get).block
    jump last span
    return if dead then [] else [value]
  let first ← under cond (arm ifBlock (match ifTrue with
    | some value => current value
    | none => pure cond))
  let negated ← negate cond
  let second ← under negated (arm elseBlock (current ifFalse))
  goTo last
  let result ← newTemporary none
  let phi ← detached (.phi (first ++ second) result) span
  change (·.attachPhi last phi)
  return result

/-! ## Calls -/

/-- The type that a predicate on types asserts. -/
def predicateType? : String → Option String
  | "is_array" => some "array"
  | "is_bool" => some "bool"
  | "is_callable" => some "callable"
  | "is_double" | "is_float" | "is_real" => some "float"
  | "is_int" | "is_integer" | "is_long" => some "int"
  | "is_null" => some "null"
  | "is_numeric" => some "numeric"
  | "is_object" => some "object"
  | "is_resource" => some "resource"
  | "is_string" => some "string"
  | _ => none

/-- The cast that `settype` does for a type. -/
def settypeCast? (type : String) : Option CastKind :=
  match lowerAscii type with
  | "int" | "integer" => some .int
  | "float" | "double" => some .double
  | "bool" | "boolean" => some .bool
  | "string" => some .string
  | "array" => some .array
  | "object" => some .object
  | "null" => some .unset
  | _ => none

/-- Assigns a variable, cast to a type, to itself. -/
def settype (value type : OperandId) (target : Lowering OperandId) (span : Span) :
    Lowering Unit := do
  match (← look (·.stringOf? type)).bind settypeCast? with
  | some kind =>
    let cast ← emitValue span (.cast kind value ·)
    let target ← target
    let _ ← emitValue span (.assign target cast ·)
  | none => return

/-- Defines a constant; only the top level of a file makes it known. -/
def define (name : String) (value : OperandId) : Build Unit :=
  modify fun b =>
    if b.func = b.script.main then { b with consts := b.consts.insert name value } else b

/-- Calls a function. Casting a variable in place and defining a constant are done here, and a
predicate on types asserts the type. The first target is that of casting in place. -/
def call (args : List (Lowering OperandId)) (name target : Lowering OperandId) (span : Span) :
    Lowering OperandId := do
  let args ← args.mapM current
  let name ← name
  let callee := (← look (·.stringOf? name)).map leafName
  match callee, args with
  | some "settype", value :: type :: _ => settype value type target span
  | some "define", const :: value :: _ =>
    if let some const ← look (·.stringOf? const) then define const value
  | _, _ => pure ()
  let result ← emitCall span (.functionCall name args ·)
  match callee.bind predicateType?, args with
  | some type, subject :: _ =>
    if (← look (·.nameOf? subject)).isSome then
      addAssertion result subject (.type (← newString type) false)
  | _, _ => pure ()
  return result

/-- Makes an object. -/
def new (cls : OperandId) (args : List OperandId) (span : Span) : Build OperandId := do
  let result ← match ← look (·.stringOf? cls) with
    | some name => do newTemporary (some (← newOperand (.object name)))
    | none => newTemporary none
  let _ ← emit (.new cls args result) span
  return result

/-! ## Includes -/

mutual

/-- The text that an expression has whenever it is run. -/
def staticText? : Expr → Option String
  | .mk (.literal (.string s)) _ => some s
  | .mk (.binary .concat left right) _ => do
    let left ← staticText? left
    return left ++ (← staticText? right)
  | .mk (.interpolated parts) _ => staticTexts? parts
  | _ => none

/-- The texts of expressions, one after the other. -/
def staticTexts? : List Expr → Option String
  | [] => some ""
  | part :: rest => do
    let part ← staticText? part
    return part ++ (← staticTexts? rest)

end

/-- The file that a file includes under some path. -/
def includedPath (file target : String) : String :=
  if target.startsWith "/" then normalizePath target
  else
    match parentPath? file with
    | some dir => normalizePath (joinPath dir target)
    | none => normalizePath target

/-- Includes a file; its path is recorded if it is known. -/
def includeFile (kind : IncludeKind) (text : Option String) (value : Lowering OperandId)
    (span : Span) : Lowering OperandId := do
  let value ← current value
  if let some target := text then
    modify fun b => { b with script := b.script.addInclude (includedPath b.script.path target) }
  emitValue span (.includeFile kind value ·)

end QueryTaint.Lower
