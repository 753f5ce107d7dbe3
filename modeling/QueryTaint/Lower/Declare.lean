import QueryTaint.Lower.Control
import QueryTaint.Lower.Value

/-!
# Lowering declarations

How functions, classes, constants and static variables are built, given the steps that lower their
parts. The values of constants, properties and parameters stand in blocks of their own.
-/

namespace QueryTaint.Lower

/-- The names of types that are no classes. -/
def builtinTypes : List String :=
  ["self", "parent", "static", "int", "integer", "long", "float", "double", "real", "array",
    "object", "bool", "boolean", "null", "void", "false", "true", "string", "mixed", "resource",
    "callable", "iterable", "never"]

mutual

/-- The type that a hint declares. -/
def hintType : TypeHint → DeclaredType
  | .union types => .union (hintTypes types)
  | .named name nullable =>
    let lower := lowerAscii name.joined
    if lower == "mixed" then .mixed
    else if lower == "void" then .void
    else if name.parts.length = 1 && lower ∈ builtinTypes then .builtin lower nullable
    else .reference name.joined nullable

/-- The types that hints declare. -/
def hintTypes : List TypeHint → List DeclaredType
  | [] => []
  | hint :: rest => hintType hint :: hintTypes rest

end

/-- The type that is declared, any type if none is. -/
def declaredType (hint : Option TypeHint) : DeclaredType := (hint.map hintType).getD .mixed

/-- Lowers a value in a block of its own. -/
def apart (value : Lowering OperandId) : Lowering (OperandId × BlockId) := do
  let block ← newBlock
  return (← inBlock block value, block)

/-- Lowers a value that may be absent in a block of its own. -/
def defaultApart (value : Option (Lowering OperandId)) :
    Lowering (Option OperandId × Option BlockId) := do
  match value with
  | some value =>
    let (value, block) ← apart value
    return (some value, some block)
  | none => return (none, none)

/-! ## Functions -/

/-- A parameter of a function. -/
def param (func : FuncId) (entry : BlockId) (p : Param (Lowering OperandId)) :
    Lowering Unit := do
  let (default, defaultBlock) ← defaultApart p.default
  let name ← newString p.name
  let var ← newOperand (.variable name none)
  let result ← newTemporary (some var)
  let op ← detached (.param name default defaultBlock p.byRef p.variadic (declaredType p.type)
    func result) p.span
  bindIn entry p.name result
  change fun a =>
    (a.append entry op).modifyFunc func fun f => { f with params := f.params ++ [op] }

/-- Ends a body: returns from its last block unless that is dead, and completes the φs. -/
def finishBody : Build Unit := do
  if !(← isDead (← get).block) then
    let _ ← emit (.returns none) .none
  let pending := (← get).scope.pending
  changeScope fun s => { s with complete := true, pending := #[] }
  completePhis pending.toList

/-- The body of a function, where captured variables have the given values. -/
def body (func : FuncId) (captured : List (String × OperandId))
    (params : List (Param (Lowering OperandId))) (steps : List (Lowering Unit)) :
    Lowering Unit := do
  let entry ← look fun a => (a.func func).entry
  let outer := ((← get).func, (← get).scope, (← get).block)
  modify fun b => { b with func, scope := {}, block := entry }
  captured.forM fun (name, value) => bindIn entry name value
  params.forM (param func entry)
  inOrder steps
  finishBody
  modify fun b => { b with func := outer.1, scope := outer.2.1, block := outer.2.2 }

/-- Makes a function of the current file. -/
def newFunc (name : String) (span : Span) (returnType : Option TypeHint) (flags : Nat)
    (cls : Option String) : Build FuncId := do
  let path := (← get).script.path
  let func ← build (·.newFunc name)
  change (·.modifyFunc func fun f =>
    { f with span, file := some path, returnType := declaredType returnType, flags, cls })
  return func

/-- Records the operation that makes a function. -/
def setCallable (func : FuncId) (op : OpId) : Build Unit :=
  change (·.modifyFunc func fun f => { f with callable := some op })

/-- Lists a function in the script. -/
def listFunction (name : String) (func : FuncId) : Build Unit :=
  modify fun b => { b with script := b.script.addFunction name func }

/-- The flag of a function that may return a reference. -/
def refFlag (byRef : Bool) : Nat := if byRef then Func.returnsRef else 0

/-- A function declaration. -/
def function (name : String) (params : List (Param (Lowering OperandId))) (byRef : Bool)
    (returnType : Option TypeHint) (steps : List (Lowering Unit)) (span : Span) :
    Lowering Unit := do
  let func ← newFunc name span returnType (refFlag byRef) none
  let op ← emit (.function func) span
  setCallable func op
  body func [] params steps
  listFunction name func

/-- The flags of a method: its modifiers without `readonly`, and `public` unless it is protected or
private. -/
def methodFlags (modifiers : Nat) (byRef : Bool) : Nat :=
  let flags := modifiers % 64
  (if flags &&& (Modifier.bit "protected" ||| Modifier.bit "private") = 0 then
    flags ||| Modifier.bit "public" else flags) ||| refFlag byRef

/-- A method declaration. -/
def method (name : String) (modifiers : Nat) (params : List (Param (Lowering OperandId)))
    (byRef : Bool) (returnType : Option TypeHint) (steps : List (Lowering Unit)) (span : Span) :
    Lowering Unit := do
  let flags := methodFlags modifiers byRef
  let func ← newFunc name span returnType flags (← get).cls
  let op ← emit (.classMethod func flags) span
  setCallable func op
  body func [] params steps
  listFunction (← look fun a => (a.func func).scopedName) func

/-- The variables that a closure captures, each bound to the version that is current where the
closure is made. -/
def captures : List Capture → Build (List (String × OperandId))
  | [] => return []
  | used :: rest => do
    let value ← readName used.name (← get).block
    let name ← newString used.name
    let bound ← newOperand (.bound name (some value) used.byRef .locals)
    return (used.name, bound) :: (← captures rest)

/-- A closure. -/
def closure (params : List (Param (Lowering OperandId))) (uses : List Capture)
    (byRef isStatic : Bool) (returnType : Option TypeHint) (steps : List (Lowering Unit))
    (span : Span) : Lowering OperandId := do
  let name ← modifyGet fun b =>
    let (name, labels) := b.labels.nextFunction
    (name, { b with labels })
  let flags := Func.closureFlag ||| refFlag byRef ||| if isStatic then Modifier.bit "static" else 0
  let func ← newFunc name span returnType flags none
  let captured ← captures uses
  body func captured params steps
  listFunction name func
  let result ← newTemporary none
  let op ← emit (.closure func (captured.map (·.2)) result) span
  setCallable func op
  return result

/-! ## Classes, constants and static variables -/

/-- A class declaration. -/
def classDecl (kind : ClassKind) (name : String) (modifiers : Nat) (parent : Option Name)
    (implements : List Name) (steps : List (Lowering Unit)) (span : Span) : Lowering Unit := do
  let outer := (← get).cls
  let block ← newBlock
  inBlock block do
    modify fun b => { b with cls := some name }
    inOrder steps
    modify fun b => { b with cls := outer }
  let name ← newString name
  let parent ← match parent with
    | some parent => do pure (some (← newString parent.joined))
    | none => pure none
  let implements ← implements.mapM fun i => newString i.joined
  let _ ← emit (.classDecl kind name block modifiers parent implements) span

/-- A property declaration. -/
def propertyDecl (modifiers : Nat) (type : DeclaredType) (p : Declared (Lowering OperandId)) :
    Lowering Unit := do
  let (default, block) ← defaultApart p.default
  match default, block with
  | some value, some block =>
    if ← look fun a => (a.operand value).tainted then
      changeFunc fun f => { f with readsInput := true }
      change (·.modifyBlock block fun b => { b with readsInput := true })
  | _, _ => pure ()
  let name ← newString p.name
  let _ ← emit (.propertyDecl name modifiers type default block) p.span

/-- A constant declaration. A constant of a class has the name of the class in front. -/
def constDecl (inClass : Bool) (c : ConstDecl (Lowering OperandId)) : Lowering Unit := do
  let (value, block) ← apart c.value
  let name := match inClass, (← get).cls with
    | true, some cls => cls ++ "::" ++ c.name.joined
    | _, _ => c.name.joined
  let operand ← newString name
  let _ ← emit (.constDecl operand value (some block)) c.span
  define name value

/-- A static variable. -/
def staticVar (v : Declared (Lowering OperandId)) : Lowering Unit := do
  let (default, defaultBlock) ← defaultApart v.default
  let name ← newString v.name
  let bound ← newOperand (.bound name default false .function)
  bindIn (← get).block v.name bound
  let _ ← emit (.staticVar bound default defaultBlock) v.span

/-- Removes variables. Each of the first `named` kind gets a new version. -/
def unset : List (Bool × Lowering OperandId) → Lowering (List OperandId × List OperandId)
  | [] => return ([], [])
  | (named, step) :: rest => do
    let raw ← step
    let read ← readVariable raw
    let write ← if named then writeVariable raw else newTemporary none
    let (reads, writes) ← unset rest
    return (read :: reads, write :: writes)

end QueryTaint.Lower
