import Std.Data.TreeMap
import QueryTaint.Ir.Op

/-!
# Blocks, functions and scripts

A function is a graph of blocks; a script is the functions of one file.
-/

namespace QueryTaint

/-- A basic block: its operations in order and, apart from them, its φ operations. Predecessors
may be dead blocks. A block that is guarded knows its guards. -/
structure Block where
  func : Option FuncId
  ops : List OpId := []
  preds : List BlockId := []
  phis : List OpId := []
  dead : Bool := false
  guarded : Bool := false
  guards : List OperandId := []
  readsInput : Bool := false
deriving Repr, Inhabited

/-- A function, method or closure, or the top level of a file. -/
structure Func where
  name : String
  entry : BlockId
  blocks : List BlockId
  flags : Nat := 0
  returnType : DeclaredType := .mixed
  cls : Option String := none
  params : List OpId := []
  callable : Option OpId := none
  readsInput : Bool := false
  sources : List OpId := []
  calls : List OpId := []
  span : Span := .none
  file : Option String := none
deriving Repr, Inhabited

namespace Func

/-- The flag of a function that returns a reference. -/
def returnsRef : Nat := 64

/-- The flag of a closure. -/
def closureFlag : Nat := 128

/-- The name of the top level of a file. -/
def mainName : String := "\x7bmain\x7d"

/-- Whether the function is the top level of a file. -/
def isMain (f : Func) : Bool := f.name == mainName && f.cls.isNone

/-- Whether the function is a closure. -/
def isClosure (f : Func) : Bool := f.flags &&& closureFlag != 0

/-- The name of a method with that of its class, or the name of a function. -/
def scopedName (f : Func) : String :=
  match f.cls with
  | some cls => cls ++ "::" ++ f.name
  | none => f.name

end Func

/-- The functions of one file by scoped name and in order of declaration, and the files that it
includes. -/
structure Script where
  path : String
  functions : Std.TreeMap String FuncId
  ordered : List FuncId
  includes : List String := []
  main : FuncId
deriving Inhabited

namespace Script

/-- A script with only its top level. -/
def ofMain (path : String) (main : FuncId) : Script :=
  { path, functions := ({} : Std.TreeMap String FuncId).insert Func.mainName main
    ordered := [main], main }

/-- Adds a function. One whose name is known takes the name over and is not listed again. -/
def addFunction (s : Script) (name : String) (func : FuncId) : Script :=
  { s with
    functions := s.functions.insert name func
    ordered := if s.functions.contains name then s.ordered else s.ordered ++ [func] }

/-- Adds an included file. -/
def addInclude (s : Script) (path : String) : Script :=
  { s with includes := addNew s.includes path }

end Script

end QueryTaint
