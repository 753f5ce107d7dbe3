import QueryTaint.Ir.Func

/-!
# The arena

All operands, operations, blocks and functions of a program. The operations of this module keep the
lists of writers and readers of every operand in step with the operations' fields.
-/

namespace QueryTaint

/-- The tables of a program, each in the order in which its entries were made. -/
structure Arena where
  operands : Array Operand := #[]
  ops : Array Op := #[]
  blocks : Array Block := #[]
  funcs : Array Func := #[]
deriving Inhabited

namespace Arena

/-! ## Access -/

/-- An operand. -/
def operand (a : Arena) (id : OperandId) : Operand := a.operands.getD id.index default

/-- An operation. -/
def op (a : Arena) (id : OpId) : Op := a.ops.getD id.index default

/-- A block. -/
def block (a : Arena) (id : BlockId) : Block := a.blocks.getD id.index default

/-- A function. -/
def func (a : Arena) (id : FuncId) : Func := a.funcs.getD id.index default

/-- Changes an operand. -/
def modifyOperand (a : Arena) (id : OperandId) (f : Operand → Operand) : Arena :=
  { a with operands := a.operands.modify id.index f }

/-- Changes an operation. -/
def modifyOp (a : Arena) (id : OpId) (f : Op → Op) : Arena :=
  { a with ops := a.ops.modify id.index f }

/-- Changes a block. -/
def modifyBlock (a : Arena) (id : BlockId) (f : Block → Block) : Arena :=
  { a with blocks := a.blocks.modify id.index f }

/-- Changes a function. -/
def modifyFunc (a : Arena) (id : FuncId) (f : Func → Func) : Arena :=
  { a with funcs := a.funcs.modify id.index f }

/-! ## Making entries -/

/-- Makes an operand. -/
def newOperand (a : Arena) (kind : OperandKind) : OperandId × Arena :=
  (⟨a.operands.size⟩, { a with operands := a.operands.push { kind } })

/-- Makes a block, which a function may own. -/
def newBlock (a : Arena) (func : Option FuncId) : BlockId × Arena :=
  let id : BlockId := ⟨a.blocks.size⟩
  let a := { a with blocks := a.blocks.push { func } }
  match func with
  | some f => (id, a.modifyFunc f fun r => { r with blocks := r.blocks ++ [id] })
  | none => (id, a)

/-- Makes a function with its entry block. -/
def newFunc (a : Arena) (name : String) : FuncId × Arena :=
  let id : FuncId := ⟨a.funcs.size⟩
  let entry : BlockId := ⟨a.blocks.size⟩
  (id, { a with
    blocks := a.blocks.push { func := some id }
    funcs := a.funcs.push { name, entry, blocks := [entry] } })

/-- Records what an operation does to the operand in one of its slots. -/
def recordSlot (kind : OpKind) (id : OpId) (operands : Array Operand)
    (entry : Slot × OperandId) : Array Operand :=
  operands.modify entry.2.index fun o =>
    if kind.writes entry.1 then o.addDef id else o.addUsage id

/-- Makes an operation, which stands in no block yet. -/
def addOp (a : Arena) (kind : OpKind) (span : Span) (file : Option String := none) :
    OpId × Arena :=
  let id : OpId := ⟨a.ops.size⟩
  (id, { a with
    operands := kind.slots.foldl (recordSlot kind id) a.operands
    ops := a.ops.push { kind, span, file } })

/-! ## Placing operations -/

/-- Puts an operation at the end of a block. -/
def append (a : Arena) (block : BlockId) (op : OpId) : Arena :=
  (a.modifyBlock block fun b => { b with ops := b.ops ++ [op] }).modifyOp op
    fun o => { o with block := some block }

/-- Puts a φ operation into a block. -/
def attachPhi (a : Arena) (block : BlockId) (phi : OpId) : Arena :=
  (a.modifyBlock block fun b => { b with phis := addNew b.phis phi }).modifyOp phi
    fun o => { o with block := some block }

/-- Adds an operand to a φ operation. -/
def addPhiOperand (a : Arena) (phi : OpId) (id : OperandId) : Arena :=
  match (a.op phi).kind with
  | .phi vars result =>
    (a.modifyOp phi fun o => { o with kind := .phi (vars ++ [id]) result }).modifyOperand id
      (·.addUsage phi)
  | _ => a

/-- Guards a block by an operand. -/
def addGuard (a : Arena) (block : BlockId) (cond : OperandId) : Arena :=
  (a.modifyBlock block fun b =>
    { b with guarded := true, guards := addNew b.guards cond }).modifyOperand cond
      (·.addCondUsage block)

/-- Records a block as a predecessor of another. -/
def link (a : Arena) (source target : BlockId) : Arena :=
  a.modifyBlock target fun b => { b with preds := addNew b.preds source }

/-! ## Values of operands -/

/-- The longest chain of values that is followed. -/
def maxChain : Nat := 64

/-- The string that an operand is. -/
def stringOf? (a : Arena) (id : OperandId) : Option String := (a.operand id).kind.string?

/-- The name of the variable behind an operand, followed for some steps. -/
def nameWithin? (a : Arena) : Nat → OperandId → Option String
  | 0, _ => none
  | steps + 1, id =>
    match (a.operand id).kind with
    | .variable name _ => a.stringOf? name
    | .bound name .. => a.stringOf? name
    | .temporary (some owner) => a.nameWithin? steps owner
    | _ => none

/-- The name of the variable behind an operand. -/
def nameOf? (a : Arena) (id : OperandId) : Option String := a.nameWithin? maxChain id

/-- What an operand directly stands for: the variable of a version, or the value of a variable. -/
def linkOf? (a : Arena) (id : OperandId) : Option OperandId :=
  match (a.operand id).kind with
  | .temporary owner => owner
  | .variable _ value => value
  | .bound _ value _ _ => value
  | _ => none

/-- What an operand stands for, followed for some steps. -/
def valueWithin (a : Arena) : Nat → OperandId → OperandId
  | 0, id => id
  | steps + 1, id =>
    match a.linkOf? id with
    | some next => a.valueWithin steps next
    | none => id

/-- What an operand stands for. -/
def valueOf (a : Arena) (id : OperandId) : OperandId := a.valueWithin maxChain id

/-- The scalar that an operand is known to hold. -/
def literalOf? (a : Arena) (id : OperandId) : Option (Scalar Float) :=
  (a.operand (a.valueOf id)).kind.scalar?

/-- Whether an operand is known to be an input. -/
def isSymbolic (a : Arena) (id : OperandId) : Bool :=
  match (a.operand (a.valueOf id)).kind with
  | .symbolic _ => true
  | _ => false

/-- Fixes the value of a variable, or of the variable that a version belongs to. -/
def setValue (a : Arena) (var value : OperandId) : Arena :=
  let target := match (a.operand var).kind with
    | .temporary (some owner) => owner
    | _ => var
  a.modifyOperand target fun o =>
    match o.kind with
    | .variable name _ => { o with kind := .variable name (some value) }
    | .bound name _ byRef scope => { o with kind := .bound name (some value) byRef scope }
    | _ => o

/-- Whether the type that an operand names has no strings of its own among its values. -/
def isRigidType (a : Arena) (id : OperandId) : Bool :=
  match a.stringOf? id with
  | some name => lowerAscii name ∈ Assertion.nonStringTypes
  | none => false

/-- Whether no value that satisfies an assertion can carry text. -/
def excludesStrings (a : Arena) (assertion : Assertion) : Bool :=
  assertion.excludes a.isRigidType false

/-! ## Replacing operands -/

/-- Replaces one operand by another in an operation. -/
def replaceInOp (a : Arena) (op : OpId) (old new : OperandId) : Arena :=
  if old = new then a
  else
    let kind := (a.op op).kind.mapOperands fun id => if id = old then new else id
    let here := kind.slots.filter fun (_, id) => id = new
    let wrote := here.any fun (slot, _) => kind.writes slot
    let read := here.any fun (slot, _) => !kind.writes slot
    let a := a.modifyOp op fun o => { o with kind }
    let a := a.modifyOperand old fun o => (o.removeUsage op).removeDef op
    a.modifyOperand new fun o =>
      let o := if wrote then o.addDef op else o
      if read then o.addUsage op else o

/-- Replaces an operand among the guards of a block. -/
def replaceGuard (old new : OperandId) (a : Arena) (block : BlockId) : Arena :=
  (a.modifyBlock block fun b =>
    { b with guards := b.guards.map fun id => if id = old then new else id }).modifyOperand new
      (·.addCondUsage block)

/-- Replaces an operand by another wherever it is read, guards included. -/
def replaceUses (a : Arena) (old new : OperandId) : Arena :=
  if old = new then a
  else
    let a := (a.operand old).usages.foldl (fun a op => a.replaceInOp op old new) a
    let blocks := (a.operand old).condUsages
    let a := a.modifyOperand old fun o => { o with condUsages := [] }
    blocks.foldl (replaceGuard old new) a

/-- Takes an operation out of its block and out of its operands' lists. -/
def removeOp (a : Arena) (op : OpId) : Arena :=
  let a := match (a.op op).block with
    | some block => (a.modifyBlock block fun b =>
        { b with ops := b.ops.filter (· ≠ op), phis := b.phis.filter (· ≠ op) }).modifyOp op
          fun o => { o with block := none }
    | none => a
  (a.op op).kind.slots.foldl
    (fun a (_, id) => a.modifyOperand id fun o => (o.removeUsage op).removeDef op) a

/-! ## Control flow -/

/-- The operation that ends a block. -/
def terminator? (a : Arena) (block : BlockId) : Option OpId :=
  (a.block block).ops.getLast?.filter fun op => (a.op op).kind.isTerminator

/-- The blocks where execution may go on after a block. -/
def successors (a : Arena) (block : BlockId) : List BlockId :=
  match a.terminator? block with
  | some op => (a.op op).kind.successors
  | none => []

/-- The predecessors of a block that are not dead. -/
def livePreds (a : Arena) (block : BlockId) : List BlockId :=
  (a.block block).preds.filter fun p => !(a.block p).dead

end Arena

end QueryTaint
