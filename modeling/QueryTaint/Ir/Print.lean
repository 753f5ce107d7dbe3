import QueryTaint.Ir.Arena
import QueryTaint.Text.Quoted

/-!
# The text of a program

Scripts, functions and operations as lines of text. Constants are written in place, variables by
their names, and other operands by their numbers.
-/

namespace QueryTaint.Arena

/-- How an operand is written. -/
def operandText (a : Arena) (id : OperandId) : String :=
  match (a.operand id).kind with
  | .scalar .null => "null"
  | .scalar (.bool b) => if b then "true" else "false"
  | .scalar (.number n) => Shortest.text n
  | .scalar (.string s) => quote s
  | .object cls => "object(" ++ cls ++ ")"
  | .symbolic tag => "<" ++ tag ++ ">"
  | .variable .. | .bound .. =>
    match a.nameOf? id with
    | some name => "$" ++ name
    | none => "$\x7b" ++ id.text ++ "\x7d"
  | .temporary _ =>
    match a.nameOf? id with
    | some name => id.text ++ "<$" ++ name ++ ">"
    | none => id.text

/-- How the operand in a slot is written: after the name of its field, or after a comma within a
list. -/
def slotText (a : Arena) (slot : Slot) (id : OperandId) : String :=
  match slot.index with
  | none => " " ++ slot.field.text ++ "=" ++ a.operandText id
  | some 0 => " " ++ slot.field.text ++ "=" ++ a.operandText id
  | some _ => "," ++ a.operandText id

/-- How an operation is written. -/
def opText (a : Arena) (id : OpId) : String :=
  let kind := (a.op id).kind
  kind.name
    ++ String.join (kind.slots.map fun (slot, id) => a.slotText slot id)
    ++ String.join (kind.subBlocks.map fun (name, block) => " " ++ name ++ "->" ++ block.text)

/-- The lines of a block. -/
def blockLines (a : Arena) (id : BlockId) : List String :=
  let b := a.block id
  let head := "  " ++ id.text ++ ":"
    ++ (if b.preds.isEmpty then ""
      else " preds=[" ++ ", ".intercalate (b.preds.map (·.text)) ++ "]")
    ++ (if b.dead then " dead" else "")
    ++ (if b.guarded then " when [" ++ ", ".intercalate (b.guards.map a.operandText) ++ "]"
      else "")
  head :: (b.phis ++ b.ops).map fun op => "    " ++ a.opText op

/-- The lines of a function. -/
def funcLines (a : Arena) (id : FuncId) : List String :=
  let f := a.func id
  ("function " ++ f.scopedName ++ "(): " ++ f.returnType.text ++ " [flags=0x" ++ hexText f.flags
    ++ "]") :: f.blocks.flatMap a.blockLines

/-- Lines as a text with an end after each. -/
def unlines (lines : List String) : String := String.join (lines.map (· ++ "\n"))

/-- The text of a function. -/
def funcText (a : Arena) (id : FuncId) : String := unlines (a.funcLines id)

/-- The text of a script. -/
def scriptText (a : Arena) (s : Script) : String :=
  unlines (("script " ++ s.path) :: s.includes.map ("  include " ++ ·)
    ++ s.ordered.flatMap a.funcLines)

/-- The text of scripts, an empty line between them. -/
def scriptsText (a : Arena) (scripts : List Script) : String :=
  "\n".intercalate (scripts.map a.scriptText)

end QueryTaint.Arena
