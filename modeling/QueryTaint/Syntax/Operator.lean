import QueryTaint.Text.Character

/-!
# Operators and keywords

The operators, casts, include forms, magic constants and declaration modifiers of PHP, with the
spellings that are read and the one that is written. Keywords are read in either case.
-/

namespace QueryTaint

/-- A text with its ASCII letters in lower case. -/
def lowerAscii (s : String) : String := s.map Char.toLower

/-- A text with its ASCII letters in upper case. -/
def upperAscii (s : String) : String := s.map Char.toUpper

/-- A binary operator. -/
inductive BinaryOp where
  | bitwiseAnd | bitwiseOr | bitwiseXor | coalesce | concat | div | equal | greater
  | greaterOrEqual | identical | logicalAnd | logicalOr | logicalXor | minus | mod | mul
  | notEqual | notIdentical | plus | pow | shiftLeft | shiftRight | smaller | smallerOrEqual
  | spaceship
deriving DecidableEq, Repr, Inhabited

namespace BinaryOp

/-- All operators. -/
def all : List BinaryOp :=
  [bitwiseAnd, bitwiseOr, bitwiseXor, coalesce, concat, div, equal, greater, greaterOrEqual,
    identical, logicalAnd, logicalOr, logicalXor, minus, mod, mul, notEqual, notIdentical, plus,
    pow, shiftLeft, shiftRight, smaller, smallerOrEqual, spaceship]

/-- The spelling of an operator. -/
def symbol : BinaryOp → String
  | bitwiseAnd => "&"
  | bitwiseOr => "|"
  | bitwiseXor => "^"
  | coalesce => "??"
  | concat => "."
  | div => "/"
  | equal => "=="
  | greater => ">"
  | greaterOrEqual => ">="
  | identical => "==="
  | logicalAnd => "&&"
  | logicalOr => "||"
  | logicalXor => "xor"
  | minus => "-"
  | mod => "%"
  | mul => "*"
  | notEqual => "!="
  | notIdentical => "!=="
  | plus => "+"
  | pow => "**"
  | shiftLeft => "<<"
  | shiftRight => ">>"
  | smaller => "<"
  | smallerOrEqual => "<="
  | spaceship => "<=>"

/-- The operator that a token spells; `and`, `or` and `<>` are second spellings. -/
def ofToken? (token : String) : Option BinaryOp :=
  match lowerAscii token with
  | "and" => some logicalAnd
  | "or" => some logicalOr
  | "<>" => some notEqual
  | lower => all.find? (·.symbol == lower)

/-- The name of an operator. -/
def name : BinaryOp → String
  | bitwiseAnd => "BitwiseAnd"
  | bitwiseOr => "BitwiseOr"
  | bitwiseXor => "BitwiseXor"
  | coalesce => "Coalesce"
  | concat => "Concat"
  | div => "Div"
  | equal => "Equal"
  | greater => "Greater"
  | greaterOrEqual => "GreaterOrEqual"
  | identical => "Identical"
  | logicalAnd => "LogicalAnd"
  | logicalOr => "LogicalOr"
  | logicalXor => "LogicalXor"
  | minus => "Minus"
  | mod => "Mod"
  | mul => "Mul"
  | notEqual => "NotEqual"
  | notIdentical => "NotIdentical"
  | plus => "Plus"
  | pow => "Pow"
  | shiftLeft => "ShiftLeft"
  | shiftRight => "ShiftRight"
  | smaller => "Smaller"
  | smallerOrEqual => "SmallerOrEqual"
  | spaceship => "Spaceship"

end BinaryOp

/-- A unary operator, or a construct that reads like one. -/
inductive UnaryOp where
  | bitwiseNot | booleanNot | unaryMinus | unaryPlus | print | clone | empty | evaluate
deriving DecidableEq, Repr, Inhabited

namespace UnaryOp

/-- All operators. -/
def all : List UnaryOp :=
  [bitwiseNot, booleanNot, unaryMinus, unaryPlus, print, clone, empty, evaluate]

/-- The spelling of an operator. -/
def symbol : UnaryOp → String
  | bitwiseNot => "~"
  | booleanNot => "!"
  | unaryMinus => "-"
  | unaryPlus => "+"
  | print => "print"
  | clone => "clone"
  | empty => "empty"
  | evaluate => "eval"

/-- The name of an operator. -/
def name : UnaryOp → String
  | bitwiseNot => "BitwiseNot"
  | booleanNot => "BooleanNot"
  | unaryMinus => "UnaryMinus"
  | unaryPlus => "UnaryPlus"
  | print => "Print"
  | clone => "Clone"
  | empty => "Empty"
  | evaluate => "Eval"

/-- The operator of a name. -/
def ofName? (name : String) : Option UnaryOp := all.find? (·.name == name)

end UnaryOp

/-- The kind that a cast converts to. -/
inductive CastKind where
  | array | bool | double | int | object | string | unset
deriving DecidableEq, Repr, Inhabited

namespace CastKind

/-- The kind that a keyword names; blanks around it are allowed. -/
def ofKeyword? (word : String) : Option CastKind :=
  match lowerAscii (trim word) with
  | "array" => some array
  | "bool" | "boolean" => some bool
  | "float" | "double" | "real" => some double
  | "int" | "integer" => some int
  | "object" => some object
  | "string" | "binary" => some string
  | "unset" => some unset
  | _ => none

/-- The keyword of a kind. -/
def keyword : CastKind → String
  | array => "array"
  | bool => "bool"
  | double => "double"
  | int => "int"
  | object => "object"
  | string => "string"
  | unset => "unset"

end CastKind

/-- The form of an include expression. -/
inductive IncludeKind where
  | plain | once | required | requiredOnce
deriving DecidableEq, Repr, Inhabited

namespace IncludeKind

/-- The keyword of an include form. -/
def keyword : IncludeKind → String
  | plain => "include"
  | once => "include_once"
  | required => "require"
  | requiredOnce => "require_once"

/-- The include form that a keyword names. -/
def ofKeyword? (word : String) : Option IncludeKind :=
  [plain, once, required, requiredOnce].find? (·.keyword == lowerAscii word)

end IncludeKind

/-- A constant whose value depends on where it stands. -/
inductive MagicConst where
  | className | traitName | namespaceName | functionName | methodName | line | file | directory
deriving DecidableEq, Repr, Inhabited

namespace MagicConst

/-- The name of a magic constant. -/
def name : MagicConst → String
  | className => "Class"
  | traitName => "Trait"
  | namespaceName => "Namespace"
  | functionName => "Function"
  | methodName => "Method"
  | line => "Line"
  | file => "File"
  | directory => "Dir"

/-- The magic constant that a word spells, in either case: its name between two underscores. -/
def ofWord? (word : String) : Option MagicConst :=
  [className, traitName, namespaceName, functionName, methodName, line, file, directory].find?
    fun m => "__" ++ upperAscii m.name ++ "__" == upperAscii word

end MagicConst

namespace Modifier

/-- The bit of a declaration modifier, zero for any other word. -/
def bit (word : String) : Nat :=
  match lowerAscii word with
  | "public" => 1
  | "protected" => 2
  | "private" => 4
  | "static" => 8
  | "abstract" => 16
  | "final" => 32
  | "readonly" => 64
  | _ => 0

end Modifier

end QueryTaint
