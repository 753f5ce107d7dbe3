/-!
# Errors of the analysis

Why a file could not be read or lowered, or why an intermediate program is not well formed. The
wording of each cause stands in one function.
-/

namespace QueryTaint

/-- Why a concrete syntax tree is no program. -/
inductive ParseFault where
  | unparseable | syntaxError | missing (field : String) | emptyExpression | emptyThrow
  | missingLabel | missingForBody | malformedForeach | malformedForeachPair | emptyReference
  | malformedConst | tooDeep | unknownBinary | emptyParens | emptyDynamic | unknownCompound
  | missingOperand | unknownUnary | missingCastType | missingCastValue | unknownCast
  | malformedClassConst | missingClass | missingArray | emptyInclude | emptyPrint | emptyClone
  | emptySuppress | emptyYieldFrom | emptySequence | missingArgument | emptyArgument
  | emptyUnpack | malformedElement
deriving DecidableEq, Repr

/-- The wording of a cause. -/
def ParseFault.message : ParseFault → String
  | unparseable => "unparseable file"
  | syntaxError => "syntax error"
  | missing field => "missing '" ++ field ++ "'"
  | emptyExpression => "empty expression"
  | emptyThrow => "empty throw"
  | missingLabel => "missing label"
  | missingForBody => "missing for body"
  | malformedForeach => "malformed foreach"
  | malformedForeachPair => "malformed foreach pair"
  | emptyReference => "empty &"
  | malformedConst => "malformed const"
  | tooDeep => "expression nested too deeply"
  | unknownBinary => "unknown binary operator"
  | emptyParens => "empty parens"
  | emptyDynamic => "empty $$"
  | unknownCompound => "unknown compound operator"
  | missingOperand => "missing operand"
  | unknownUnary => "unknown unary operator"
  | missingCastType => "missing cast type"
  | missingCastValue => "missing cast value"
  | unknownCast => "unknown cast"
  | malformedClassConst => "malformed class constant access"
  | missingClass => "missing class"
  | missingArray => "missing array"
  | emptyInclude => "empty include"
  | emptyPrint => "empty print"
  | emptyClone => "empty clone"
  | emptySuppress => "empty @"
  | emptyYieldFrom => "empty yield from"
  | emptySequence => "empty sequence"
  | missingArgument => "missing argument"
  | emptyArgument => "empty argument"
  | emptyUnpack => "empty ..."
  | malformedElement => "malformed array element"

/-- Why a `break` or `continue` has no target. -/
inductive LoopFault where
  | notPositive (keyword : String)
  | tooFar (keyword : String) (level : Int)
deriving DecidableEq, Repr

/-- The wording of a cause. -/
def LoopFault.message : LoopFault → String
  | notPositive keyword => "'" ++ keyword ++ "' operator accepts only positive integers"
  | tooFar keyword level =>
    "Cannot '" ++ keyword ++ "' " ++ toString level ++ " level" ++ if level = 1 then "" else "s"

/-- Why a syntax tree cannot be lowered. -/
inductive LoweringFault where
  | noClassScope (word : String) (line : Nat)
  | unresolvedLoopExit (line : Nat)
deriving DecidableEq, Repr

/-- The wording of a cause. -/
def LoweringFault.message : LoweringFault → String
  | noClassScope word line =>
    "cannot use \"" ++ word ++ "\" when no class scope is active (line " ++ toString line ++ ")"
  | unresolvedLoopExit line =>
    "break/continue left after loop resolution (line " ++ toString line ++ ")"

/-- An error of the analysis. -/
inductive Error where
  | parse (path : String) (fault : ParseFault) (line : Nat) (kind : String)
  | lowering (path : String) (fault : LoweringFault)
  | loop (fault : LoopFault)
  | invariant (op : String) (operand : String) (message : String)
deriving DecidableEq, Repr

namespace Error

/-- The word for the kind of an error. -/
def word : Error → String
  | parse .. => "Parse"
  | lowering .. => "Lowering"
  | loop _ => "Loop"
  | invariant .. => "Invariant"

/-- The wording of an error. -/
def message : Error → String
  | parse path fault line kind =>
    "Parse error in " ++ path ++ ": " ++ fault.message ++ " at line " ++ toString line
      ++ " (" ++ kind ++ ")"
  | lowering path fault => "Lowering error in " ++ path ++ ": " ++ fault.message
  | loop fault => "Loop resolution error: " ++ fault.message
  | invariant op operand message =>
    "IR invariant violated at op " ++ op ++ " (operand " ++ operand ++ "): " ++ message

/-- Whether an error ends the whole run; any other error only skips its file. -/
def isFatal : Error → Bool
  | invariant .. => true
  | _ => false

end Error

end QueryTaint
