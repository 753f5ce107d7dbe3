import QueryTaint.Number.Basic

/-!
# Solver terms

A small language of truth values and numbers. Terms are built by the functions `Term.not`,
`Term.and`, `Term.or`, `Term.xor`, `Term.iff`, `Term.neg`, `Term.arith` and `Term.compare`, which
evaluate what is ground and keep connectives flat; a term built from literals alone is a literal.
-/

namespace QueryTaint

/-- The kind of value that a term denotes. -/
inductive TermSort where
  | bool | number
deriving DecidableEq, Repr

/-- An arithmetic operation. -/
inductive ArithOp where
  | add | sub | mul | div
deriving DecidableEq, Repr

namespace ArithOp

/-- The result of an operation, none for a division by zero. -/
def result? {ν : Type} [Numeral ν] (op : ArithOp) (a b : ν) : Option ν :=
  match op with
  | add => some (Numeral.add a b)
  | sub => some (Numeral.sub a b)
  | mul => some (Numeral.mul a b)
  | div => if Numeral.eq b Numeral.zero then none else some (Numeral.div a b)

/-- The spelling of an operation. -/
def symbol : ArithOp → String
  | add => "+"
  | sub => "-"
  | mul => "*"
  | div => "/"

end ArithOp

/-- A comparison of numbers. -/
inductive CompareOp where
  | eq | ne | lt | le | gt | ge
deriving DecidableEq, Repr

namespace CompareOp

/-- The comparison that holds when this one does not. -/
def negate : CompareOp → CompareOp
  | eq => ne
  | ne => eq
  | lt => ge
  | le => gt
  | gt => le
  | ge => lt

/-- The comparison with its sides swapped. -/
def flip : CompareOp → CompareOp
  | eq => eq
  | ne => ne
  | lt => gt
  | le => ge
  | gt => lt
  | ge => le

/-- Whether a comparison holds. -/
def holds {ν : Type} [Numeral ν] (op : CompareOp) (a b : ν) : Bool :=
  match op with
  | eq => Numeral.eq a b
  | ne => !Numeral.eq a b
  | lt => Numeral.lt a b
  | le => Numeral.le a b
  | gt => Numeral.lt b a
  | ge => Numeral.le b a

/-- The spelling of a comparison. -/
def symbol : CompareOp → String
  | eq => "="
  | ne => "distinct"
  | lt => "<"
  | le => "<="
  | gt => ">"
  | ge => ">="

end CompareOp

/-- A term over numbers of type `ν`. -/
inductive Term (ν : Type) where
  | bool (b : Bool)
  | number (n : ν)
  | boolVar (name : String)
  | numVar (name : String)
  | notTerm (arg : Term ν)
  | andTerm (args : List (Term ν))
  | orTerm (args : List (Term ν))
  | xorTerm (a b : Term ν)
  | iffTerm (a b : Term ν)
  | negTerm (arg : Term ν)
  | arithTerm (op : ArithOp) (a b : Term ν)
  | compareTerm (op : CompareOp) (a b : Term ν)
deriving Repr, Inhabited

namespace Term

variable {ν : Type}

/-- The kind of value that a term denotes. -/
def sort : Term ν → TermSort
  | number _ | numVar _ | negTerm _ | arithTerm .. => .number
  | _ => .bool

/-- Whether a term is a literal. -/
def isGround : Term ν → Bool
  | bool _ | number _ => true
  | _ => false

/-- The truth value of a literal. -/
def asBool? : Term ν → Option Bool
  | bool b => some b
  | _ => none

/-- The arguments of a conjunction with truths dropped and conjunctions among them opened; none
when an argument is false. -/
def flattenAnd : List (Term ν) → Option (List (Term ν))
  | [] => some []
  | bool true :: rest => flattenAnd rest
  | bool false :: _ => none
  | andTerm nested :: rest => (flattenAnd rest).map (nested ++ ·)
  | arg :: rest => (flattenAnd rest).map (arg :: ·)

/-- The conjunction of terms. -/
def and (args : List (Term ν)) : Term ν :=
  match flattenAnd args with
  | none => bool false
  | some [] => bool true
  | some [arg] => arg
  | some flat => andTerm flat

/-- The arguments of a disjunction with falsehoods dropped and disjunctions among them opened;
none when an argument is true. -/
def flattenOr : List (Term ν) → Option (List (Term ν))
  | [] => some []
  | bool false :: rest => flattenOr rest
  | bool true :: _ => none
  | orTerm nested :: rest => (flattenOr rest).map (nested ++ ·)
  | arg :: rest => (flattenOr rest).map (arg :: ·)

/-- The disjunction of terms. -/
def or (args : List (Term ν)) : Term ν :=
  match flattenOr args with
  | none => bool true
  | some [] => bool false
  | some [arg] => arg
  | some flat => orTerm flat

mutual

/-- The negation of a term, moved inwards through connectives and comparisons. -/
def not : Term ν → Term ν
  | bool b => bool !b
  | notTerm arg => arg
  | compareTerm op a b => compareTerm op.negate a b
  | andTerm args => or (notAll args)
  | orTerm args => and (notAll args)
  | other => notTerm other

/-- The negations of terms. -/
def notAll : List (Term ν) → List (Term ν)
  | [] => []
  | arg :: rest => not arg :: notAll rest

end

/-- The exclusive disjunction of two terms. -/
def xor : Term ν → Term ν → Term ν
  | bool x, bool y => bool (x != y)
  | bool false, t => t
  | t, bool false => t
  | bool true, t => not t
  | t, bool true => not t
  | a, b => xorTerm a b

/-- The equivalence of two terms. -/
def iff : Term ν → Term ν → Term ν
  | bool x, bool y => bool (x == y)
  | bool true, t => t
  | t, bool true => t
  | bool false, t => not t
  | t, bool false => not t
  | a, b => iffTerm a b

/-- The negative of a term. -/
def neg [Numeral ν] : Term ν → Term ν
  | number n => number (Numeral.neg n)
  | negTerm arg => arg
  | other => negTerm other

/-- An arithmetic operation on terms. -/
def arith [Numeral ν] (op : ArithOp) (a b : Term ν) : Term ν :=
  match a, b with
  | number x, number y =>
    match op.result? x y with
    | some value => number value
    | none => arithTerm op a b
  | _, _ => arithTerm op a b

/-- A comparison of terms. -/
def compare [Numeral ν] (op : CompareOp) (a b : Term ν) : Term ν :=
  match a, b with
  | number x, number y => bool (op.holds x y)
  | _, _ => compareTerm op a b

/-- The truth of a term: a number is true unless it is zero. -/
def toBool [Numeral ν] (t : Term ν) : Term ν :=
  match t.sort with
  | .bool => t
  | .number => compare .ne t (number Numeral.zero)

mutual

/-- The arguments of nested conjunctions, or the term itself. -/
def conjuncts : Term ν → List (Term ν)
  | andTerm args => conjunctsAll args
  | other => [other]

/-- The conjuncts of terms, one after the other. -/
def conjunctsAll : List (Term ν) → List (Term ν)
  | [] => []
  | arg :: rest => conjuncts arg ++ conjunctsAll rest

end

mutual

/-- The text of a term, operators first. -/
def text [NumeralText ν] : Term ν → String
  | bool b => if b then "true" else "false"
  | number n => NumeralText.text n
  | boolVar name => name
  | numVar name => name
  | notTerm arg => "(not " ++ text arg ++ ")"
  | andTerm args => "(and" ++ textAll args ++ ")"
  | orTerm args => "(or" ++ textAll args ++ ")"
  | xorTerm a b => "(xor " ++ text a ++ " " ++ text b ++ ")"
  | iffTerm a b => "(= " ++ text a ++ " " ++ text b ++ ")"
  | negTerm arg => "(- " ++ text arg ++ ")"
  | arithTerm op a b => "(" ++ op.symbol ++ " " ++ text a ++ " " ++ text b ++ ")"
  | compareTerm op a b => "(" ++ op.symbol ++ " " ++ text a ++ " " ++ text b ++ ")"

/-- The texts of terms, a blank before each. -/
def textAll [NumeralText ν] : List (Term ν) → String
  | [] => ""
  | arg :: rest => " " ++ text arg ++ textAll rest

end

end Term

end QueryTaint
