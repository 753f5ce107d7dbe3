import Std.Data.TreeMap
import QueryTaint.Term.Range

/-!
# Deciding conjunctions of atoms

`Solver` keeps a stack of asserted terms. `Solver.check` splits them into conjuncts and collects
what the atoms among them say of single variables. A contradiction between atoms is an answer of
its own; a conjunct that is no atom leaves the answer open, and if there is none the answer is a
model.
-/

namespace QueryTaint

/-- What the atoms seen so far say of each variable. -/
structure Facts (ν : Type) where
  bools : Std.TreeMap String Bool := {}
  numbers : Std.TreeMap String (Range ν) := {}

/-- What a further atom does to the facts: it is taken up, it contradicts them, or it is no
atom. -/
inductive Learned (ν : Type) where
  | recorded (facts : Facts ν)
  | contradiction
  | opaqueTerm

namespace Facts

variable {ν : Type} [Numeral ν]

/-- Fixes the truth of a variable. -/
def assign (f : Facts ν) (name : String) (value : Bool) : Learned ν :=
  if f.bools[name]? = some !value then .contradiction
  else .recorded { f with bools := f.bools.insert name value }

/-- Restricts the values of a variable. -/
def bound (f : Facts ν) (name : String) (op : CompareOp) (c : ν) : Learned ν :=
  let range := ((f.numbers[name]?).getD .full).restrict op c
  if range.isEmpty then .contradiction
  else .recorded { f with numbers := f.numbers.insert name range }

/-- Takes up an atom: a literal, a variable or its negation, or a comparison of a variable with a
number. -/
def add (f : Facts ν) : Term ν → Learned ν
  | .bool true => .recorded f
  | .bool false => .contradiction
  | .boolVar name => f.assign name true
  | .notTerm (.boolVar name) => f.assign name false
  | .compareTerm op (.numVar x) (.number c) => f.bound x op c
  | .compareTerm op (.number c) (.numVar x) => f.bound x op.flip c
  | _ => .opaqueTerm

end Facts

/-- A value of a variable in a model. -/
inductive ModelValue (ν : Type) where
  | bool (b : Bool)
  | number (n : ν)
deriving Repr

/-- Values of variables by name. -/
abbrev Model (ν : Type) := Std.TreeMap String (ModelValue ν)

/-- Values that agree with the facts, if every range has a member among its candidates. -/
def Facts.model? {ν : Type} [Numeral ν] (f : Facts ν) : Option (Model ν) :=
  f.numbers.toList.foldlM
    (fun (model : Model ν) (name, range) =>
      range.witness?.map fun value => model.insert name (.number value))
    (f.bools.toList.foldl (fun model (name, value) => model.insert name (.bool value)) {})

/-- The answer to whether asserted terms can hold together. -/
inductive Verdict (ν : Type) where
  | sat (model : Model ν)
  | unsat
  | unknown

/-- Whether a verdict leaves the possibility that the terms hold together. -/
def Verdict.isFeasible {ν : Type} : Verdict ν → Bool
  | .unsat => false
  | _ => true

/-- What is known after all conjuncts: none for a contradiction, otherwise the facts and whether
every conjunct was an atom. -/
def learnAll {ν : Type} [Numeral ν] (facts : Facts ν) (decided : Bool) :
    List (Term ν) → Option (Facts ν × Bool)
  | [] => some (facts, decided)
  | atom :: rest =>
    match facts.add atom with
    | .recorded facts => learnAll facts decided rest
    | .contradiction => none
    | .opaqueTerm => learnAll facts false rest

/-- Decides whether terms can hold together. -/
def decideAll {ν : Type} [Numeral ν] (terms : List (Term ν)) : Verdict ν :=
  match learnAll {} true (Term.conjunctsAll terms) with
  | none => .unsat
  | some (_, false) => .unknown
  | some (facts, true) =>
    match facts.model? with
    | some model => .sat model
    | none => .unknown

/-- Asserted terms, and how many there were at each open scope, the innermost first. -/
structure Solver (ν : Type) where
  assertions : Array (Term ν) := #[]
  frames : List Nat := []

namespace Solver

variable {ν : Type}

/-- The name of the solver. -/
def name : String := "lightweight"

/-- Opens a scope. -/
def push (s : Solver ν) : Solver ν := { s with frames := s.assertions.size :: s.frames }

/-- Closes the innermost scope and takes back what was asserted in it. -/
def pop (s : Solver ν) : Solver ν :=
  match s.frames with
  | [] => s
  | size :: frames => { assertions := s.assertions.take size, frames }

/-- Asserts a term. -/
def assert (s : Solver ν) (t : Term ν) : Solver ν := { s with assertions := s.assertions.push t }

/-- Decides whether the asserted terms can hold together. -/
def check [Numeral ν] (s : Solver ν) : Verdict ν := decideAll s.assertions.toList

end Solver

end QueryTaint
