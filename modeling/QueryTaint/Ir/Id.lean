import Std.Data.TreeMap

/-!
# Identifiers

Operands, operations, blocks and functions are numbered in the order in which they are made. The
numbers are natural numbers. It is assumed that a program has fewer than 2³² entries of each sort, so
that numbers of 32 bits tell them apart as well.
-/

namespace QueryTaint

/-- The number of an operand, assumed to be less than 2³². -/
structure OperandId where
  index : Nat
deriving DecidableEq, Repr, Inhabited, Hashable

/-- Operands are ordered by their numbers. -/
instance : Ord OperandId := ⟨compareOn OperandId.index⟩

instance : Std.TransOrd OperandId := inferInstanceAs (Std.TransCmp (compareOn OperandId.index))

instance : Std.LawfulEqOrd OperandId where
  eq_of_compare {a b} h := by
    have h : compare a.index b.index = .eq := h
    cases a
    cases b
    simpa using h

/-- The number of an operation, assumed to be less than 2³². -/
structure OpId where
  index : Nat
deriving DecidableEq, Repr, Inhabited, Hashable

/-- The number of a block, assumed to be less than 2³². -/
structure BlockId where
  index : Nat
deriving DecidableEq, Repr, Inhabited, Hashable

/-- The number of a function, assumed to be less than 2³². -/
structure FuncId where
  index : Nat
deriving DecidableEq, Repr, Inhabited, Hashable

/-- How an operand is written. -/
def OperandId.text (id : OperandId) : String := "%" ++ toString id.index

/-- How an operation is written. -/
def OpId.text (id : OpId) : String := "op" ++ toString id.index

/-- How a block is written. -/
def BlockId.text (id : BlockId) : String := "B" ++ toString id.index

/-- The list with an element at its end, unless it is in the list already. -/
def addNew {α : Type} [DecidableEq α] (l : List α) (a : α) : List α :=
  if a ∈ l then l else l ++ [a]

end QueryTaint
