import QueryTaint.Term.Basic

/-!
# Ranges of numbers

What is known of one number: an interval with open or closed ends, and points that are left out.
-/

namespace QueryTaint

/-- An end of an interval, and whether it belongs to the interval. -/
structure Bound (ν : Type) where
  value : ν
  closed : Bool
deriving Repr

/-- The values that one number may still have. -/
structure Range (ν : Type) where
  lower : Option (Bound ν) := none
  upper : Option (Bound ν) := none
  excluded : List ν := []
deriving Repr

namespace Range

variable {ν : Type} [Numeral ν]

/-- All numbers. -/
def full : Range ν := {}

/-- Whether a point is left out. -/
def excludes (r : Range ν) (v : ν) : Bool := r.excluded.any (Numeral.eq · v)

/-- Raises the lower end, unless the range ends above already. -/
def tightenLower (r : Range ν) (c : ν) (closed : Bool) : Range ν :=
  match r.lower with
  | some l =>
    if Numeral.lt c l.value || (Numeral.eq l.value c && !l.closed) then r
    else { r with lower := some ⟨c, closed⟩ }
  | none => { r with lower := some ⟨c, closed⟩ }

/-- Lowers the upper end, unless the range ends below already. -/
def tightenUpper (r : Range ν) (c : ν) (closed : Bool) : Range ν :=
  match r.upper with
  | some u =>
    if Numeral.lt u.value c || (Numeral.eq u.value c && !u.closed) then r
    else { r with upper := some ⟨c, closed⟩ }
  | none => { r with upper := some ⟨c, closed⟩ }

/-- The values that also compare with `c` as stated. -/
def restrict (r : Range ν) (op : CompareOp) (c : ν) : Range ν :=
  match op with
  | .eq => (r.tightenLower c true).tightenUpper c true
  | .ne => { r with excluded := r.excluded ++ [c] }
  | .lt => r.tightenUpper c false
  | .le => r.tightenUpper c true
  | .gt => r.tightenLower c false
  | .ge => r.tightenLower c true

/-- Whether a value lies in the range. -/
def contains (r : Range ν) (v : ν) : Bool :=
  (match r.lower with
    | some l => if l.closed then Numeral.le l.value v else Numeral.lt l.value v
    | none => true)
  && (match r.upper with
    | some u => if u.closed then Numeral.le v u.value else Numeral.lt v u.value
    | none => true)
  && !r.excludes v

/-- Whether the ends cross, or leave at most one point that is left out. -/
def isEmpty (r : Range ν) : Bool :=
  match r.lower, r.upper with
  | some l, some u =>
    Numeral.lt u.value l.value
      || (Numeral.eq l.value u.value && !(l.closed && u.closed))
      || (Numeral.eq l.value u.value && r.excludes l.value)
  | _, _ => false

/-- The values tried as members: zero, the ends and their neighbours, the middle, and the
neighbours of the points left out. -/
def candidates (r : Range ν) : List ν :=
  [Numeral.zero]
  ++ (match r.lower with
    | some l => [l.value, Numeral.add l.value Numeral.one]
    | none => [])
  ++ (match r.upper with
    | some u => [u.value, Numeral.sub u.value Numeral.one]
    | none => [])
  ++ (match r.lower, r.upper with
    | some l, some u => [Numeral.div (Numeral.add l.value u.value) Numeral.two]
    | _, _ => [])
  ++ r.excluded.map (Numeral.add · Numeral.one)

/-- A value in the range, if one of the candidates is. -/
def witness? (r : Range ν) : Option ν := r.candidates.find? r.contains

end Range

end QueryTaint
