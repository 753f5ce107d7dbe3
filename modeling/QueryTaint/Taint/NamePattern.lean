import QueryTaint.Syntax.Operator

/-!
# Name patterns

Regular expressions on names, matched anywhere in a name and without regard to case. `Pattern.ends`
gives the positions where a match that starts at a position may end. A text that is no regular
expression stands for itself.
-/

namespace QueryTaint

/-- A regular expression. A set of characters is given by ranges, whose complement may be meant. -/
inductive Pattern where
  | empty
  | set (negated : Bool) (ranges : List (Char × Char))
  | start
  | stop
  | seq (first second : Pattern)
  | alt (first second : Pattern)
  | star (inner : Pattern)
deriving Repr, Inhabited

namespace Pattern

/-! ## Matching -/

/-- A character with case differences removed. -/
def foldCase (c : Char) : Char :=
  if c = 'ſ' then 's' else if c = 'K' then 'k' else c.toLower

/-- Whether a range holds a character in one of its cases. -/
def inRange (c : Char) (range : Char × Char) : Bool :=
  [c, foldCase c, c.toUpper, (foldCase c).toUpper].any fun c => range.1 ≤ c && c ≤ range.2

/-- Adds the numbers that are not listed yet. -/
def addAll (listed new : List Nat) : List Nat :=
  new.foldl (fun l i => if i ∈ l then l else l ++ [i]) listed

/-- Applies a step until nothing is new, for at most some rounds. -/
def closure (step : Nat → List Nat) : Nat → List Nat → List Nat
  | 0, l => l
  | rounds + 1, l => closure step rounds (addAll l (l.flatMap step))

/-- The positions where a match that starts at a position may end. -/
def ends (text : Array Char) : Pattern → Nat → List Nat
  | empty, i => [i]
  | set negated ranges, i =>
    match text[i]? with
    | some c => if ranges.any (inRange c) != negated then [i + 1] else []
    | none => []
  | start, i => if i = 0 then [i] else []
  | stop, i => if i = text.size then [i] else []
  | seq a b, i => (a.ends text i).flatMap (b.ends text)
  | alt a b, i => addAll (a.ends text i) (b.ends text i)
  | star a, i => closure (a.ends text) (text.size + 1) [i]

/-- Whether a pattern matches somewhere in a text. -/
def isIn (p : Pattern) (text : String) : Bool :=
  let chars := text.toList.toArray
  (List.range (chars.size + 1)).any fun i => !(p.ends chars i).isEmpty

/-! ## Reading -/

/-- One character. -/
def char (c : Char) : Pattern := set false [(c, c)]

/-- Any character but the end of a line. -/
def any : Pattern := set true [('\n', '\n')]

/-- A pattern a number of times. -/
def times (p : Pattern) : Nat → Pattern
  | 0 => empty
  | 1 => p
  | n + 2 => seq p (p.times (n + 1))

/-- A pattern up to a number of times. -/
def upTo (p : Pattern) : Nat → Pattern
  | 0 => empty
  | n + 1 => alt (seq p (p.upTo n)) empty

/-- A part of a regular expression whose end is not read yet: its finished alternatives, and the
items of the current one, the last first. -/
structure Group where
  alternatives : Option Pattern := none
  items : List Pattern := []

/-- The items of the current alternative. -/
def Group.sequence (g : Group) : Pattern :=
  match g.items with
  | [] => empty
  | last :: before => before.foldl (fun p item => seq item p) last

/-- The pattern of a group. -/
def Group.pattern (g : Group) : Pattern :=
  match g.alternatives with
  | some first => alt first g.sequence
  | none => g.sequence

/-- The characters that an escape letter stands for. -/
def letterClass? : Char → Option (List (Char × Char))
  | 'd' => some [('0', '9')]
  | 'w' => some [('a', 'z'), ('A', 'Z'), ('0', '9'), ('_', '_')]
  | 's' => some [(' ', ' '), ('\t', '\r')]
  | _ => none

/-- The pattern of an escaped character. Letters and digits have fixed meanings. -/
def escape? (c : Char) : Option Pattern :=
  match letterClass? c with
  | some ranges => some (set false ranges)
  | none =>
    match letterClass? c.toLower with
    | some ranges => some (set true ranges)
    | none =>
      match c with
      | 'n' => some (char '\n')
      | 't' => some (char '\t')
      | 'r' => some (char '\r')
      | 'A' => some start
      | 'z' => some stop
      | c => if c.isAlphanum || c.toNat ≥ 128 then none else some (char c)

/-- Reads a set up to its closing bracket; a bracket right at the start is a character. -/
def readSet? (ranges : List (Char × Char)) : List Char → Option (List (Char × Char) × List Char)
  | [] => none
  | ']' :: rest =>
    if ranges.isEmpty then readSet? [(']', ']')] rest else some (ranges, rest)
  | '\\' :: c :: rest =>
    match letterClass? c with
    | some more => readSet? (ranges ++ more) rest
    | none => if c.isAlphanum then none else readSet? (ranges ++ [(c, c)]) rest
  | a :: '-' :: b :: rest =>
    if b = ']' then readSet? (ranges ++ [(a, a), ('-', '-')]) (b :: rest)
    else if a ≤ b then readSet? (ranges ++ [(a, b)]) rest
    else none
  | c :: rest => readSet? (ranges ++ [(c, c)]) rest

/-- Reads the bounds of a repetition after its opening brace. -/
def readBounds? (cs : List Char) : Option (Nat × Option Nat × List Char) :=
  let number (l : List Char) : Option Nat :=
    if l.isEmpty then none else some (l.foldl (fun n c => n * 10 + (c.toNat - '0'.toNat)) 0)
  let low := cs.takeWhile Char.isDigit
  match cs.dropWhile Char.isDigit with
  | '}' :: rest => (number low).map fun n => (n, some n, rest)
  | ',' :: rest =>
    let high := rest.takeWhile Char.isDigit
    match rest.dropWhile Char.isDigit with
    | '}' :: rest => (number low).map fun n => (n, number high, rest)
    | _ => none
  | _ => none

/-- Changes the last item of a group, of which there must be one. -/
def Group.onLast? (g : Group) (f : Pattern → Pattern) : Option Group :=
  match g.items with
  | last :: before => some { g with items := f last :: before }
  | [] => none

/-- Adds an item to a group. -/
def Group.push (g : Group) (p : Pattern) : Group := { g with items := p :: g.items }

/-- A repetition between two bounds. -/
def between (low : Nat) (high : Option Nat) (p : Pattern) : Pattern :=
  match high with
  | some high => seq (p.times low) (p.upTo (high - low))
  | none => seq (p.times low) (star p)

/-- What follows a repetition; a mark for short matches does not change what matches. -/
def dropLazy : List Char → List Char
  | '?' :: rest => rest
  | rest => rest

/-- Reads a regular expression, in at most some steps. -/
def readWithin? (outer : List Group) (g : Group) : Nat → List Char → Option Pattern
  | 0, _ => none
  | _ + 1, [] => if outer.isEmpty then some g.pattern else none
  | steps + 1, c :: rest =>
    match c with
    | '|' => readWithin? outer { alternatives := some g.pattern } steps rest
    | '(' =>
      match rest with
      | '?' :: ':' :: rest => readWithin? (g :: outer) {} steps rest
      | '?' :: _ => none
      | _ => readWithin? (g :: outer) {} steps rest
    | ')' =>
      match outer with
      | enclosing :: outer => readWithin? outer (enclosing.push g.pattern) steps rest
      | [] => none
    | '*' => do readWithin? outer (← g.onLast? star) steps (dropLazy rest)
    | '+' => do readWithin? outer (← g.onLast? (between 1 none)) steps (dropLazy rest)
    | '?' => do readWithin? outer (← g.onLast? (between 0 (some 1))) steps (dropLazy rest)
    | '{' => do
      let (low, high, rest) ← readBounds? rest
      if high.any (· < low) then none
      else readWithin? outer (← g.onLast? (between low high)) steps (dropLazy rest)
    | '[' => do
      let (negated, rest) := match rest with
        | '^' :: rest => (true, rest)
        | _ => (false, rest)
      let (ranges, rest) ← readSet? [] rest
      readWithin? outer (g.push (set negated ranges)) steps rest
    | '\\' =>
      match rest with
      | c :: rest => do readWithin? outer (g.push (← escape? c)) steps rest
      | [] => none
    | '.' => readWithin? outer (g.push any) steps rest
    | '^' => readWithin? outer (g.push start) steps rest
    | '$' => readWithin? outer (g.push stop) steps rest
    | c => readWithin? outer (g.push (char c)) steps rest

/-- Reads a regular expression. -/
def read? (text : String) : Option Pattern :=
  readWithin? [] {} (text.length + 1) text.toList

end Pattern

/-- Whether a name matches a pattern. A pattern that is no regular expression is looked for as it
stands. -/
def matchesName (pattern name : String) : Bool :=
  match Pattern.read? pattern with
  | some p => p.isIn name
  | none => (lowerAscii name).contains pattern

end QueryTaint
