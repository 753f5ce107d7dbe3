import QueryTaint.Text.Character

/-!
# Scalars of a YAML text

A cursor is a place in a text: what follows it, and its line, column and index. Scalars are plain,
quoted or blocks. Between two runs of text a scalar may break its line: one break is a space, and of
several all but the first are kept.
-/

namespace QueryTaint.Yaml

/-! ## Places -/

/-- Whether a character ends a line. -/
def isBreak (c : Char) : Bool := c ∈ ['\n', '\r', '\u0085', '\u2028', '\u2029']

/-- Whether a character is a space or a tab. -/
def isGap (c : Char) : Bool := c = ' ' || c = '\t'

/-- Whether a character may stand in a text at all. -/
def isPrintable (c : Char) : Bool :=
  let n := c.toNat
  n = 9 || n = 0xa || n = 0xd || (0x20 ≤ n && n ≤ 0x7e) || n = 0x85
    || (0xa0 ≤ n && n ≤ 0xfffd && n ≠ 0xfeff) || 0x10000 ≤ n

/-- A place in a text. -/
structure Cursor where
  rest : List Char
  line : Nat := 0
  column : Nat := 0
  index : Nat := 0
deriving Inhabited

namespace Cursor

/-- The character some places ahead. -/
def at? (c : Cursor) (n : Nat) : Option Char := c.rest[n]?

/-- The next character. -/
def peek? (c : Cursor) : Option Char := c.rest.head?

/-- Whether the next character is this one. -/
def sees (c : Cursor) (char : Char) : Bool := c.peek? = some char

/-- Whether one of these characters is some places ahead. -/
def seesAny (c : Cursor) (n : Nat) (chars : List Char) : Bool :=
  match c.at? n with
  | some char => char ∈ chars
  | none => false

/-- Whether nothing follows. -/
def isDone (c : Cursor) : Bool := c.rest.isEmpty

/-- Whether a space or a tab, the end of a line or the end of the text is some places ahead. -/
def endsAt (c : Cursor) (n : Nat) : Bool :=
  match c.at? n with
  | some char => isGap char || isBreak char
  | none => true

/-- Whether a space or a tab is next. -/
def atGap (c : Cursor) : Bool := (c.peek?.map isGap).getD false

/-- Whether the end of a line is next. -/
def atBreak (c : Cursor) : Bool := (c.peek?.map isBreak).getD false

/-- The place some characters of the same line ahead. -/
def skip (c : Cursor) (n : Nat) : Cursor :=
  { c with rest := c.rest.drop n, column := c.column + n, index := c.index + n }

/-- The place after the end of a line, which is kept as one character. -/
def nextLine (c : Cursor) : List Char × Cursor :=
  let after (kept rest : List Char) (n : Nat) : List Char × Cursor :=
    (kept, ⟨rest, c.line + 1, 0, c.index + n⟩)
  match c.rest with
  | '\r' :: '\n' :: rest => after ['\n'] rest 2
  | char :: rest =>
    if char = '\u2028' || char = '\u2029' then after [char] rest 1 else after ['\n'] rest 1
  | [] => ([], c)

/-- The run of characters of a line that satisfy a condition, and the place after it. -/
def takeWhile (c : Cursor) (p : Char → Bool) : List Char × Cursor :=
  let run := c.rest.takeWhile p
  (run, c.skip run.length)

/-- Whether a document starts or ends here. -/
def atMark (c : Cursor) : Bool :=
  c.column = 0 && (c.rest.take 3 = ['-', '-', '-'] || c.rest.take 3 = ['.', '.', '.'])
    && c.endsAt 3

end Cursor

/-! ## Gaps -/

/-- What stands between two runs of text: blanks within a line, or breaks. -/
structure Space where
  blanks : List Char := []
  breaks : List (List Char) := []
deriving Inhabited

/-- What a gap means. -/
def Space.text (s : Space) : List Char :=
  match s.breaks with
  | [] => s.blanks
  | [['\n']] => [' ']
  | ['\n'] :: more => more.flatten
  | breaks => breaks.flatten

/-- Reads a gap. A tab left of the indentation is refused. -/
def readSpace? (indent : Nat) : Nat → Space → Cursor → Option (Space × Cursor)
  | 0, _, _ => none
  | steps + 1, s, c =>
    match c.peek? with
    | some char =>
      if isGap char then
        if s.breaks.isEmpty then
          readSpace? indent steps { s with blanks := s.blanks ++ [char] } (c.skip 1)
        else if char = '\t' && c.column < indent then none
        else readSpace? indent steps s (c.skip 1)
      else if isBreak char then
        let (kept, c) := c.nextLine
        readSpace? indent steps ⟨[], s.breaks ++ [kept]⟩ c
      else some (s, c)
    | none => some (s, c)

/-! ## Plain scalars -/

/-- Whether a plain scalar ends before the next character. -/
def plainEnds (flow : Bool) (c : Cursor) : Bool :=
  c.endsAt 0 || (c.sees ':' && c.endsAt 1)
    || (flow && c.seesAny 0 [',', '[', ']', '\x7b', '\x7d'])

/-- Whether a colon stands where a plain scalar within brackets may not have one. -/
def strayColon (flow : Bool) (c : Cursor) : Bool :=
  flow && c.sees ':' && c.seesAny 1 [',', '?', '[', ']', '\x7b', '\x7d']

/-- Reads one run of a plain scalar. -/
def plainRun? (flow : Bool) : Nat → List Char → Cursor → Option (List Char × Cursor)
  | 0, _, _ => none
  | steps + 1, run, c =>
    if strayColon flow c then none
    else if plainEnds flow c then some (run.reverse, c)
    else
      match c.peek? with
      | some char => plainRun? flow steps (char :: run) (c.skip 1)
      | none => some (run.reverse, c)

/-- Reads a plain scalar: its text, and whether it ended with a line. -/
def readPlain? (flow : Bool) (indent : Nat) :
    Nat → List Char → Space → Cursor → Option (String × Bool × Cursor)
  | 0, _, _, _ => none
  | steps + 1, text, space, c =>
    let ended := some (String.ofList text, !space.breaks.isEmpty, c)
    if c.atMark || c.sees '#' then ended
    else do
      let (run, c') ← plainRun? flow (c.rest.length + 1) [] c
      let (text, space) := if run.isEmpty then (text, space) else (text ++ space.text ++ run, {})
      if !(c'.atGap || c'.atBreak) then
        some (String.ofList text, !space.breaks.isEmpty, c')
      else
        let (space, c') ← readSpace? indent (c'.rest.length + 1) space c'
        if !flow && c'.column < indent then
          some (String.ofList text, !space.breaks.isEmpty, c')
        else readPlain? flow indent steps text space c'

/-! ## Quoted scalars -/

/-- The character that a letter after a backslash stands for. -/
def escaped? : Char → Option Char
  | '0' => some '\x00'
  | 'a' => some '\x07'
  | 'b' => some '\x08'
  | 't' => some '\t'
  | '\t' => some '\t'
  | 'n' => some '\n'
  | 'v' => some '\x0b'
  | 'f' => some '\x0c'
  | 'r' => some '\r'
  | 'e' => some '\x1b'
  | ' ' => some ' '
  | '"' => some '"'
  | '\'' => some '\''
  | '/' => some '/'
  | '\\' => some '\\'
  | 'N' => some '\u0085'
  | '_' => some '\u00a0'
  | 'L' => some '\u2028'
  | 'P' => some '\u2029'
  | _ => none

/-- How many digits follow a letter after a backslash. -/
def escapeWidth? : Char → Option Nat
  | 'x' => some 2
  | 'u' => some 4
  | 'U' => some 8
  | _ => none

/-- Reads an escape from its backslash on. -/
def readEscape? (c : Cursor) : Option (Char × Cursor) := do
  let letter ← c.at? 1
  match escapeWidth? letter with
  | some width =>
    let digits := (c.rest.drop 2).take width
    if digits.length < width then none
    else return (← (readBase? 16 digits).bind charOfCode?, c.skip (2 + width))
  | none => return (← escaped? letter, c.skip 2)

/-- Reads a run of a quoted scalar up to a blank, a quote or an escaped break; the gap that follows
has begun if there was such a break. -/
def quotedRun? (quote : Char) : Nat → List Char → Cursor → Option (List Char × Space × Cursor)
  | 0, _, _ => none
  | steps + 1, run, c =>
    match c.rest with
    | [] => some (run.reverse, {}, c)
    | char :: _ =>
      if isGap char || isBreak char then some (run.reverse, {}, c)
      else if char = quote then
        if quote = '\'' && c.at? 1 = some '\'' then
          quotedRun? quote steps ('\'' :: run) (c.skip 2)
        else some (run.reverse, {}, c)
      else if quote = '"' && char = '\\' then
        if ((c.at? 1).map isBreak).getD false then
          some (run.reverse, ⟨[], [[]]⟩, (c.skip 1).nextLine.2)
        else do
          let (char, c) ← readEscape? c
          quotedRun? quote steps (char :: run) c
      else quotedRun? quote steps (char :: run) (c.skip 1)

/-- Reads a quoted scalar after its opening quote. -/
def readQuoted? (quote : Char) : Nat → List Char → Cursor → Option (String × Cursor)
  | 0, _, _ => none
  | steps + 1, text, c =>
    if c.atMark || c.isDone then none
    else do
      let (run, space, c) ← quotedRun? quote (c.rest.length + 1) [] c
      if space.breaks.isEmpty && c.sees quote then
        some (String.ofList (text ++ run), c.skip 1)
      else
        let (space, c) ← readSpace? 0 (c.rest.length + 1) space c
        readQuoted? quote steps (text ++ run ++ space.text) c

/-! ## Block scalars -/

/-- What is done with the breaks at the end of a block scalar. -/
inductive Chomp where
  | strip | clip | keep
deriving DecidableEq

/-- The sign of a header. -/
def Chomp.ofSign? : Char → Option Chomp
  | '-' => some .strip
  | '+' => some .keep
  | _ => none

/-- The indentation that a digit of a header asks for. -/
def increment? (c : Char) : Option Nat :=
  if '1' ≤ c && c ≤ '9' then some (c.toNat - '0'.toNat) else none

/-- Reads the header of a block scalar: sign and digit, in either order. -/
def readHeader? (c : Cursor) : Option (Chomp × Option Nat × Cursor) :=
  let sign := c.peek?.bind Chomp.ofSign?
  let c := if sign.isSome then c.skip 1 else c
  let digit := c.peek?.bind increment?
  if digit.isNone && c.sees '0' then none
  else
    let c := if digit.isSome then c.skip 1 else c
    let second := if sign.isNone && digit.isSome then c.peek?.bind Chomp.ofSign? else none
    let c := if second.isSome then c.skip 1 else c
    some ((sign <|> second).getD .clip, digit, c)

/-- Skips spaces up to the indentation, if it is known, and lines that hold nothing else. The
widest column reached is kept. -/
def blockBreaks? (indent : Option Nat) :
    Nat → List (List Char) → Nat → Cursor → Option (List (List Char) × Nat × Cursor)
  | 0, _, _, _ => none
  | steps + 1, breaks, widest, c =>
    let room := match indent with
      | some n => n - c.column
      | none => c.rest.length
    let c := c.skip ((c.rest.take room).takeWhile (· = ' ')).length
    let widest := max widest c.column
    let outside := match indent with
      | some n => decide (c.column < n)
      | none => true
    if outside && c.sees '\t' then none
    else if c.atBreak then
      let (kept, c) := c.nextLine
      blockBreaks? indent steps (breaks ++ [kept]) widest c
    else some (breaks, widest, c)

/-- Reads the lines of a block scalar: the text so far, the break before the next line, whether the
line before it started with a blank, and the empty lines in between. -/
def blockLines? (literal : Bool) (indent : Nat) :
    Nat → List Char → List Char → Bool → List (List Char) → Cursor →
      Option (List Char × List Char × List (List Char) × Cursor)
  | 0, _, _, _, _, _ => none
  | steps + 1, text, leading, indented, empty, c =>
    if c.column = indent && !c.isDone then
      let blank := c.atGap
      let text :=
        if !literal && leading = ['\n'] && !indented && !blank then
          if empty.isEmpty then text ++ [' '] else text ++ empty.flatten
        else text ++ leading ++ empty.flatten
      let (line, c) := c.takeWhile (!isBreak ·)
      let (leading, c) := c.nextLine
      match blockBreaks? (some indent) (c.rest.length + 1) [] 0 c with
      | some (empty, _, c) => blockLines? literal indent steps (text ++ line) leading blank empty c
      | none => none
    else some (text, leading, empty, c)

/-- Reads a block scalar after its indicator, in a block that is indented by some columns. -/
def readBlock? (literal : Bool) (least : Nat) (c : Cursor) : Option (String × Cursor) := do
  let (chomp, digit, c) ← readHeader? c
  let (_, c) := c.takeWhile isGap
  let c := if c.sees '#' then (c.takeWhile (!isBreak ·)).2 else c
  if !(c.isDone || c.atBreak) then none
  else
    let (_, c) := c.nextLine
    let fixed := digit.map (least - 1 + ·)
    let (empty, widest, c) ← blockBreaks? fixed (c.rest.length + 1) [] 0 c
    let indent := fixed.getD (max 1 (max widest least))
    let (text, leading, empty, c) ←
      blockLines? literal indent (c.rest.length + 1) [] [] false empty c
    let text := if chomp = .strip then text else text ++ leading
    return (String.ofList (if chomp = .keep then text ++ empty.flatten else text), c)

end QueryTaint.Yaml
