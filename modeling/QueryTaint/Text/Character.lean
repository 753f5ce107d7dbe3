/-!
# Digits and blanks

Digits in bases up to sixteen, characters by their codes, and the characters with the Unicode
property White_Space, with trimming by it.
-/

namespace QueryTaint

/-! ## Digits -/

/-- The value of a digit in some base up to sixteen. -/
def digitValue? (base : Nat) (c : Char) : Option Nat :=
  let lower := c.toLower
  let value :=
    if c.isDigit then c.toNat - '0'.toNat
    else if 'a' ≤ lower ∧ lower ≤ 'f' then lower.toNat - 'a'.toNat + 10
    else base
  if value < base then some value else none

/-- The value of digits in some base, none when there is no digit or one that the base lacks. -/
def readBase? (base : Nat) (cs : List Char) : Option Nat :=
  if cs.isEmpty then none
  else cs.foldlM (fun n c => (digitValue? base c).map (n * base + ·)) 0

/-- The lowest `width` hexadecimal digits of a number, in lower case. -/
def hexDigits (width : Nat) (n : Nat) : String :=
  String.ofList ((List.range width).reverse.map fun i => Nat.digitChar (n / Nat.pow 16 i % 16))

/-- The character with a given code, none when there is none. -/
def charOfCode? (n : Nat) : Option Char :=
  if n < 0xD800 ∨ (0xE000 ≤ n ∧ n < 0x110000) then some (Char.ofNat n) else none

/-! ## Blanks -/

/-- Whether a character has the property White_Space. -/
def isBlank (c : Char) : Bool :=
  let n := c.toNat
  (9 ≤ n && n ≤ 13) || n == 0x20 || n == 0x85 || n == 0xA0 || n == 0x1680
    || (0x2000 ≤ n && n ≤ 0x200A) || n == 0x2028 || n == 0x2029 || n == 0x202F
    || n == 0x205F || n == 0x3000

/-- The characters from the first one for which `p` fails. -/
def dropStart (p : Char → Bool) (s : String) : String :=
  match s.toList with
  | [] => s
  | c :: rest => if p c then String.ofList (rest.dropWhile p) else s

/-- The characters up to the last one for which `p` fails. -/
def dropEnd (p : Char → Bool) (s : String) : String :=
  String.ofList (s.toList.reverse.dropWhile p).reverse

/-- The text without the blanks at its start. -/
def trimStart (s : String) : String := dropStart isBlank s

/-- The text without the blanks at its ends. -/
def trim (s : String) : String := dropEnd isBlank (dropStart isBlank s)

end QueryTaint
