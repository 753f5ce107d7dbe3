/-!
# Binary64 numbers

A finite binary64 number is an integer times a power of two. `Binary64.view` shows it so, and
`Binary64.nearest` goes the other way: it rounds any fraction to the nearest number, of two
equally near ones to the one with the even significand.

Every finite binary64 number is written with the fewest digits that read back as the same number.
Of two such decimals the nearer one is taken, and the upper one when both are equally near.
-/

/-! ## Numbers as exact fractions -/

namespace QueryTaint.Binary64

/-- A binary64 number: its sign and, where it is finite, its size `mantissa · 2 ^ exponent`. -/
inductive View where
  | nan
  | infinite (negative : Bool)
  | finite (negative : Bool) (mantissa : Nat) (exponent : Int)
deriving DecidableEq, Repr

/-- The number with the given bits. -/
def viewBits (bits : Nat) : View :=
  let negative := bits / Nat.pow 2 63 % 2 == 1
  let biased : Nat := bits / Nat.pow 2 52 % Nat.pow 2 11
  let fraction := bits % Nat.pow 2 52
  if biased = 2047 then
    if fraction = 0 then .infinite negative else .nan
  else if biased = 0 then .finite negative fraction (-1074)
  else .finite negative (fraction + Nat.pow 2 52) ((biased : Int) - 1075)

/-- What a binary64 number is. -/
def view (x : Float) : View := viewBits x.toBits.toNat

/-- The quotient rounded to the nearest integer, a half to the even one. -/
def roundEven (num den : Nat) : Nat :=
  let quotient := num / den
  let twice := 2 * (num % den)
  if twice < den ∨ (twice = den ∧ quotient % 2 = 0) then quotient else quotient + 1

/-- The exponent of the unit in the last place of the fraction `num / den`: the significand then
has 53 bits, or fewer at the lower end of the range. -/
def unitExponent (num den : Nat) : Int :=
  let e : Int := (num.log2 : Int) - den.log2
  let floorLog : Int :=
    if den * Nat.pow 2 e.toNat ≤ num * Nat.pow 2 (-e).toNat then e else e - 1
  max (floorLog - 52) (-1074)

/-- The bits of infinity. -/
def infinityBits : Nat := 0x7FF0000000000000

/-- The bits of the number nearest to the fraction `num / den`. -/
def nearestBits (num den : Nat) : Nat :=
  if num = 0 then 0
  else
    let q := unitExponent num den
    let mantissa := roundEven (num * Nat.pow 2 (-q).toNat) (den * Nat.pow 2 q.toNat)
    min ((q + 1074).toNat * Nat.pow 2 52 + mantissa) infinityBits

/-- The number nearest to a fraction with the given sign. -/
def nearest (negative : Bool) (num den : Nat) : Float :=
  Float.ofBits (nearestBits num den + if negative then Nat.pow 2 63 else 0).toUInt64

/-- The number nearest to an integer. -/
def ofInt (n : Int) : Float := nearest (n < 0) n.natAbs 1

/-- The number nearest to `digits · 10 ^ exponent`. Exponents far outside the range are cut
off, since they give zero or infinity whatever they are. -/
def ofDecimal (negative : Bool) (digits : Nat) (exponent : Int) : Float :=
  if digits = 0 then nearest negative 0 1
  else
    let size : Int := (Nat.toDigits 10 digits).length
    if size + exponent > 400 then nearest negative (Nat.pow 2 2000) 1
    else if size + exponent < -400 then nearest negative 0 1
    else nearest negative (digits * Nat.pow 10 exponent.toNat)
      (Nat.pow 10 (-exponent).toNat)

/-- The integer part of a finite number, its fraction cut off. -/
def truncate? (x : Float) : Option Int :=
  match view x with
  | .finite negative mantissa exponent =>
    let size : Nat := mantissa * Nat.pow 2 exponent.toNat / Nat.pow 2 (-exponent).toNat
    some (if negative then -size else size)
  | _ => none

/-- Whether a number is finite and has no fraction. -/
def isIntegral (x : Float) : Bool :=
  match view x with
  | .finite _ mantissa exponent => mantissa % Nat.pow 2 (-exponent).toNat == 0
  | _ => false

/-- The nearest integer of 64 bits with a sign. -/
def clampInt64 (n : Int) : Int64 :=
  Int64.ofInt (max (-(Nat.pow 2 63 : Nat)) (min (Nat.pow 2 63 - 1 : Nat) n))

/-- Whether a number is no number. -/
def isNaN (x : Float) : Bool :=
  match view x with
  | .nan => true
  | _ => false

end QueryTaint.Binary64

/-! ## Shortest decimals -/

namespace QueryTaint.Shortest

/-- The reals that round to a number, scaled to integers: the number is `value / scale`, and it
is the nearest number to everything between `low / scale` and `high / scale`, the ends included
where `closed` holds. -/
structure Interval where
  value : Nat
  low : Nat
  high : Nat
  scale : Nat
  closed : Bool

/-- The interval of `mantissa · 2 ^ exponent`. Below a power of two the numbers lie half as far
apart, so there the lower end is nearer, except at the lower end of the range. -/
def Interval.of (mantissa : Nat) (exponent : Int) : Interval :=
  let up := Nat.pow 2 exponent.toNat
  let narrow := mantissa = Nat.pow 2 52 ∧ exponent > -1074
  { value := 4 * mantissa * up
    low := (4 * mantissa - if narrow then 1 else 2) * up
    high := (4 * mantissa + 2) * up
    scale := 4 * Nat.pow 2 (-exponent).toNat
    closed := mantissa % 2 == 0 }

/-- Whether the decimal `digits · step` lies in the interval, where `step` is scaled by
`grid` as `num / grid`. -/
def Interval.holds (i : Interval) (num grid : Nat) : Bool :=
  let point := num * i.scale
  if i.closed then i.low * grid ≤ point && point ≤ i.high * grid
  else i.low * grid < point && point < i.high * grid

/-- How many digits the integer part of `value / scale` has; for a value below one, zero or a
negative count says how many zeros follow the point. -/
def magnitude (value scale : Nat) : Int :=
  if scale ≤ value then (Nat.toDigits 10 (value / scale)).length
  else
    let inverse := scale / value
    let k := (Nat.toDigits 10 inverse).length
    -- `value / scale` lies between `10 ^ (-k)` and `10 ^ (1 - k)`
    if value * Nat.pow 10 (k - 1) = scale then 2 - k else 1 - k

/-- A decimal `digits · 10 ^ exponent`. -/
structure Decimal where
  digits : Nat
  exponent : Int
deriving DecidableEq, Repr

/-- The decimal with `count` digits that reads back, if there is one: the two neighbours of the
value on the grid of such decimals are tried. -/
def withDigits? (i : Interval) (k : Int) (count : Nat) : Option Decimal :=
  let exponent := k - count
  let up := Nat.pow 10 exponent.toNat
  let down := Nat.pow 10 (-exponent).toNat
  let below := i.value * down / (i.scale * up)
  let fits (n : Nat) : Bool := i.holds (n * up) down
  match fits below, fits (below + 1) with
  | true, true =>
    -- twice the distance from `below`, against one step of the grid
    if 2 * (i.value * down - below * (i.scale * up)) < i.scale * up
    then some ⟨below, exponent⟩ else some ⟨below + 1, exponent⟩
  | true, false => some ⟨below, exponent⟩
  | false, true => some ⟨below + 1, exponent⟩
  | false, false => none

/-- The shortest decimal of `mantissa · 2 ^ exponent`, for a mantissa other than zero. Seventeen
digits always read back. -/
def decimal (mantissa : Nat) (exponent : Int) : Decimal :=
  let i := Interval.of mantissa exponent
  let k := magnitude i.value i.scale
  ((List.range 17).findSome? fun n => withDigits? i k (n + 1)).getD ⟨0, 0⟩

/-- The text of a decimal without an exponent. -/
def Decimal.text (d : Decimal) : String :=
  let digits := Nat.toDigits 10 d.digits
  if 0 ≤ d.exponent then
    String.ofList (digits ++ List.replicate d.exponent.toNat '0')
  else
    let places := (-d.exponent).toNat
    let digits := List.replicate (places + 1 - digits.length) '0' ++ digits
    let (whole, fraction) := digits.splitAt (digits.length - places)
    let fraction := (fraction.reverse.dropWhile (· == '0')).reverse
    if fraction.isEmpty then String.ofList whole
    else String.ofList (whole ++ '.' :: fraction)

/-- The text of a binary64 number: its shortest decimal, never with an exponent. -/
def text (x : Float) : String :=
  match Binary64.view x with
  | .nan => "NaN"
  | .infinite negative => if negative then "-inf" else "inf"
  | .finite negative mantissa exponent =>
    let size := if mantissa = 0 then "0" else (decimal mantissa exponent).text
    if negative then "-" ++ size else size

end QueryTaint.Shortest
