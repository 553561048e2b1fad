import Scss.Number.Rounding

/-!
# Decimal text of floating point numbers

A finite number `m · 2 ^ q` has an exact decimal expansion.  Two texts are read off it: the one
with the fewest digits that still reads back as the same number, and the one with a given number
of decimal places.

## Main definitions

* `Decimal`: a natural number times a power of ten, with `Decimal.toDouble` for reading;
* `Decimal.shortest`: the fewest digits; of two candidates the nearer, of two equally near the
  greater;
* `Decimal.positional`, `Decimal.scientific`: layouts;
* `Number.toText`, `Number.toFixed`: the two texts of a double.
-/

namespace Scss

/-- The number `digits · 10 ^ exponent`. -/
structure Decimal where
  /-- The significant digits, as one number. -/
  digits : Nat
  /-- The power of ten of the last digit. -/
  exponent : Int
  deriving DecidableEq, Repr

namespace Decimal

/-- The digits of a natural number in base ten. -/
def numeral (n : Nat) : List Char :=
  Nat.toDigits 10 n

/-- The power of ten of the first digit. -/
def magnitude (d : Decimal) : Int :=
  d.exponent + (numeral d.digits).length - 1

/-- The double nearest to a decimal number.  Beyond `10 ^ 400` all doubles are infinite, and below
`10 ^ -400` they are zero. -/
def toDouble (d : Decimal) : Float :=
  if d.digits = 0 then 0
  else if 400 < d.magnitude then 1 / 0
  else if d.magnitude < -400 then 0
  else Float.ofScientific d.digits (decide (d.exponent < 0)) d.exponent.natAbs

/-- An interval around a value; the ends belong to it or not. -/
structure Interval where
  /-- Lower end. -/
  low : Nat
  /-- The value itself. -/
  value : Nat
  /-- Upper end. -/
  high : Nat
  /-- Whether the ends belong to the interval. -/
  closed : Bool

/-- Whether `n` lies in the interval. -/
def Interval.holds (i : Interval) (n : Nat) : Bool :=
  if i.closed then decide (i.low ≤ n ∧ n ≤ i.high) else decide (i.low < n ∧ n < i.high)

/-- The coarsest multiple of a power of ten, at most `10 ^ k`, that lies in the interval: of the two
neighbours of the value the nearer, and the upper one if both are equally near. -/
def Interval.coarsest (i : Interval) : Nat → Decimal
  | 0 => ⟨i.value, 0⟩
  | k + 1 =>
    let step := Nat.pow 10 (k + 1)
    let below := i.value / step
    let above := below + 1
    match i.holds (below * step), i.holds (above * step) with
    | true, true =>
      if i.value - below * step < above * step - i.value then ⟨below, k + 1⟩ else ⟨above, k + 1⟩
    | true, false => ⟨below, k + 1⟩
    | false, true => ⟨above, k + 1⟩
    | false, false => i.coarsest k

/-- The numbers that read back as `m · 2 ^ q` in the format `b`, scaled by `10 ^ (2 + max 0 (-q))`.
The gap below a power of two is half as wide as the gap above it. -/
def rounding (b : Binary) (m : Nat) (q : Int) : Interval :=
  let unit := if 0 ≤ q then 25 * Nat.pow 2 q.toNat else Nat.pow 5 (2 + (-q).toNat)
  let narrow := m = Nat.pow 2 b.fractionBits ∧ b.least < q
  { low := (if narrow then 4 * m - 1 else 4 * m - 2) * unit
    value := 4 * m * unit
    high := (4 * m + 2) * unit
    closed := m % 2 == 0 }

/-- Drops one final zero digit. -/
def dropZero (d : Decimal) : Decimal :=
  if d.digits % 10 = 0 then ⟨d.digits / 10, d.exponent + 1⟩ else d

/-- The decimal with the fewest digits that reads back as `m · 2 ^ q` in the format `b`. -/
def shortest (b : Binary) (m : Nat) (q : Int) : Decimal :=
  if m = 0 then ⟨0, 0⟩
  else
    let i := rounding b m q
    let d := i.coarsest ((numeral i.value).length - 1)
    dropZero { d with exponent := d.exponent - (2 + (-q).toNat : Nat) }

/-- Splits digits so that `places` of them stand after the point. -/
def withPoint (digits : List Char) (places : Nat) : List Char :=
  let padded := List.replicate (places + 1 - digits.length) '0' ++ digits
  let whole := padded.length - places
  if places = 0 then padded else padded.take whole ++ '.' :: padded.drop whole

/-- All digits in their places, without an exponent. -/
def positional (d : Decimal) : List Char :=
  if 0 ≤ d.exponent then
    if d.digits = 0 then ['0'] else numeral d.digits ++ List.replicate d.exponent.toNat '0'
  else withPoint (numeral d.digits) (-d.exponent).toNat

/-- One digit before the point, the others after it, and the power of ten after an `e`. -/
def scientific (d : Decimal) : List Char :=
  let digits := numeral d.digits
  let mantissa := if digits.length ≤ 1 then digits else withPoint digits (digits.length - 1)
  let sign := if d.magnitude < 0 then ['-'] else []
  mantissa ++ 'e' :: sign ++ numeral d.magnitude.natAbs

end Decimal

/-- The text of a number from the text of its magnitude. -/
def Exact.text (x : Exact) (magnitude : Nat → Int → List Char) : String :=
  let signed (negative : Bool) (text : List Char) :=
    String.ofList (if negative then '-' :: text else text)
  match x with
  | .nan => "NaN"
  | .infinite negative => signed negative ['i', 'n', 'f']
  | .finite negative m q => signed negative (magnitude m q)

namespace Number

/-- The fewest digits that read back as `x`, without an exponent. -/
def toText (x : Float) : String :=
  (Exact.ofDouble x).text fun m q => (Decimal.shortest .double m q).positional

/-- The text of `x` with exactly `places` decimals; a half in the exact value goes to even. -/
def toFixed (places : Nat) (x : Float) : String :=
  (Exact.ofDouble x).text fun m q =>
    let scaled :=
      Rounding.quotient .halfEven (m * Nat.pow 10 places * Nat.pow 2 q.toNat) (Nat.pow 2 (-q).toNat)
    Decimal.withPoint (Decimal.numeral scaled) places

end Number

end Scss
