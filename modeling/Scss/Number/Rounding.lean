import Scss.Number.Exact

/-!
# Rounding doubles to integers, and the remainder by 360

Every function here goes through the exact value of its argument, so its result is the double
nearest to (in fact equal to) the mathematical one.  Infinities and NaN come back unchanged, and
the sign of a zero result is the sign of the argument.

## Main definitions

* `Rounding.quotient`: a quotient of natural numbers, rounded in one of four ways;
* `Number.round`, `Number.floor`, `Number.ceil`, `Number.truncate`: integers near a double;
* `Number.clamp`: a double moved into an interval;
* `Number.modulo`: the remainder in `[0, n)`.
-/

namespace Scss

/-- What to do with the part of a quotient below one unit. -/
inductive Rounding where
  /-- Drop it. -/
  | truncate
  /-- Count it as a whole unit. -/
  | away
  /-- Round to nearest, a half counting as a whole unit. -/
  | halfAway
  /-- Round to nearest, a half going to the even neighbour. -/
  | halfEven
  deriving DecidableEq, Repr

/-- The quotient `n / d` as a natural number. -/
def Rounding.quotient (mode : Rounding) (n d : Nat) : Nat :=
  match mode with
  | .truncate => n / d
  | .away => (n + d - 1) / d
  | .halfAway => (2 * n + d) / (2 * d)
  | .halfEven =>
    let k := n / d
    let twice := 2 * (n % d)
    if twice < d ∨ (twice = d ∧ k % 2 = 0) then k else k + 1

namespace Number

/-- The integer near `x`, with the magnitude rounded as `positive` or `negative` says. -/
def integral (positive negative : Rounding) (x : Float) : Float :=
  match Exact.ofDouble x with
  | .finite below m q =>
    if 0 ≤ q then x
    else if below then -Float.ofNat (negative.quotient m (Nat.pow 2 (-q).toNat))
    else Float.ofNat (positive.quotient m (Nat.pow 2 (-q).toNat))
  | _ => x

/-- The nearest integer; a half goes away from zero. -/
def round (x : Float) : Float :=
  integral .halfAway .halfAway x

/-- The greatest integer not above `x`. -/
def floor (x : Float) : Float :=
  integral .truncate .away x

/-- The least integer not below `x`. -/
def ceil (x : Float) : Float :=
  integral .away .truncate x

/-- The integer part of `x`. -/
def truncate (x : Float) : Float :=
  integral .truncate .truncate x

/-- Moves `x` into the interval from `lo` to `hi`; NaN stays NaN. -/
def clamp (x lo hi : Float) : Float :=
  if x < lo then lo else if hi < x then hi else x

/-- The double `m · 2 ^ q`, if there is one. -/
def ofDyadic (m : Nat) (q : Int) : Float :=
  if 0 ≤ q then Float.ofScientific (m * Nat.pow 2 q.toNat) false 0
  else Float.ofScientific (m * Nat.pow 5 (-q).toNat) true (-q).toNat

/-- The remainder of `x` by the positive integer `n`, in `[0, n)`; NaN unless `x` is finite. -/
def modulo (x : Float) (n : Nat) : Float :=
  match Exact.ofDouble x with
  | .finite below m q =>
    let r := if 0 ≤ q then ofDyadic (m * Nat.pow 2 q.toNat % n) 0
      else ofDyadic (m % (n * Nat.pow 2 (-q).toNat)) q
    let r := if below then -r else r
    if r < 0 then r + Float.ofNat n else r
  | _ => 0 / 0

end Number

end Scss
