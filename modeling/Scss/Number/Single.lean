import Scss.Number.Decimal

/-!
# Single precision numbers

Tokens keep their numbers in single precision.  This module rounds doubles to it, writes such
numbers, and widens them again: the double that is widened to is the one named by the shortest
decimal text, so `0.1` widens to `0.1`.

## Main definitions

* `Single.ofDouble`: the nearest single precision number;
* `Single.widen`: the double with the same shortest text;
* `Single.toText`: the text with a point or an exponent.
-/

namespace Scss.Single

/-- The single precision number nearest to a double. -/
def ofDouble (x : Float) : Float32 :=
  match Exact.ofDouble x with
  | .nan => 0 / 0
  | .infinite negative => if negative then -1 / 0 else 1 / 0
  | .finite negative m q =>
    let y :=
      if 0 ≤ q then Float32.ofScientific (m * Nat.pow 2 q.toNat) false 0
      else Float32.ofScientific (m * Nat.pow 5 (-q).toNat) true (-q).toNat
    if negative then -y else y

/-- The double whose shortest decimal text is that of `x`. -/
def widen (x : Float32) : Float :=
  match Exact.ofSingle x with
  | .nan => 0 / 0
  | .infinite negative => if negative then -1 / 0 else 1 / 0
  | .finite negative m q =>
    let y := (Decimal.shortest .single m q).toDouble
    if negative then -y else y

/-- The text of `x`: an integer gets the decimal `.0`, and numbers below `10 ^ -4` or from `10 ^ 16`
on are written with an exponent. -/
def toText (x : Float32) : String :=
  (Exact.ofSingle x).text fun m q =>
    let d := Decimal.shortest .single m q
    if d.digits ≠ 0 ∧ (d.magnitude < -4 ∨ 16 ≤ d.magnitude) then d.scientific
    else if 0 ≤ d.exponent then d.positional ++ ['.', '0']
    else d.positional

end Scss.Single
