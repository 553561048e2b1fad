import Scss.Number.Rounding

/-!
# The arithmetic of colour formulas

Colour formulas are written once, over any type of numbers that offers the operations below.  The
compiler runs them on doubles; read over the rational numbers they are the exact formulas that
the doubles approximate.

## Main definitions

* `Scalar`: the operations;
* `Scalar.clamp`, `Scalar.max`, `Scalar.min`: order helpers in terms of `<` alone;
* the instance for doubles.
-/

namespace Scss

/-- Numbers that colour formulas can be written in. -/
class Scalar (α : Type) extends NatCast α, Add α, Sub α, Mul α, Div α, LT α, BEq α where
  /-- The order can be decided. -/
  decidableLT : DecidableLT α
  /-- The nearest integer, a half going away from zero, moved into the range of a byte. -/
  toByte : α → UInt8
  /-- The angle in `[0, 360)` that differs by whole turns. -/
  turn : α → α

namespace Scalar

variable {α : Type} [Scalar α]

instance : DecidableLT α := Scalar.decidableLT

/-- Moves `x` into the interval from `lo` to `hi`. -/
def clamp (x lo hi : α) : α :=
  if x < lo then lo else if hi < x then hi else x

/-- Moves `x` into the unit interval. -/
def unit (x : α) : α :=
  clamp x (0 : Nat) (1 : Nat)

/-- The greater of two numbers. -/
def max (x y : α) : α :=
  if x < y then y else x

/-- The lesser of two numbers. -/
def min (x y : α) : α :=
  if y < x then y else x

end Scalar

/-- The byte nearest to a double; NaN gives zero. -/
def Number.toByte (x : Float) : UInt8 :=
  (Number.clamp (Number.round x) 0 255).toUInt8

instance : Scalar Float where
  natCast := Float.ofNat
  decidableLT := inferInstance
  toByte := Number.toByte
  turn := (Number.modulo · 360)

end Scss
