/-!
# The exact value of a floating point number

A finite floating point number is a signed multiple of a power of two.  `Exact` is that view, read
off the bits with natural number arithmetic only, so whatever is computed from it (rounding to
integers, remainders, decimal text) is exact by construction and open to proof.

## Main definitions

* `Binary`: a binary interchange format, with `Binary.double` and `Binary.single`;
* `Exact`: not a number, an infinity, or `± m · 2 ^ q`;
* `Exact.ofDouble`, `Exact.ofSingle`: the view of a given number.
-/

namespace Scss

/-- A binary interchange format, given by the widths of its two fields. -/
structure Binary where
  /-- Stored bits of the significand. -/
  fractionBits : Nat
  /-- Bits of the exponent field. -/
  exponentBits : Nat
  deriving DecidableEq, Repr

namespace Binary

/-- The 64-bit format. -/
def double : Binary := ⟨52, 11⟩

/-- The 32-bit format. -/
def single : Binary := ⟨23, 8⟩

/-- What is subtracted from an exponent field to get the power of two of the last stored bit. -/
def bias (b : Binary) : Int :=
  (Nat.pow 2 (b.exponentBits - 1) + b.fractionBits : Nat) - 1

/-- The power of two of the last bit of a subnormal number. -/
def least (b : Binary) : Int :=
  1 - b.bias

end Binary

/-- What a floating point number stands for. -/
inductive Exact where
  /-- Not a number. -/
  | nan
  /-- One of the two infinities. -/
  | infinite (negative : Bool)
  /-- The number `m · 2 ^ q`, or its opposite. -/
  | finite (negative : Bool) (m : Nat) (q : Int)
  deriving DecidableEq, Repr

namespace Exact

/-- Reads a word of the format `b`. -/
def ofBits (b : Binary) (word : Nat) : Exact :=
  let fraction := word % Nat.pow 2 b.fractionBits
  let exponent := word / Nat.pow 2 b.fractionBits % Nat.pow 2 b.exponentBits
  let negative := word / Nat.pow 2 (b.fractionBits + b.exponentBits) % 2 == 1
  if exponent + 1 = Nat.pow 2 b.exponentBits then
    if fraction = 0 then .infinite negative else .nan
  else if exponent = 0 then
    .finite negative fraction b.least
  else
    .finite negative (Nat.pow 2 b.fractionBits + fraction) (exponent - b.bias)

/-- The exact value of a double. -/
def ofDouble (x : Float) : Exact :=
  ofBits .double x.toBits.toNat

/-- The exact value of a single precision number. -/
def ofSingle (x : Float32) : Exact :=
  ofBits .single x.toBits.toNat

end Exact

end Scss
