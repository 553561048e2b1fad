/-!
# Hexadecimal digits

## Main definitions

* `Hex.isDigit`, `Hex.value`: one digit, in either case;
* `Hex.number`: the number written by digits.
-/

namespace Scss.Hex

/-- Whether `c` is a hexadecimal digit. -/
def isDigit (c : Char) : Bool :=
  c.isDigit || ('a' ≤ c && c ≤ 'f') || ('A' ≤ c && c ≤ 'F')

/-- The value of a hexadecimal digit. -/
def value (c : Char) : Nat :=
  if c.isDigit then c.toNat - '0'.toNat
  else if 'a' ≤ c then c.toNat - 'a'.toNat + 10
  else c.toNat - 'A'.toNat + 10

/-- The number written by hexadecimal digits. -/
def number (digits : List Char) : Nat :=
  digits.foldl (fun n c => 16 * n + value c) 0

end Scss.Hex
