/-!
# Blank characters

The characters with the White_Space property, and text without them at its ends.

## Main definitions

* `Text.isBlank`: the White_Space property;
* `Text.trim`: text without blanks at either end;
* `Text.isNewline`: the characters that end a line of a stylesheet.
-/

namespace Scss.Text

/-- Whether `c` has the White_Space property. -/
def isBlank (c : Char) : Bool :=
  let n := c.toNat
  (0x09 ≤ n && n ≤ 0x0d) || n == 0x20 || n == 0x85 || n == 0xa0 || n == 0x1680 ||
    (0x2000 ≤ n && n ≤ 0x200a) || n == 0x2028 || n == 0x2029 || n == 0x202f || n == 0x205f ||
    n == 0x3000

/-- The text without blanks at its end. -/
def trimEnd (s : List Char) : List Char :=
  (s.reverse.dropWhile isBlank).reverse

/-- The text without blanks at either end. -/
def trim (s : List Char) : List Char :=
  trimEnd (s.dropWhile isBlank)

/-- Whether `c` ends a line: line feed, carriage return or form feed. -/
def isNewline (c : Char) : Bool :=
  c == '\n' || c == '\r' || c == '\x0c'

end Scss.Text
