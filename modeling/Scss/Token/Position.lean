/-!
# Positions in a source text

Lines count from zero and columns from one; a column counts UTF-16 code units.  A line ends with a
line feed, a form feed, a carriage return, or a carriage return with a line feed.

## Main definitions

* `Position`, with `Position.start`;
* `Position.advance`: the position after some text.
-/

namespace Scss

/-- A place in a source text. -/
structure Position where
  /-- The line, counted from zero. -/
  line : Nat
  /-- The column in UTF-16 code units, counted from one. -/
  column : Nat
  deriving DecidableEq, Repr

namespace Position

/-- The start of a text. -/
def start : Position := ⟨0, 1⟩

/-- The start of the next line. -/
def nextLine (p : Position) : Position := ⟨p.line + 1, 1⟩

/-- The position after one character that ends no line. -/
def nextColumn (p : Position) (c : Char) : Position :=
  { p with column := p.column + (if c.toNat < 0x10000 then 1 else 2) }

/-- The position after a text that starts at `p`. -/
def advance (p : Position) : List Char → Position
  | [] => p
  | '\r' :: '\n' :: rest => p.nextLine.advance rest
  | c :: rest =>
    if c == '\n' || c == '\r' || c == '\x0c' then p.nextLine.advance rest
    else (p.nextColumn c).advance rest

end Position

end Scss
