import Scss.Number.Decimal
import Scss.Value.Basic

/-!
# Writing values

A value is written in one of two styles.  The canonical style is CSS, with numbers rounded to a
given number of places; the diagnostic style is for messages and keeps every digit.

## Main definitions

* `Style`, with the default of five places;
* `Style.number`: the text of a number;
* `needsSpace`: where a space stands between neighbours;
* `Value.render`, `Value.renderBare`, `Term.render`: text with strings in quotes or bare.
-/

namespace Scss

/-- How values are written. -/
inductive Style where
  /-- CSS, with numbers rounded to `places` decimals. -/
  | canonical (places : Nat)
  /-- Text for messages, with numbers in full. -/
  | diagnostic
  deriving DecidableEq, Repr

namespace Style

/-- The number of places kept unless another one is asked for. -/
def defaultPlaces : Nat := 5

/-- The canonical style with the usual number of places. -/
def standard : Style := .canonical defaultPlaces

/-- Whether the style is the diagnostic one. -/
def isDiagnostic : Style → Bool
  | .diagnostic => true
  | .canonical _ => false

end Style

namespace Number

/-- `r · a ^ n`, by squaring: the double each multiplication rounds to. -/
def powerStep (r a : Float) (n : Nat) : Float :=
  let r := if n % 2 = 1 then r * a else r
  if h : n / 2 = 0 then r else powerStep r (a * a) (n / 2)
termination_by n
decreasing_by omega

/-- The power `10 ^ n` by repeated squaring; exact up to `n = 22`. -/
def powerOfTen (n : Nat) : Float :=
  powerStep 1 10 n

/-- Decimals without the zeros at their end, and without a point that ends the text. -/
def dropZeros (text : List Char) : List Char :=
  if text.contains '.' then
    ((text.reverse.dropWhile (· == '0')).dropWhile (· == '.')).reverse
  else text

/-- The text of `x` rounded to `places` decimals, without zeros at the end. -/
def canonical (places : Nat) (x : Float) : List Char :=
  let factor := powerOfTen places
  let rounded := round (x * factor) / factor
  if rounded == 0 then ['0'] else dropZeros (toFixed places rounded).toList

/-- The text of `x` in full. -/
def diagnostic (x : Float) : List Char :=
  if x == 0 then ['0'] else (toText x).toList

end Number

namespace Style

/-- The text of a number. -/
def number : Style → Float → List Char
  | .canonical places, x => Number.canonical places x
  | .diagnostic, x => Number.diagnostic x

/-- The text of a colour: hexadecimal if it is solid. -/
def color (s : Style) (c : Color) : List Char :=
  if c.isSolid then c.toHex.toList
  else
    let channel (n : UInt8) := Decimal.numeral n.toNat ++ [',', ' ']
    ['r', 'g', 'b', 'a', '('] ++ channel c.r ++ channel c.g ++ channel c.b ++
      s.number c.alpha ++ [')']

end Style

/-- A string in double quotes, with a backslash before quotes and backslashes. -/
def quoteString (text : List Char) : List Char :=
  '"' :: text.flatMap (fun c => if c == '"' || c == '\\' then ['\\', c] else [c]) ++ ['"']

/-- Whether a space stands between the neighbours `left` and `right`. -/
def needsSpace (left right : Term) : Bool :=
  match left, right with
  | _, .separator .comma => false
  | .separator .slash, _ | _, .separator .slash => false
  | .operator .div, _ | _, .operator .div => false
  | .operator .leftParen, _ | _, .operator .rightParen => false
  | .operator .neg, _ => false
  | _, _ => true

mutual

/-- The text of a term; strings are written in quotes or bare. -/
def Term.write (s : Style) (quotes : Bool) : Term → List Char
  | .number value => s.number value
  | .dimension value unit => s.number value ++ unit.toList
  | .string text => if quotes then quoteString text.toList else text.toList
  | .word text => text.toList
  | .color c => s.color c
  | .call name parameters => name.toList ++ '(' :: Value.writeAfter s quotes none parameters ++ [')']
  | .variable name => '$' :: name.toList
  | .operator o => [o.symbol]
  | .separator .comma => [',']
  | .separator .slash => ['/']

/-- The text of the terms that follow `left`, with the space in front of each where one belongs. -/
def Value.writeAfter (s : Style) (quotes : Bool) (left : Option Term) : Value → List Char
  | [] => []
  | t :: rest =>
    (if left.any (needsSpace · t) then [' '] else []) ++ t.write s quotes ++
      Value.writeAfter s quotes (some t) rest

end

namespace Style

/-- The text of a value. -/
def render (s : Style) (v : Value) : String :=
  String.ofList (Value.writeAfter s true none v)

/-- The text of a value with its strings written bare. -/
def renderBare (s : Style) (v : Value) : String :=
  String.ofList (Value.writeAfter s false none v)

/-- The text of one term. -/
def renderTerm (s : Style) (t : Term) : String :=
  String.ofList (t.write s true)

end Style

end Scss
