import Scss.Function.Call

/-!
# The built-in functions

Functions on colours, on numbers and on text.  A function asks for a number of arguments first, and
then reads them from left to right.

## Main definitions

* `Generator`: a function with its name;
* `Generator.builtins`: all built-in functions;
* `Generator.shade`: a function of a colour and a percentage;
* `Generator.numeric`: a function of one number that keeps the unit;
* `Generator.textual`: a function of one text.
-/

namespace Scss

/-- A named function from calls to what stands in their place.  The style is the one in which
values are written at the time. -/
structure Generator where
  /-- The name under which the function is called. -/
  name : String
  /-- The function. -/
  apply : Call → Style → Except ArgumentError Generated

namespace Generator

/-- A colour as the result of a function. -/
def colorResult (c : Color) : Generated :=
  .value [.color c]

/-- A quantity as the result of a function. -/
def numberResult (value : Float) (unit : Option String) : Generated :=
  .value [.measure value (unit.getD "")]

/-- A text as the result of a function, in quotes or not. -/
def textResult (text : String) (quotes : Bool) : Generated :=
  .value [if quotes then .string text else .word text]

/-- A function of a colour and a percentage. -/
def shade (name : String) (f : Color → Float → Color) : Generator where
  name := name
  apply call _ := do
    let arguments ← call.arguments 2 2
    let color ← Argument.color 1 (arguments.getD 0 [])
    let amount ← Argument.amount 2 (arguments.getD 1 [])
    return colorResult (f color amount)

/-- Raises the lightness of a colour by a percentage. -/
def lighten : Generator := shade "lighten" fun c amount => c.lighten amount

/-- Lowers the lightness of a colour by a percentage. -/
def darken : Generator := shade "darken" fun c amount => c.darken amount

/-- Mixes two colours, half and half unless the share of the first is given. -/
def mix : Generator where
  name := "mix"
  apply call _ := do
    let arguments ← call.arguments 2 3
    let first ← Argument.color 1 (arguments.getD 0 [])
    let second ← Argument.color 2 (arguments.getD 1 [])
    let weight ← arguments[2]?.elim (pure 0.5) (Argument.amount 3)
    return colorResult (first.mix second weight)

/-- A solid colour from its channels. -/
def rgb : Generator where
  name := "rgb"
  apply call _ := do
    let arguments ← call.arguments 3 3
    let r ← Argument.channel 1 (arguments.getD 0 [])
    let g ← Argument.channel 2 (arguments.getD 1 [])
    let b ← Argument.channel 3 (arguments.getD 2 [])
    return colorResult (.rgb r g b)

/-- A colour from its channels and alpha, or a colour with another alpha. -/
def rgba : Generator where
  name := "rgba"
  apply call _ := do
    match ← call.arguments 2 4 with
    | [color, alpha] =>
      let color ← Argument.color 1 color
      let alpha ← Argument.alpha 2 alpha
      return colorResult (.rgba color.r color.g color.b alpha)
    | [r, g, b, alpha] =>
      let r ← Argument.channel 1 r
      let g ← Argument.channel 2 g
      let b ← Argument.channel 3 b
      let alpha ← Argument.alpha 4 alpha
      return colorResult (.rgba r g b alpha)
    | arguments => throw (.countEither 2 4 arguments.length)

/-- A function of one number, which keeps its unit. -/
def numeric (name : String) (f : Float → Float) : Generator where
  name := name
  apply call _ := do
    let arguments ← call.arguments 1 1
    let (value, unit) ← Argument.number 1 (arguments.getD 0 [])
    return numberResult (f value) unit

/-- The magnitude of a number. -/
def abs : Generator := numeric "abs" Float.abs

/-- The least integer not below a number. -/
def ceil : Generator := numeric "ceil" Number.ceil

/-- The greatest integer not above a number. -/
def floor : Generator := numeric "floor" Number.floor

/-- The nearest integer, a half going away from zero. -/
def round : Generator := numeric "round" Number.round

/-- A ratio as a percentage. -/
def percentage : Generator where
  name := "percentage"
  apply call _ := do
    let arguments ← call.arguments 1 1
    match ← Argument.number 1 (arguments.getD 0 []) with
    | (value, none) => return numberResult (value * 100) (some "%")
    | (_, some unit) => throw (.notUnitless 1 unit)

/-- A function of one text. -/
def textual (name : String) (f : String → Bool → Generated) : Generator where
  name := name
  apply call _ := do
    let arguments ← call.arguments 1 1
    let (text, quotes) ← Argument.text 1 (arguments.getD 0 [])
    return f text quotes

/-- A text in quotes. -/
def quote : Generator :=
  textual "quote" fun text _ => textResult text true

/-- Any value as text, its strings bare. -/
def unquote : Generator where
  name := "unquote"
  apply call style := do
    let arguments ← call.arguments 1 1
    return .text (style.renderBare (arguments.getD 0 []))

/-- A text with its ASCII letters in upper case. -/
def toUpperCase : Generator :=
  textual "to-upper-case" fun text => textResult (text.map Char.toUpper)

/-- A text with its ASCII letters in lower case. -/
def toLowerCase : Generator :=
  textual "to-lower-case" fun text => textResult (text.map Char.toLower)

/-- The number of characters of a text. -/
def strLength : Generator :=
  textual "str-length" fun text _ => .value [.number (Float.ofNat text.length)]

/-- The built-in functions, in the order in which they are registered. -/
def builtins : List Generator :=
  [lighten, darken, mix, rgb, rgba, abs, ceil, floor, round, percentage, quote, unquote,
   toUpperCase, toLowerCase, strLength]

end Generator

end Scss
