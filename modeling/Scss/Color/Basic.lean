import Scss.Color.Scalar

/-!
# Colours

A colour has three channels of a byte each and an alpha.  The formulas for hue, saturation and
lightness and for mixing are polymorphic in the numbers they compute with (`Scalar`); `Color` is
the case of doubles.

## Main definitions

* `ColorOver`, `Color`: a colour whose alpha is a number of a given type, or a double;
* `Hsl`: hue in degrees, saturation and lightness as fractions, with `Hsl.ofRgb` and `Hsl.toRgb`
  between it and unrounded channels in `[0, 1]`;
* `ColorOver.lighten`, `ColorOver.darken`, `ColorOver.mix`;
* `ColorOver.toHex`: the text `#rrggbb`.
-/

namespace Scss

/-- Three channels and an alpha of type `α`. -/
structure ColorOver (α : Type) where
  /-- Red. -/
  r : UInt8
  /-- Green. -/
  g : UInt8
  /-- Blue. -/
  b : UInt8
  /-- Coverage, from `0` (clear) to `1` (solid). -/
  alpha : α
  deriving DecidableEq, BEq, Repr

/-- A colour with a double as alpha. -/
abbrev Color := ColorOver Float

/-- Hue in degrees, saturation and lightness in `[0, 1]`. -/
structure Hsl (α : Type) where
  /-- Hue, in degrees. -/
  hue : α
  /-- Saturation. -/
  saturation : α
  /-- Lightness. -/
  lightness : α
  deriving DecidableEq, Repr

section Formulas

variable {α : Type} [Scalar α]

/-- Hue, saturation and lightness of channels in `[0, 1]`. -/
def Hsl.ofRgb (r g b : α) : Hsl α :=
  let max := Scalar.max (Scalar.max r g) b
  let min := Scalar.min (Scalar.min r g) b
  let l := (max + min) / (2 : Nat)
  if max == min then ⟨(0 : Nat), (0 : Nat), l⟩
  else
    let d := max - min
    let half : α := (1 : Nat) / (2 : Nat)
    let s := if half < l then d / ((2 : Nat) - max - min) else d / (max + min)
    let h :=
      if max == r then (g - b) / d + (if g < b then (6 : Nat) else (0 : Nat) : Nat)
      else if max == g then (b - r) / d + (2 : Nat)
      else (r - g) / d + (4 : Nat)
    ⟨h * (60 : Nat), s, l⟩

/-- The channel at the turn `t`, between the extremes `p` and `q`. -/
def Hsl.channel (p q t : α) : α :=
  let t := if t < (0 : Nat) then t + (1 : Nat) else t
  let t := if (1 : Nat) < t then t - (1 : Nat) else t
  let twoThirds : α := (2 : Nat) / (3 : Nat)
  if t < (1 : Nat) / (6 : Nat) then p + (q - p) * (6 : Nat) * t
  else if t < (1 : Nat) / (2 : Nat) then q
  else if t < twoThirds then p + (q - p) * (twoThirds - t) * (6 : Nat)
  else p

/-- The channels, in `[0, 1]`, of a hue, saturation and lightness. -/
def Hsl.toRgb (c : Hsl α) : α × α × α :=
  let h := Scalar.turn c.hue
  let s := Scalar.unit c.saturation
  let l := Scalar.unit c.lightness
  if s == (0 : Nat) then (l, l, l)
  else
    let half : α := (1 : Nat) / (2 : Nat)
    let third : α := (1 : Nat) / (3 : Nat)
    let q := if l < half then l * ((1 : Nat) + s) else l + s - l * s
    let p := (2 : Nat) * l - q
    let h := h / (360 : Nat)
    (channel p q (h + third), channel p q h, channel p q (h - third))

namespace ColorOver

/-- An opaque colour. -/
def rgb (r g b : UInt8) : ColorOver α :=
  ⟨r, g, b, (1 : Nat)⟩

/-- A colour whose alpha is moved into the unit interval. -/
def rgba (r g b : UInt8) (alpha : α) : ColorOver α :=
  ⟨r, g, b, Scalar.unit alpha⟩

/-- A channel as a fraction. -/
def fraction (channel : UInt8) : α :=
  (channel.toNat : α) / (255 : Nat)

/-- The byte of a channel given as a fraction. -/
def byte (x : α) : UInt8 :=
  Scalar.toByte (x * (255 : Nat))

/-- Hue, saturation and lightness of a colour. -/
def toHsl (c : ColorOver α) : Hsl α :=
  Hsl.ofRgb (fraction c.r) (fraction c.g) (fraction c.b)

/-- The colour with a given hue, saturation, lightness and alpha. -/
def ofHsl (c : Hsl α) (alpha : α) : ColorOver α :=
  let (r, g, b) := c.toRgb
  rgba (byte r) (byte g) (byte b) alpha

/-- Raises the lightness by `amount`, a fraction. -/
def lighten (c : ColorOver α) (amount : α) : ColorOver α :=
  let hsl := c.toHsl
  ofHsl { hsl with lightness := hsl.lightness + amount } c.alpha

/-- How far the weight `p` and the difference `a` of two alphas lean to the first of two colours. -/
def mixTilt (p a : α) : α :=
  let w := (2 : Nat) * p - (1 : Nat)
  if w * a == (0 : Nat) - (1 : Nat) then w else (w + a) / ((1 : Nat) + w * a)

/-- The share of the first of two colours in each channel of their mixture. -/
def mixShare (p a : α) : α :=
  (mixTilt p a + (1 : Nat)) / (2 : Nat)

/-- One channel of a mixture in which the first colour has the share `w`. -/
def mixChannel (w : α) (x y : UInt8) : UInt8 :=
  Scalar.toByte ((x.toNat : α) * w + (y.toNat : α) * ((1 : Nat) - w))

/-- Mixes two colours; `weight` is the share of `c`, and the alphas tell in the channels too. -/
def mix (c d : ColorOver α) (weight : α) : ColorOver α :=
  let p := Scalar.unit weight
  let w := mixShare p (c.alpha - d.alpha)
  rgba (mixChannel w c.r d.r) (mixChannel w c.g d.g) (mixChannel w c.b d.b)
    (c.alpha * p + d.alpha * ((1 : Nat) - p))

end ColorOver

end Formulas

namespace ColorOver

/-- Lowers the lightness by `amount`, a fraction. -/
def darken (c : Color) (amount : Float) : Color :=
  c.lighten (-amount)

/-- Whether nothing shows through the colour. -/
def isSolid (c : Color) : Bool :=
  1 ≤ c.alpha

/-- Black. -/
def black : Color := rgb 0 0 0

/-- White. -/
def white : Color := rgb 255 255 255

/-- Two hexadecimal digits. -/
def hexByte (n : UInt8) : List Char :=
  [Nat.digitChar (n.toNat / 16), Nat.digitChar (n.toNat % 16)]

/-- The channels as `#rrggbb`; alpha is left out. -/
def toHex {α : Type} (c : ColorOver α) : String :=
  String.ofList ('#' :: hexByte c.r ++ hexByte c.g ++ hexByte c.b)

end ColorOver

end Scss
