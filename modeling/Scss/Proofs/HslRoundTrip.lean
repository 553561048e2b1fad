import Mathlib
import Scss.Proofs.ExactColors

/-!
# Hue, saturation and lightness are inverted

A colour is turned into hue, saturation and lightness to be made lighter, and back.  Over exact
numbers nothing is lost on the way: the channels come back as they were, whichever of them is
greatest and wherever the hue lies, and a colour of bytes comes back byte for byte.

The lightness and the saturation hold the least and the greatest channel.  The two conversions
compare the lightness with one half in different ways, but both mean how much room it has to the
nearer end of its range (`Hsl.room`).  The hue holds the channel between the extremes.  Each of the
three channels follows the same curve over the hue, a third of a turn apart, so what holds where red
is greatest holds of green and blue after a rotation (`Hsl.Places.rotate`).

## Main definitions

* `Hsl.firstTurn`, `Hsl.profile`: the curve of a channel over one turn
* `Hsl.between`, `Hsl.sixths`: the conversion in terms of the extremes and the hue in sixths of a turn
* `Hsl.Places`: the channels that a hue gives between two extremes
* `Hsl.InRange`: the range of hue, saturation and lightness
* `Hsl.checked`, `ColorOver.checked`: the same over checked numbers

## Main results

* `Hsl.channel_add_one`: the curve repeats after a turn
* `Hsl.toRgb_between`: saturation and lightness give the extremes
* `Hsl.places_sixths`: the hue gives each channel its place
* `Hsl.ofRgb_cases`: what a conversion of channels gives
* `Hsl.ofRgb_checked`, `Hsl.toRgb_checked`: no conversion divides by zero
* `ColorOver.toHsl_inverted`: all of the round trip
-/

namespace Scss

namespace Hsl

variable {p q t x r g b low high h : ℚ}

/-! ## The curve of a channel -/

/-- The turn `t`, moved by a whole turn where it is not in the first one. -/
def firstTurn (t : ℚ) : ℚ :=
  let t := if t < 0 then t + 1 else t
  if 1 < t then t - 1 else t

/-- A channel over the first turn: it rises from `p` to `q`, stays there, falls, and stays at `p`. -/
def profile (p q t : ℚ) : ℚ :=
  if t < 1 / 6 then p + (q - p) * 6 * t
  else if t < 1 / 2 then q
  else if t < 2 / 3 then p + (q - p) * (2 / 3 - t) * 6
  else p

theorem channel_eq (p q t : ℚ) : channel p q t = profile p q (firstTurn t) := by
  simp only [channel, profile, firstTurn]
  norm_cast

theorem firstTurn_of_mem (ht : 0 ≤ t ∧ t ≤ 1) : firstTurn t = t := by
  simp only [firstTurn, if_neg (not_lt.2 ht.1), if_neg (not_lt.2 ht.2)]

theorem firstTurn_of_neg (ht : t < 0) : firstTurn t = t + 1 := by
  simp only [firstTurn, if_pos ht]
  exact if_neg (by linarith)

theorem firstTurn_of_one_lt (ht : 1 < t) : firstTurn t = t - 1 := by
  simp only [firstTurn, if_neg (not_lt.2 (zero_le_one.trans ht.le)), if_pos ht]

-- The pieces of the curve are stated up to both of their ends, where it has no jump.

theorem channel_rising (p q : ℚ) (ht : 0 ≤ t ∧ t ≤ 1 / 6) :
    channel p q t = p + (q - p) * 6 * t := by
  rw [channel_eq, firstTurn_of_mem ⟨ht.1, by linarith⟩, profile]
  rcases ht.2.lt_or_eq with hlt | rfl
  · rw [if_pos hlt]
  · rw [if_neg (lt_irrefl _), if_pos (by norm_num)]
    ring

theorem channel_above (p q : ℚ) (ht : 1 / 6 ≤ t ∧ t ≤ 1 / 2) : channel p q t = q := by
  rw [channel_eq, firstTurn_of_mem ⟨by linarith, by linarith⟩, profile, if_neg (not_lt.2 ht.1)]
  rcases ht.2.lt_or_eq with hlt | rfl
  · rw [if_pos hlt]
  · rw [if_neg (lt_irrefl _), if_pos (by norm_num)]
    ring

theorem channel_falling (p q : ℚ) (ht : 1 / 2 ≤ t ∧ t ≤ 2 / 3) :
    channel p q t = p + (q - p) * (2 / 3 - t) * 6 := by
  rw [channel_eq, firstTurn_of_mem ⟨by linarith, by linarith⟩, profile, if_neg (by linarith),
    if_neg (not_lt.2 ht.1)]
  rcases ht.2.lt_or_eq with hlt | rfl
  · rw [if_pos hlt]
  · rw [if_neg (lt_irrefl _)]
    ring

theorem channel_below (p q : ℚ) (ht : 2 / 3 ≤ t ∧ t ≤ 1) : channel p q t = p := by
  rw [channel_eq, firstTurn_of_mem ⟨by linarith, ht.2⟩, profile, if_neg (by linarith),
    if_neg (by linarith), if_neg (not_lt.2 ht.1)]

theorem channel_self (p t : ℚ) : channel p p t = p := by
  simp only [channel_eq, profile, sub_self, zero_mul, add_zero, ite_self]

/-- The curve repeats after a whole turn. -/
theorem channel_add_one (p q : ℚ) (ht : -1 ≤ t ∧ t ≤ 1) :
    channel p q (t + 1) = channel p q t := by
  rcases lt_trichotomy t 0 with hneg | rfl | hpos
  · rw [channel_eq, channel_eq, firstTurn_of_neg hneg,
      firstTurn_of_mem ⟨by linarith, by linarith⟩]
  · -- One and zero are both in the first turn, and the channel is `p` at either end.
    rw [zero_add, channel_below p q ⟨by norm_num, le_rfl⟩,
      channel_rising p q ⟨le_rfl, by norm_num⟩, mul_zero, add_zero]
  · rw [channel_eq, channel_eq, firstTurn_of_one_lt (by linarith),
      firstTurn_of_mem ⟨hpos.le, ht.2⟩, add_sub_cancel_right]

/-! ## Saturation and lightness -/

/-- The hue is an angle, saturation and lightness are fractions. -/
structure InRange (c : Hsl ℚ) : Prop where
  hue : 0 ≤ c.hue ∧ c.hue < 360
  saturation : 0 ≤ c.saturation ∧ c.saturation ≤ 1
  lightness : 0 ≤ c.lightness ∧ c.lightness ≤ 1

/-- How far a lightness is from the nearer end of its range. -/
def room (l : ℚ) : ℚ :=
  min l (1 - l)

/-- The greatest channel lies above the lightness by a share of its room. -/
theorem upper_eq (s l : ℚ) :
    (if l < 1 / 2 then l * (1 + s) else l + s - l * s) = l + s * room l := by
  unfold room
  split_ifs with hl
  · rw [min_eq_left (by linarith)]
    ring
  · rw [min_eq_right (by linarith)]
    ring

/-- The divisor of the saturation is twice the room of the lightness. -/
theorem two_mul_room (low high : ℚ) :
    2 * room ((high + low) / 2) =
      if 1 / 2 < (high + low) / 2 then 2 - high - low else high + low := by
  unfold room
  split_ifs with hl
  · rw [min_eq_right (by linarith)]
    ring
  · rw [min_eq_left (by linarith)]
    ring

theorem toRgb_eq {c : Hsl ℚ} (hc : c.InRange) :
    c.toRgb =
      let p := c.lightness - c.saturation * room c.lightness
      let q := c.lightness + c.saturation * room c.lightness
      (channel p q (c.hue / 360 + 1 / 3), channel p q (c.hue / 360),
        channel p q (c.hue / 360 - 1 / 3)) := by
  have hunfold : c.toRgb =
      let h := Scalar.turn c.hue
      let s := Scalar.unit c.saturation
      let l := Scalar.unit c.lightness
      if s = 0 then (l, l, l)
      else
        let q := if l < 1 / 2 then l * (1 + s) else l + s - l * s
        let p := 2 * l - q
        (channel p q (h / 360 + 1 / 3), channel p q (h / 360), channel p q (h / 360 - 1 / 3)) := by
    simp only [toRgb, beq_iff_eq]
    rfl
  have hlower (l d : ℚ) : 2 * l - (l + d) = l - d := by ring
  rw [hunfold]
  simp only [Scalar.turn_of_mem hc.hue, Scalar.unit_of_mem hc.saturation,
    Scalar.unit_of_mem hc.lightness, upper_eq, hlower]
  split_ifs with hs
  · rw [hs, zero_mul, add_zero, sub_zero, channel_self, channel_self, channel_self]
  · rfl

/-- The conversion of channels from `low` to `high` whose hue is `h` sixths of a turn. -/
def between (low high h : ℚ) : Hsl ℚ :=
  let l := (high + low) / 2
  ⟨h * 60, (high - low) / (2 * room l), l⟩

section Between

variable (hlow : 0 ≤ low) (hlt : low < high) (hhigh : high ≤ 1)

include hlow hlt hhigh

theorem room_pos : 0 < room ((high + low) / 2) :=
  lt_min (by linarith) (by linarith)

theorem saturation_between_mem (h : ℚ) :
    0 ≤ (between low high h).saturation ∧ (between low high h).saturation ≤ 1 := by
  have hpos : 0 < 2 * room ((high + low) / 2) := mul_pos two_pos (room_pos hlow hlt hhigh)
  have hfits : (high - low) / 2 ≤ room ((high + low) / 2) := le_min (by linarith) (by linarith)
  constructor
  · exact div_nonneg (sub_nonneg.2 hlt.le) hpos.le
  · exact (div_le_one hpos).2 (by linarith)

theorem inRange_between (hh : 0 ≤ h ∧ h < 6) : (between low high h).InRange where
  hue := by
    show 0 ≤ h * 60 ∧ h * 60 < 360
    exact ⟨by linarith, by linarith⟩
  saturation := saturation_between_mem hlow hlt hhigh h
  lightness := by
    show 0 ≤ (high + low) / 2 ∧ (high + low) / 2 ≤ 1
    exact ⟨by linarith, by linarith⟩

/-- Saturation and lightness give the extremes back. -/
theorem toRgb_between (hh : 0 ≤ h ∧ h < 6) :
    (between low high h).toRgb =
      (channel low high (h / 6 + 1 / 3), channel low high (h / 6),
        channel low high (h / 6 - 1 / 3)) := by
  have hroom := room_pos hlow hlt hhigh
  have hhalf : (high - low) / (2 * room ((high + low) / 2)) * room ((high + low) / 2) =
      (high - low) / 2 := by
    field_simp
  have hupper : (high + low) / 2 + (high - low) / 2 = high := by ring
  have hlower : (high + low) / 2 - (high - low) / 2 = low := by ring
  have hturn : h * 60 / 360 = h / 6 := by ring
  rw [toRgb_eq (inRange_between hlow hlt hhigh hh)]
  simp only [between, hhalf, hupper, hlower, hturn]

end Between

/-! ## Hue -/

/-- At a hue of `h` sixths of a turn the channels from `low` to `high` are `r`, `g` and `b`. -/
structure Places (low high h r g b : ℚ) : Prop where
  red : channel low high (h / 6 + 1 / 3) = r
  green : channel low high (h / 6) = g
  blue : channel low high (h / 6 - 1 / 3) = b

/-- A third of a turn moves every channel to the next place. -/
theorem Places.rotate (hplaces : Places low high h r g b) (hh : -1 ≤ h ∧ h ≤ 6) :
    Places low high (h + 2) b r g := by
  have hred : (h + 2) / 6 + 1 / 3 = h / 6 - 1 / 3 + 1 := by ring
  have hgreen : (h + 2) / 6 = h / 6 + 1 / 3 := by ring
  have hblue : (h + 2) / 6 - 1 / 3 = h / 6 := by ring
  constructor
  · rw [hred, channel_add_one low high ⟨by linarith, by linarith⟩, hplaces.blue]
  · rw [hgreen, hplaces.red]
  · rw [hblue, hplaces.green]

section Top

variable {top next last : ℚ} (hnext : next ≤ top) (hlast : last ≤ top) (hlt : min next last < top)

include hnext hlast hlt

/-- The hue is at most a sixth of a turn from where the greatest channel has its middle. -/
theorem offset_mem :
    -1 ≤ (next - last) / (top - min next last) ∧ (next - last) / (top - min next last) ≤ 1 := by
  have hspan : 0 < top - min next last := sub_pos.2 hlt
  rw [le_div_iff₀ hspan, div_le_one hspan]
  constructor
  · linarith [min_le_left next last]
  · linarith [min_le_right next last]

/-- Around the middle of the greatest channel, the hue tells which of the others is between the
extremes, and where. -/
theorem places_top :
    Places (min next last) top ((next - last) / (top - min next last)) top next last := by
  have hspan : 0 < top - min next last := sub_pos.2 hlt
  obtain ⟨hlower, hupper⟩ := offset_mem hnext hlast hlt
  rcases le_total last next with hle | hle
  · -- `last` is least, and `next` rises with the hue.
    rw [min_eq_right hle] at hspan hlower hupper ⊢
    have hpos : 0 ≤ (next - last) / (top - last) := div_nonneg (sub_nonneg.2 hle) hspan.le
    have hscale : (top - last) * ((next - last) / (top - last)) = next - last :=
      mul_div_cancel₀ _ hspan.ne'
    constructor
    · exact channel_above _ _ ⟨by linarith, by linarith⟩
    · rw [channel_rising _ _ ⟨by linarith, by linarith⟩]
      linarith
    · rw [← channel_add_one _ _ ⟨by linarith, by linarith⟩]
      exact channel_below _ _ ⟨by linarith, by linarith⟩
  · -- `next` is least, and `last` falls; both are looked up a turn later.
    rw [min_eq_left hle] at hspan hlower hupper ⊢
    have hneg : (next - last) / (top - next) ≤ 0 :=
      div_nonpos_of_nonpos_of_nonneg (sub_nonpos.2 hle) hspan.le
    have hscale : (top - next) * ((next - last) / (top - next)) = next - last :=
      mul_div_cancel₀ _ hspan.ne'
    constructor
    · exact channel_above _ _ ⟨by linarith, by linarith⟩
    · rw [← channel_add_one _ _ ⟨by linarith, by linarith⟩]
      exact channel_below _ _ ⟨by linarith, by linarith⟩
    · rw [← channel_add_one _ _ ⟨by linarith, by linarith⟩,
        channel_falling _ _ ⟨by linarith, by linarith⟩]
      linarith

/-- A hue before the middle of red is counted from the end of the turn. -/
theorem places_wrapped :
    let h := (next - last) / (top - min next last) + if next < last then 6 else 0
    (0 ≤ h ∧ h < 6) ∧ Places (min next last) top h top next last := by
  have hspan : 0 < top - min next last := sub_pos.2 hlt
  have hplaces := places_top hnext hlast hlt
  obtain ⟨hlower, hupper⟩ := offset_mem hnext hlast hlt
  dsimp only
  split_ifs with hwrap
  · have hneg : (next - last) / (top - min next last) < 0 :=
      div_neg_of_neg_of_pos (sub_neg.2 hwrap) hspan
    have hround (x : ℚ) : x + 6 = x + 2 + 2 + 2 := by ring
    refine ⟨⟨by linarith, by linarith⟩, ?_⟩
    rw [hround]
    exact ((hplaces.rotate ⟨by linarith, by linarith⟩).rotate ⟨by linarith, by linarith⟩).rotate
      ⟨by linarith, by linarith⟩
  · have hnonneg : 0 ≤ (next - last) / (top - min next last) :=
      div_nonneg (sub_nonneg.2 (not_lt.1 hwrap)) hspan.le
    rw [add_zero]
    exact ⟨⟨hnonneg, by linarith⟩, hplaces⟩

end Top

/-- The hue of three channels, in sixths of a turn. -/
def sixths (r g b : ℚ) : ℚ :=
  let high := max (max r g) b
  let low := min (min r g) b
  if high = r then (g - b) / (high - low) + if g < b then 6 else 0
  else if high = g then (b - r) / (high - low) + 2
  else (r - g) / (high - low) + 4

/-- The hue of three channels gives each of them its place. -/
theorem places_sixths (hlt : min (min r g) b < max (max r g) b) :
    (0 ≤ sixths r g b ∧ sixths r g b < 6) ∧
      Places (min (min r g) b) (max (max r g) b) (sixths r g b) r g b := by
  have hr : r ≤ max (max r g) b := (le_max_left r g).trans (le_max_left _ b)
  have hg : g ≤ max (max r g) b := (le_max_right r g).trans (le_max_left _ b)
  have hb : b ≤ max (max r g) b := le_max_right _ b
  unfold sixths
  dsimp only
  -- The hue is measured from the middle of the greatest channel; red has its middle at zero, green
  -- and blue one and two thirds of a turn later.
  by_cases hred : max (max r g) b = r
  · rw [if_pos hred]
    rw [hred, min_assoc, min_eq_right ((min_le_left g b).trans (hg.trans hred.le))] at hlt ⊢
    rw [hred] at hg hb
    exact places_wrapped hg hb hlt
  by_cases hgreen : max (max r g) b = g
  · rw [if_neg hred, if_pos hgreen]
    rw [hgreen, min_eq_left (hr.trans hgreen.le), min_comm] at hlt ⊢
    rw [hgreen] at hr hb
    obtain ⟨hlower, hupper⟩ := offset_mem hb hr hlt
    exact ⟨⟨by linarith, by linarith⟩,
      (places_top hb hr hlt).rotate ⟨by linarith, by linarith⟩⟩
  · have hblue : max (max r g) b = b := by
      rcases max_choice (max r g) b with hmax | hmax
      · rcases max_choice r g with hmax' | hmax'
        · exact absurd (hmax.trans hmax') hred
        · exact absurd (hmax.trans hmax') hgreen
      · exact hmax
    rw [if_neg hred, if_neg hgreen]
    rw [hblue, min_eq_left ((min_le_left r g).trans (hr.trans hblue.le))] at hlt ⊢
    rw [hblue] at hr hg
    obtain ⟨hlower, hupper⟩ := offset_mem hr hg hlt
    have htwice (x : ℚ) : x + 4 = x + 2 + 2 := by ring
    refine ⟨⟨by linarith, by linarith⟩, ?_⟩
    rw [htwice]
    exact ((places_top hr hg hlt).rotate ⟨by linarith, by linarith⟩).rotate
      ⟨by linarith, by linarith⟩

/-! ## The round trip of channels -/

theorem ofRgb_eq (r g b : ℚ) :
    ofRgb r g b =
      let high := max (max r g) b
      let low := min (min r g) b
      if high = low then ⟨0, 0, (high + low) / 2⟩ else between low high (sixths r g b) := by
  simp only [ofRgb, Scalar.max_eq, Scalar.min_eq, beq_iff_eq, sixths, between, two_mul_room,
    div_ite]
  norm_cast

section Channels

variable (hr : 0 ≤ r ∧ r ≤ 1) (hg : 0 ≤ g ∧ g ≤ 1) (hb : 0 ≤ b ∧ b ≤ 1)

include hr hg hb

/-- Three channels are equal, or their conversion is that of their extremes and of a hue that gives
them their places. -/
theorem ofRgb_cases :
    g = r ∧ b = r ∧ ofRgb r g b = ⟨0, 0, r⟩ ∨
    ∃ low high h, 0 ≤ low ∧ low < high ∧ high ≤ 1 ∧ (0 ≤ h ∧ h < 6) ∧
      Places low high h r g b ∧ ofRgb r g b = between low high h := by
  have hr' : min (min r g) b ≤ r ∧ r ≤ max (max r g) b :=
    ⟨(min_le_left _ b).trans (min_le_left r g), (le_max_left r g).trans (le_max_left _ b)⟩
  have hg' : min (min r g) b ≤ g ∧ g ≤ max (max r g) b :=
    ⟨(min_le_left _ b).trans (min_le_right r g), (le_max_right r g).trans (le_max_left _ b)⟩
  have hb' : min (min r g) b ≤ b ∧ b ≤ max (max r g) b := ⟨min_le_right _ b, le_max_right _ b⟩
  rw [ofRgb_eq]
  dsimp only
  split_ifs with heq
  · refine .inl ⟨by linarith, by linarith, ?_⟩
    have hl : (max (max r g) b + min (min r g) b) / 2 = r := by linarith
    rw [hl]
  · have hlt := lt_of_le_of_ne (hb'.1.trans hb'.2) (Ne.symm heq)
    obtain ⟨hh, hplaces⟩ := places_sixths hlt
    exact .inr ⟨_, _, _, le_min (le_min hr.1 hg.1) hb.1, hlt, max_le (max_le hr.2 hg.2) hb.2, hh,
      hplaces, rfl⟩

theorem inRange_ofRgb : (ofRgb r g b).InRange := by
  rcases ofRgb_cases hr hg hb with ⟨-, -, heq⟩ | ⟨low, high, h, hlow, hlt, hhigh, hh, -, heq⟩
  · rw [heq]
    exact ⟨⟨le_rfl, by norm_num⟩, ⟨le_rfl, zero_le_one⟩, hr⟩
  · rw [heq]
    exact inRange_between hlow hlt hhigh hh

/-- Channels come back exactly. -/
theorem toRgb_ofRgb : (ofRgb r g b).toRgb = (r, g, b) := by
  have hrange := inRange_ofRgb hr hg hb
  rcases ofRgb_cases hr hg hb with
    ⟨rfl, rfl, heq⟩ | ⟨low, high, h, hlow, hlt, hhigh, hh, hplaces, heq⟩
  · rw [heq] at hrange ⊢
    rw [toRgb_eq hrange]
    simp only [zero_mul, add_zero, sub_zero, channel_self]
  · rw [heq, toRgb_between hlow hlt hhigh hh, hplaces.red, hplaces.green, hplaces.blue]

end Channels

/-! ## Divisors -/

/-- The same hue, saturation and lightness as checked numbers. -/
def checked (c : Hsl ℚ) : Hsl Checked :=
  ⟨.value c.hue, .value c.saturation, .value c.lightness⟩

/-- The conversion of channels in the unit interval never divides by zero. -/
theorem ofRgb_checked (hr : 0 ≤ r ∧ r ≤ 1) (hg : 0 ≤ g ∧ g ≤ 1) (hb : 0 ≤ b ∧ b ≤ 1) :
    ofRgb (.value r) (.value g) (.value b) = (ofRgb r g b).checked := by
  simp only [ofRgb, Checked.max_value, Checked.min_value, Scalar.max_eq, Scalar.min_eq,
    Checked.natCast_eq, Checked.value_lt_value, Checked.value_add, Checked.value_sub,
    Checked.value_div_natCast, Checked.value_beq_value, beq_iff_eq]
  generalize hhigh : max (max r g) b = high
  generalize hlow : min (min r g) b = low
  by_cases heq : high = low
  · rw [if_pos heq, if_pos heq]
    rfl
  · have hle : low ≤ high := hlow ▸ hhigh ▸ (min_le_right _ b).trans (le_max_right _ b)
    have hlt : low < high := lt_of_le_of_ne hle (Ne.symm heq)
    have hnonneg : 0 ≤ low := hlow ▸ le_min (le_min hr.1 hg.1) hb.1
    have hle_one : high ≤ 1 := hhigh ▸ max_le (max_le hr.2 hg.2) hb.2
    have hspan : high - low ≠ 0 := by linarith
    have hupper : ((2 : ℕ) : ℚ) - high - low ≠ 0 := by
      push_cast
      linarith
    have hlower : high + low ≠ 0 := by linarith
    rw [if_neg heq, if_neg heq]
    simp only [Checked.value_div hspan, Checked.value_div hupper, Checked.value_div hlower,
      Checked.value_add, Checked.value_mul, ← apply_ite Checked.value]
    rfl

theorem channel_checked (p q t : ℚ) :
    channel (.value p) (.value q) (.value t) = Checked.value (channel p q t) := by
  simp only [channel, Checked.natCast_eq, Checked.value_lt_value, Checked.value_add,
    Checked.value_sub, Checked.value_mul, Checked.value_div_natCast, ← apply_ite Checked.value]

/-- The conversion back divides by nothing but constants. -/
theorem toRgb_checked (c : Hsl ℚ) :
    c.checked.toRgb = (.value c.toRgb.1, .value c.toRgb.2.1, .value c.toRgb.2.2) := by
  simp only [toRgb, checked, Checked.turn_value, Checked.unit_value, Checked.natCast_eq,
    Checked.value_lt_value, Checked.value_beq_value, Checked.value_add, Checked.value_sub,
    Checked.value_mul, Checked.value_div_natCast, ← apply_ite Checked.value, channel_checked]
  by_cases hs : (Scalar.unit c.saturation == (0 : ℕ)) = true
  · simp only [if_pos hs]
  · simp only [if_neg hs]

end Hsl

/-! ## Colours -/

namespace ColorOver

/-- The same colour with a checked number as alpha. -/
def checked (c : ColorOver ℚ) : ColorOver Checked :=
  ⟨c.r, c.g, c.b, .value c.alpha⟩

theorem fraction_mem (x : UInt8) : 0 ≤ (fraction x : ℚ) ∧ (fraction x : ℚ) ≤ 1 := by
  have hlt : (x.toNat : ℚ) ≤ 255 := by exact_mod_cast Nat.le_of_lt_succ x.toNat_lt
  show 0 ≤ (x.toNat : ℚ) / 255 ∧ (x.toNat : ℚ) / 255 ≤ 1
  exact ⟨div_nonneg x.toNat.cast_nonneg (by norm_num), (div_le_one (by norm_num)).2 hlt⟩

theorem fraction_checked (x : UInt8) : (fraction x : Checked) = .value (fraction x) := by
  simp only [fraction, Checked.natCast_eq, Checked.value_div_natCast]

/-- A byte comes back from its fraction. -/
theorem byte_fraction (x : UInt8) : byte (fraction x : ℚ) = x := by
  have hcancel : (fraction x : ℚ) * 255 = x.toNat :=
    div_mul_cancel₀ (x.toNat : ℚ) (by norm_num : (255 : ℚ) ≠ 0)
  show Scalar.toByte ((fraction x : ℚ) * 255) = x
  rw [hcancel, Scalar.toByte_toNat]

theorem toHsl_checked (c : ColorOver ℚ) : c.checked.toHsl = c.toHsl.checked := by
  simp only [toHsl, checked, fraction_checked]
  exact Hsl.ofRgb_checked (fraction_mem c.r) (fraction_mem c.g) (fraction_mem c.b)

theorem ofHsl_toHsl (c : ColorOver ℚ) (alpha : ℚ) :
    ofHsl c.toHsl alpha = rgba c.r c.g c.b alpha := by
  have hchannels : c.toHsl.toRgb = (fraction c.r, fraction c.g, fraction c.b) :=
    Hsl.toRgb_ofRgb (fraction_mem c.r) (fraction_mem c.g) (fraction_mem c.b)
  simp only [ofHsl, hchannels, byte_fraction]

/-- **The conversion to hue, saturation and lightness is inverted.**  For a colour of bytes the hue
is an angle, and saturation and lightness are fractions.  Nothing is divided by zero: with checked
numbers the conversion has the same result.  The colour comes back from it, if its alpha is in the
unit interval.  The same holds of any channels in the unit interval, which come back exactly. -/
theorem toHsl_inverted :
    (∀ c : ColorOver ℚ,
      c.toHsl.InRange ∧ c.checked.toHsl = c.toHsl.checked ∧
      (0 ≤ c.alpha ∧ c.alpha ≤ 1 → ofHsl c.toHsl c.alpha = c)) ∧
    ∀ r g b : ℚ, 0 ≤ r ∧ r ≤ 1 → 0 ≤ g ∧ g ≤ 1 → 0 ≤ b ∧ b ≤ 1 →
      (Hsl.ofRgb r g b).InRange ∧
      Hsl.ofRgb (.value r) (.value g) (.value b) = (Hsl.ofRgb r g b).checked ∧
      (Hsl.ofRgb r g b).toRgb = (r, g, b) ∧
      (Hsl.ofRgb r g b).checked.toRgb = (.value r, .value g, .value b) := by
  refine ⟨fun c => ⟨?_, toHsl_checked c, fun halpha => ?_⟩, fun r g b hr hg hb => ?_⟩
  · exact Hsl.inRange_ofRgb (fraction_mem c.r) (fraction_mem c.g) (fraction_mem c.b)
  · rw [ofHsl_toHsl, rgba, Scalar.unit_of_mem halpha]
  · have hchannels := Hsl.toRgb_ofRgb hr hg hb
    refine ⟨Hsl.inRange_ofRgb hr hg hb, Hsl.ofRgb_checked hr hg hb, hchannels, ?_⟩
    rw [Hsl.toRgb_checked, hchannels]

/-- A half clear crimson of middle lightness, whose hue is just before a whole turn, and channels
that are no bytes. -/
theorem toHsl_inverted_crimson :
    toHsl ⟨200, 55, 84, 1 / 2⟩ = (⟨348, 29 / 51, 1 / 2⟩ : Hsl ℚ) ∧
    ofHsl (⟨348, 29 / 51, 1 / 2⟩ : Hsl ℚ) (1 / 2) = ⟨200, 55, 84, 1 / 2⟩ ∧
    (Hsl.ofRgb (1 / 3) 1 (2 / 7) : Hsl ℚ).toRgb = (1 / 3, 1, 2 / 7) := by
  have hto : toHsl ⟨200, 55, 84, 1 / 2⟩ = (⟨348, 29 / 51, 1 / 2⟩ : Hsl ℚ) := by
    decide +kernel
  obtain ⟨-, -, hback⟩ := toHsl_inverted.1 ⟨200, 55, 84, 1 / 2⟩
  obtain ⟨-, -, hchannels, -⟩ := toHsl_inverted.2 (1 / 3) 1 (2 / 7) (by norm_num) (by norm_num)
    (by norm_num)
  rw [hto] at hback
  exact ⟨hto, hback (by norm_num), hchannels⟩

end ColorOver

end Scss
