import Mathlib
import Scss.Proofs.ExactColors

/-!
# Mixtures are weighted means

A mixture of two colours takes each channel from the two in proportion to a share, which depends on
the weight and on how much more opaque one of the colours is.  Over exact numbers the share is a
fraction, whatever the weight, so a channel of the mixture lies between those that are mixed.  Two
equal colours give the same colour, and it makes no difference which of two colours comes first,
if the weight is turned round with them.

The tilt of a mixture is a quotient except where its divisor would vanish.  The weight and the
difference of the alphas enter it alike, both from `-1` to `1`, and turning them round turns it
round (`ColorOver.mixTilt_neg`).

## Main definitions

* `ColorOver.IsMean`: a channel that is the weighted mean of two

## Main results

* `ColorOver.abs_mixTilt_le`, `ColorOver.mixShare_mem`: the range of tilt and share
* `ColorOver.mixChannel_isMean`: one channel
* `ColorOver.mix_self`, `ColorOver.mix_reflect`: equal colours, and colours in the other order
* `ColorOver.mix_isMean`: all of a mixture
-/

namespace Scss

namespace ColorOver

variable {p a w : ℚ} {x y : UInt8} {c d : ColorOver ℚ}

/-! ## The share -/

/-- The tilt is a quotient, except where the divisor vanishes. -/
theorem mixTilt_eq (p a : ℚ) :
    mixTilt p a =
      if (2 * p - 1) * a = -1 then 2 * p - 1 else (2 * p - 1 + a) / (1 + (2 * p - 1) * a) := by
  simp [mixTilt]

theorem mixShare_eq (p a : ℚ) : mixShare p a = (mixTilt p a + 1) / 2 :=
  rfl

section Range

variable (hp : 0 ≤ p ∧ p ≤ 1) (ha : -1 ≤ a ∧ a ≤ 1)

include hp ha

/-- Where a quotient is taken, its divisor is positive. -/
theorem mixDivisor_pos (hne : (2 * p - 1) * a ≠ -1) : 0 < 1 + (2 * p - 1) * a := by
  obtain ⟨hp₀, hp₁⟩ := hp
  have hbound : |(2 * p - 1) * a| ≤ 1 := by
    rw [abs_mul]
    exact mul_le_one₀ (abs_le.2 ⟨by linarith, by linarith⟩) (abs_nonneg a) (abs_le.2 ha)
  have hge : -1 ≤ (2 * p - 1) * a := (abs_le.1 hbound).1
  have hgt : -1 < (2 * p - 1) * a := lt_of_le_of_ne hge (Ne.symm hne)
  linarith

theorem abs_mixTilt_le : |mixTilt p a| ≤ 1 := by
  have hdivisor := mixDivisor_pos hp ha
  obtain ⟨hp₀, hp₁⟩ := hp
  obtain ⟨ha₀, ha₁⟩ := ha
  rw [mixTilt_eq]
  split_ifs with h
  · exact abs_le.2 ⟨by linarith, by linarith⟩
  · have hpos := hdivisor h
    -- Both bounds are products of two numbers that are not negative.
    have hupper : 0 ≤ (1 - (2 * p - 1)) * (1 - a) := mul_nonneg (by linarith) (by linarith)
    have hlower : 0 ≤ (1 + (2 * p - 1)) * (1 + a) := mul_nonneg (by linarith) (by linarith)
    rw [abs_le, le_div_iff₀ hpos, div_le_iff₀ hpos]
    exact ⟨by linarith, by linarith⟩

theorem mixShare_mem : 0 ≤ mixShare p a ∧ mixShare p a ≤ 1 := by
  obtain ⟨hlower, hupper⟩ := abs_le.1 (abs_mixTilt_le hp ha)
  rw [mixShare_eq]
  constructor
  · linarith
  · linarith

end Range

/-- With weight and alphas turned round, the mixture leans as far to the other side. -/
theorem mixTilt_neg (p a : ℚ) : mixTilt (1 - p) (-a) = -mixTilt p a := by
  have hweight : 2 * (1 - p) - 1 = -(2 * p - 1) := by ring
  rw [mixTilt_eq, mixTilt_eq, hweight, neg_mul_neg]
  split_ifs
  · rfl
  · rw [← neg_add, neg_div]

theorem mixShare_neg (p a : ℚ) : mixShare (1 - p) (-a) = 1 - mixShare p a := by
  rw [mixShare_eq, mixShare_eq, mixTilt_neg]
  ring

/-! ## Channels -/

/-- The channel `z` is the mean of `x` and `y` in which `x` has the share `w`, rounded, and lies
between them. -/
structure IsMean (w : ℚ) (x y z : UInt8) : Prop where
  near : |(z.toNat : ℚ) - (x.toNat * w + y.toNat * (1 - w))| ≤ 1 / 2
  between : z.toNat ∈ Set.uIcc x.toNat y.toNat

theorem mixChannel_eq (w : ℚ) (x y : UInt8) :
    mixChannel w x y = Scalar.toByte (x.toNat * w + y.toNat * (1 - w) : ℚ) :=
  rfl

theorem mean_mem_uIcc (hw : 0 ≤ w ∧ w ≤ 1) (u v : ℚ) : u * w + v * (1 - w) ∈ Set.uIcc u v := by
  have hconvex : Convex ℚ (Set.uIcc u v) := convex_uIcc u v
  have hmem := hconvex Set.left_mem_uIcc Set.right_mem_uIcc hw.1 (sub_nonneg.2 hw.2)
    (add_sub_cancel w 1)
  rwa [smul_eq_mul, smul_eq_mul, mul_comm, mul_comm (1 - w)] at hmem

theorem mixChannel_isMean (hw : 0 ≤ w ∧ w ≤ 1) (x y : UInt8) :
    IsMean w x y (mixChannel w x y) := by
  have hmean := mean_mem_uIcc hw x.toNat y.toNat
  rw [mixChannel_eq]
  constructor
  · have hx : (x.toNat : ℚ) ≤ 255 := by exact_mod_cast Nat.le_of_lt_succ x.toNat_lt
    have hy : (y.toNat : ℚ) ≤ 255 := by exact_mod_cast Nat.le_of_lt_succ y.toNat_lt
    obtain ⟨hlower, hupper⟩ := hmean
    exact Scalar.abs_toByte_sub_le ((le_min x.toNat.cast_nonneg y.toNat.cast_nonneg).trans hlower)
      (hupper.trans (max_le hx hy))
  · rcases Set.mem_uIcc.1 hmean with ⟨hx, hy⟩ | ⟨hy, hx⟩
    · exact Set.mem_uIcc.2 (.inl (Scalar.toByte_between hx hy))
    · exact Set.mem_uIcc.2 (.inr (Scalar.toByte_between hy hx))

theorem mixChannel_self (w : ℚ) (x : UInt8) : mixChannel w x x = x := by
  rw [mixChannel_eq, ← mul_add, add_sub_cancel, mul_one, Scalar.toByte_toNat]

theorem mixChannel_reflect (w : ℚ) (x y : UInt8) : mixChannel (1 - w) y x = mixChannel w x y := by
  rw [mixChannel_eq, mixChannel_eq, sub_sub_cancel, add_comm]

/-! ## Colours -/

/-- The parts of a mixture. -/
theorem mix_eq (c d : ColorOver ℚ) (weight : ℚ) :
    c.mix d weight =
      ⟨mixChannel (mixShare (Scalar.unit weight) (c.alpha - d.alpha)) c.r d.r,
        mixChannel (mixShare (Scalar.unit weight) (c.alpha - d.alpha)) c.g d.g,
        mixChannel (mixShare (Scalar.unit weight) (c.alpha - d.alpha)) c.b d.b,
        Scalar.unit (c.alpha * Scalar.unit weight + d.alpha * (1 - Scalar.unit weight))⟩ :=
  rfl

theorem mix_self (hc : 0 ≤ c.alpha ∧ c.alpha ≤ 1) (weight : ℚ) : c.mix c weight = c := by
  rw [mix_eq, mixChannel_self, mixChannel_self, mixChannel_self, ← mul_add, add_sub_cancel, mul_one,
    Scalar.unit_of_mem hc]

/-- The order of two colours does not matter, if the weight is turned round with them. -/
theorem mix_reflect (c d : ColorOver ℚ) (weight : ℚ) : d.mix c (1 - weight) = c.mix d weight := by
  rw [mix_eq, mix_eq, Scalar.unit_one_sub, ← neg_sub c.alpha d.alpha, mixShare_neg,
    mixChannel_reflect, mixChannel_reflect, mixChannel_reflect, sub_sub_cancel, add_comm]

/-- The alpha of a mixture is the mean of the alphas, exactly. -/
theorem alpha_mix (hc : 0 ≤ c.alpha ∧ c.alpha ≤ 1) (hd : 0 ≤ d.alpha ∧ d.alpha ≤ 1) (weight : ℚ) :
    (c.mix d weight).alpha =
      c.alpha * Scalar.unit weight + d.alpha * (1 - Scalar.unit weight) := by
  obtain ⟨hlower, hupper⟩ := mean_mem_uIcc (Scalar.unit_mem weight) c.alpha d.alpha
  rw [mix_eq]
  exact Scalar.unit_of_mem ⟨(le_min hc.1 hd.1).trans hlower, hupper.trans (max_le hc.2 hd.2)⟩

/-- **A mixture is a weighted mean.**  For colours with an alpha in the unit interval and any
weight, the tilt divides by a positive number if it divides at all, and the share, which the tilt
moves to either side of one half, is a fraction.
Every channel of the mixture is the mean of the two channels with that share, rounded, and lies
between them; so does its alpha, which is the mean with the weight itself.  A colour mixed with
itself stays as it is, and two colours may change places with the weight turned round. -/
theorem mix_isMean (c d : ColorOver ℚ) (hc : 0 ≤ c.alpha ∧ c.alpha ≤ 1)
    (hd : 0 ≤ d.alpha ∧ d.alpha ≤ 1) (weight : ℚ) :
    let p := Scalar.unit weight
    let a := c.alpha - d.alpha
    let w := mixShare p a
    let mixture := c.mix d weight
    ((2 * p - 1) * a = -1 ∧ mixTilt p a = 2 * p - 1 ∨
      0 < 1 + (2 * p - 1) * a ∧ mixTilt p a = (2 * p - 1 + a) / (1 + (2 * p - 1) * a)) ∧
    (w = (mixTilt p a + 1) / 2 ∧ 0 ≤ w ∧ w ≤ 1) ∧
    (IsMean w c.r d.r mixture.r ∧ IsMean w c.g d.g mixture.g ∧ IsMean w c.b d.b mixture.b) ∧
    (mixture.alpha = c.alpha * p + d.alpha * (1 - p) ∧
      mixture.alpha ∈ Set.uIcc c.alpha d.alpha) ∧
    c.mix c weight = c ∧
    mixture = d.mix c (1 - weight) := by
  intro p a w mixture
  have hp : 0 ≤ p ∧ p ≤ 1 := Scalar.unit_mem weight
  have ha : -1 ≤ a ∧ a ≤ 1 := ⟨by linarith [hc.1, hd.2], by linarith [hc.2, hd.1]⟩
  have hw : 0 ≤ w ∧ w ≤ 1 := mixShare_mem hp ha
  have halpha : mixture.alpha = c.alpha * p + d.alpha * (1 - p) := alpha_mix hc hd weight
  refine ⟨?_, ⟨mixShare_eq p a, hw⟩, ⟨mixChannel_isMean hw c.r d.r, mixChannel_isMean hw c.g d.g,
    mixChannel_isMean hw c.b d.b⟩, ⟨halpha, ?_⟩, mix_self hc weight, (mix_reflect c d weight).symm⟩
  · by_cases h : (2 * p - 1) * a = -1
    · exact .inl ⟨h, by rw [mixTilt_eq, if_pos h]⟩
    · exact .inr ⟨mixDivisor_pos hp ha h, by rw [mixTilt_eq, if_neg h]⟩
  · rw [halpha]
    exact mean_mem_uIcc hp c.alpha d.alpha

/-- Red and a half clear blue, with a weight of three quarters on the red: its alpha raises its
share to nine tenths, in either order. -/
theorem mix_isMean_scarlet :
    mixShare (3 / 4) (1 - 1 / 2 : ℚ) = 9 / 10 ∧
    mix ⟨255, 0, 0, 1⟩ ⟨0, 0, 255, 1 / 2⟩ (3 / 4 : ℚ) = ⟨230, 0, 26, 7 / 8⟩ ∧
    (IsMean (9 / 10) 255 0 230 ∧ IsMean (9 / 10) 0 255 26) ∧
    mix ⟨0, 0, 255, 1 / 2⟩ ⟨255, 0, 0, 1⟩ (1 / 4 : ℚ) = ⟨230, 0, 26, 7 / 8⟩ := by
  have hmix : mix ⟨255, 0, 0, 1⟩ ⟨0, 0, 255, 1 / 2⟩ (3 / 4 : ℚ) = ⟨230, 0, 26, 7 / 8⟩ := by
    decide +kernel
  have hweight : Scalar.unit (3 / 4 : ℚ) = 3 / 4 := Scalar.unit_of_mem (by norm_num)
  have hmean := mix_isMean ⟨255, 0, 0, 1⟩ ⟨0, 0, 255, 1 / 2⟩ (by norm_num) (by norm_num) (3 / 4)
  simp only [hmix, hweight] at hmean
  obtain ⟨htilt, ⟨hshare, -⟩, ⟨hred, -, hblue⟩, -, -, hreflect⟩ := hmean
  have hnine : mixShare (3 / 4) (1 - 1 / 2 : ℚ) = 9 / 10 := by
    rcases htilt with ⟨hvanish, -⟩ | ⟨-, htilt⟩
    · norm_num at hvanish
    · rw [hshare, htilt]
      norm_num
  rw [hnine] at hred hblue
  have hother : (1 - 3 / 4 : ℚ) = 1 / 4 := by norm_num
  rw [hother] at hreflect
  exact ⟨hnine, hmix, ⟨hred, hblue⟩, hreflect.symm⟩

end ColorOver

end Scss
