import Mathlib
import Scss.Proofs.BinaryRounding

/-!
# The size of doubles

A finite double has a magnitude, and the magnitude of a product or a quotient is the exact one,
rounded.  A result is infinite only if the exact magnitude is beyond the greatest double, so a
computation stays finite as long as its exact magnitudes stay in range.

## Main definitions

* `Number.HasSize`: a finite double and its magnitude
* `Number.RoundsTo`: the double to which a magnitude is rounded

## Main results

* `Number.roundsTo_mul`, `Number.roundsTo_div`: products and quotients are exact ones, rounded
* `Number.hasSize_neg`, `Number.hasSize_ofNat`: negation and natural numbers are exact
* `Number.isInfinite_div`: an infinity divided by a finite double
-/

namespace Scss

open Float.Model Float.Model.UnpackedFloat

/-! ## Exact results before rounding

A product or a quotient is given by a mantissa with enough bits: its exponent is not above the one
at which it is rounded. -/

section Exact

variable {m m' : ℕ}

theorem brackets_exact (m : ℕ) : Brackets (.ofMantissaAndAccuracy m .exact) m :=
  ⟨le_refl (m : ℚ), lt_add_one (m : ℚ), ⟨fun _ => ⟨rfl, rfl⟩, fun _ => rfl⟩⟩

theorem Canonical.add_le_roundingExponent {q q' : ℤ} (h : Canonical m q) (h' : Canonical m' q')
    (hm : 0 < m) (hm' : 0 < m') : q + q' ≤ roundingExponent (m * m') (q + q') := by
  have hlog : 2 ^ 52 ≤ m * m' → 52 ≤ (m * m').log2 := (Nat.le_log2 (Nat.mul_pos hm hm').ne').2
  unfold roundingExponent
  rcases h.normal with hnormal | hq
  · have hbits := hlog (hnormal.trans (Nat.le_mul_of_pos_right m hm'))
    omega
  · rcases h'.normal with hnormal | hq'
    · have hbits := hlog (hnormal.trans (Nat.le_mul_of_pos_left m' hm))
      omega
    · omega

theorem brackets_div (n : ℕ) {d : ℕ} (hd : 0 < d) :
    Brackets (.ofMantissaAndAccuracy (n / d) (accuracyOfFraction (n % d) d)) (n / d) := by
  have hd' : (0 : ℚ) < d := by exact_mod_cast hd
  have hdiv : (n : ℚ) = (n / d : ℕ) * d + (n % d : ℕ) := by
    exact_mod_cast (Nat.div_add_mod' n d).symm
  have hmod : ((n % d : ℕ) : ℚ) < d := by exact_mod_cast Nat.mod_lt n hd
  have hmod' : (0 : ℚ) ≤ (n % d : ℕ) := Nat.cast_nonneg _
  -- Both bits are clear if and only if there is no remainder.
  have hbits : (ExtendedMantissa.ofMantissaAndAccuracy (n / d)
        (accuracyOfFraction (n % d) d)).roundBit = false ∧
      (ExtendedMantissa.ofMantissaAndAccuracy (n / d)
        (accuracyOfFraction (n % d) d)).stickyBit = false ↔ n % d = 0 := by
    unfold accuracyOfFraction
    split_ifs with hzero
    · simp [ExtendedMantissa.ofMantissaAndAccuracy, hzero]
    · cases compare (2 * (n % d)) d <;> simp [ExtendedMantissa.ofMantissaAndAccuracy, hzero]
  constructor
  · rw [mantissa_ofMantissaAndAccuracy, le_div_iff₀ hd']
    linarith
  · rw [mantissa_ofMantissaAndAccuracy, div_lt_iff₀ hd']
    linarith
  · rw [mantissa_ofMantissaAndAccuracy, hbits, div_eq_iff hd'.ne']
    constructor
    · intro h
      have hzero : ((n % d : ℕ) : ℚ) = 0 := by linarith
      exact_mod_cast hzero
    · intro h
      rw [h, Nat.cast_zero] at hdiv
      linarith

/-- The exponent at which the quotient of two mantissas is taken. -/
def quotientExponent (m : ℕ) (q : ℤ) (m' : ℕ) (q' : ℤ) : ℤ :=
  min (q - q') (max (m.log2 + q - (m'.log2 + q') - 53) (-1074))

/-- The first mantissa, shifted so that the quotient by the second one has enough bits. -/
def dividend (m : ℕ) (q : ℤ) (m' : ℕ) (q' : ℤ) : ℕ :=
  m * 2 ^ (q - q' - quotientExponent m q m' q').toNat

theorem div_finite (s s' : Sign) (q q' : ℤ) (hm : 0 < m) (hm' : 0 < m') :
    UnpackedFloat.div .binary64 (.finite s m q hm) (.finite s' m' q' hm') =
      roundWithAccuracy .binary64 (s / s') (dividend m q m' q' / m') (quotientExponent m q m' q')
        (accuracyOfFraction (dividend m q m' q' % m') m') := by
  have ht : min (q - q')
      (Format.binary64.targetExponent (totalExponent m q - totalExponent m' q')) =
        quotientExponent m q m' q' := by
    show min (q - q') (max ((m.log2 : ℤ) + 1 + q - (m'.log2 + 1 + q') - 53) (-1074)) = _
    unfold quotientExponent
    congr 2
    ring
  rw [dividend, ← ht, ← Nat.shiftLeft_eq]
  rfl

theorem dividend_eq (q q' : ℤ) (hm' : 0 < m') :
    (m : ℚ) * 2 ^ q / (m' * 2 ^ q') / 2 ^ quotientExponent m q m' q' =
      (dividend m q m' q' : ℕ) / m' := by
  have hle : quotientExponent m q m' q' ≤ q - q' := min_le_left _ _
  unfold dividend
  generalize quotientExponent m q m' q' = t at hle
  have hq : (2 : ℚ) ^ q = (2 ^ (q - q' - t).toNat : ℕ) * 2 ^ (q' + t) := by
    rw [← two_zpow_add, Int.toNat_of_nonneg (by omega)]
    congr 1
    ring
  have hne : (m' : ℚ) ≠ 0 := by exact_mod_cast hm'.ne'
  rw [hq, zpow_add₀ two_ne_zero, Nat.cast_mul]
  field_simp

theorem quotientExponent_le_roundingExponent (q q' : ℤ) (hm : 0 < m) (hm' : 0 < m') :
    quotientExponent m q m' q' ≤
      roundingExponent (dividend m q m' q' / m') (quotientExponent m q m' q') := by
  have ht := quotientExponent.eq_def m q m' q'
  unfold dividend roundingExponent
  generalize quotientExponent m q m' q' = t at ht
  rcases le_or_gt t (-1074) with hleast | hnormal
  · exact le_max_of_le_right hleast
  · -- The dividend is shifted far enough for a quotient with 53 bits.
    have hbits : 2 ^ 52 ≤ m * 2 ^ (q - q' - t).toNat / m' := by
      rw [Nat.le_div_iff_mul_le hm']
      calc 2 ^ 52 * m' ≤ 2 ^ 52 * 2 ^ (m'.log2 + 1) := by gcongr; exact Nat.lt_log2_self.le
        _ = 2 ^ (52 + (m'.log2 + 1)) := (pow_add _ _ _).symm
        _ ≤ 2 ^ (m.log2 + (q - q' - t).toNat) := Nat.pow_le_pow_right (by decide) (by omega)
        _ = 2 ^ m.log2 * 2 ^ (q - q' - t).toNat := pow_add _ _ _
        _ ≤ m * 2 ^ (q - q' - t).toNat := by gcongr; exact Nat.log2_self_le hm.ne'
    have hpos : 0 < m * 2 ^ (q - q' - t).toNat / m' := (Nat.two_pow_pos 52).trans_le hbits
    have hlog := (Nat.le_log2 hpos.ne').2 hbits
    omega

end Exact

/-! ## Magnitudes -/

namespace Number

variable {x y : Float} {v w : ℚ} {m : ℕ} {q e : ℤ}

/-- The double is finite, and `v` is its magnitude. -/
def HasSize (x : Float) (v : ℚ) : Prop :=
  ∃ negative m q, Exact.ofDouble x = .finite negative m q ∧ v = m * 2 ^ q

/-- The double is one of the two infinities. -/
def IsInfinite (x : Float) : Prop :=
  ∃ negative, Exact.ofDouble x = .infinite negative

/-- The magnitude of the greatest finite double. -/
def greatest : ℚ :=
  (2 ^ 53 - 1 : ℕ) * 2 ^ (971 : ℤ)

/-- Rounding the magnitude `w` gives the double `x`: no other one is passed on the way, and only a
magnitude beyond all finite doubles becomes infinite. -/
def RoundsTo (w : ℚ) (x : Float) : Prop :=
  (∃ u, HasSize x u ∧ Adjacent w u) ∨ IsInfinite x ∧ greatest < w

theorem isFinite_iff : x.isFinite = true ↔ ∃ v, HasSize x v := by
  have hexact := Exact.ofDouble_eq_ofUnpacked x
  show x.toModel.unpack.isFinite = true ↔ _
  unfold HasSize
  cases hx : x.toModel.unpack with
  | notANumber | infinity | zero | finite =>
    simp [UnpackedFloat.isFinite, hexact, hx, Exact.ofUnpacked]

theorem isBinary_greatest : IsBinary greatest :=
  ⟨2 ^ 53 - 1, 971, by decide, by decide, rfl⟩

theorem natCast_le_greatest {n : ℕ} (hn : n < 2 ^ 53) : (n : ℚ) ≤ greatest := by
  have hn' : (n : ℚ) ≤ (2 ^ 53 - 1 : ℕ) := by exact_mod_cast Nat.le_sub_one_of_lt hn
  have hpower : (1 : ℚ) ≤ 2 ^ (971 : ℤ) := one_le_zpow₀ one_le_two (by decide)
  exact hn'.trans (le_mul_of_one_le_right (Nat.cast_nonneg _) hpower)

namespace HasSize

theorem nonneg (h : HasSize x v) : 0 ≤ v := by
  obtain ⟨-, m, q, -, rfl⟩ := h
  positivity

theorem le_greatest (h : HasSize x v) : v ≤ greatest := by
  obtain ⟨_, m, q, h, rfl⟩ := h
  obtain ⟨hshape, hq⟩ := Exact.canonical_of_ofDouble h
  have hm : (m : ℚ) ≤ (2 ^ 53 - 1 : ℕ) := by exact_mod_cast Nat.le_sub_one_of_lt hshape.lt
  have hpower : (2 : ℚ) ^ q ≤ 2 ^ (971 : ℤ) := zpow_le_zpow_right₀ one_le_two hq
  exact mul_le_mul hm hpower (by positivity) (by positivity)

theorem roundsTo (h : HasSize x v) : RoundsTo v x :=
  .inl ⟨v, h, fun _ _ => ⟨id, id⟩⟩

theorem unpack (h : HasSize x v) :
    (∃ s, x.toModel.unpack = .zero s ∧ v = 0) ∨
    ∃ s m q hm, x.toModel.unpack = .finite s m q hm ∧ Canonical m q ∧ q ≤ 971 ∧
      v = m * 2 ^ q := by
  obtain ⟨negative, m, q, h, rfl⟩ := h
  obtain ⟨hshape, hq⟩ := Exact.canonical_of_ofDouble h
  rw [Exact.ofDouble_eq_ofUnpacked] at h
  cases hx : x.toModel.unpack with
  | notANumber | infinity => rw [hx] at h; cases h
  | zero s =>
    rw [hx] at h
    obtain ⟨-, rfl, rfl⟩ := Exact.finite.inj h
    exact .inl ⟨s, rfl, by simp⟩
  | finite s m' q' hm =>
    rw [hx] at h
    obtain ⟨-, rfl, rfl⟩ := Exact.finite.inj h
    exact .inr ⟨s, m', q', hm, rfl, hshape, hq, rfl⟩

end HasSize

namespace IsInfinite

theorem not_hasSize (hx : IsInfinite x) : ¬HasSize x v := by
  obtain ⟨negative, hx⟩ := hx
  rintro ⟨_, _, _, h, -⟩
  rw [hx] at h
  cases h

theorem unpack (hx : IsInfinite x) : ∃ s, x.toModel.unpack = .infinity s := by
  obtain ⟨negative, hx⟩ := hx
  rw [Exact.ofDouble_eq_ofUnpacked] at hx
  cases hunpack : x.toModel.unpack with
  | infinity s => exact ⟨s, rfl⟩
  | _ => rw [hunpack] at hx; cases hx

end IsInfinite

namespace RoundsTo

theorem exists_hasSize (h : RoundsTo w x) (hw : w ≤ greatest) :
    ∃ u, HasSize x u ∧ Adjacent w u :=
  h.resolve_right fun hinfinite => not_lt.2 hw hinfinite.2

/-- A magnitude with 53 bits is not rounded. -/
theorem hasSize (h : RoundsTo w x) (hbinary : IsBinary w) (hw : w ≤ greatest) : HasSize x w := by
  obtain ⟨u, hu, hadjacent⟩ := h.exists_hasSize hw
  obtain ⟨hup, hdown⟩ := hadjacent w hbinary
  rwa [le_antisymm (hdown le_rfl) (hup le_rfl)]

end RoundsTo

/-! ## Packed results -/

theorem hasSize_pack_zero (s : Sign) : HasSize (.ofModel (.pack (.zero s))) 0 :=
  ⟨_, _, _, Exact.ofDouble_pack_zero s, by simp⟩

theorem hasSize_pack_finite (s : Sign) (hm : 0 < m) (hshape : Canonical m q) (hq : q ≤ 971) :
    HasSize (.ofModel (.pack (.finite s m q hm))) (m * 2 ^ q) :=
  ⟨_, _, _, Exact.ofDouble_pack_finite s hm hshape hq, rfl⟩

theorem greatest_lt_of_overflow (hshape : Canonical m q) (hq : 971 < q) :
    greatest < m * 2 ^ q := by
  have htwo : (0 : ℚ) < 2 ^ (971 : ℤ) := by positivity
  have hm : 2 ^ 52 ≤ m := hshape.normal.resolve_right (by omega)
  calc greatest < (2 ^ 53 : ℕ) * 2 ^ (971 : ℤ) :=
        mul_lt_mul_of_pos_right (by exact_mod_cast (by decide : 2 ^ 53 - 1 < 2 ^ 53)) htwo
    _ = 2 ^ (971 + (53 : ℕ) : ℤ) := (two_zpow_add 971 53).symm
    _ ≤ 2 ^ (q + (52 : ℕ)) := zpow_le_zpow_right₀ one_le_two (by omega)
    _ = (2 ^ 52 : ℕ) * 2 ^ q := two_zpow_add q 52
    _ ≤ m * 2 ^ q := by gcongr

theorem roundsTo_pack {accuracy : Accuracy} (s : Sign)
    (h : Brackets (.ofMantissaAndAccuracy m accuracy) (w / 2 ^ e))
    (he : e ≤ roundingExponent m e) :
    RoundsTo w (.ofModel (.pack (roundWithAccuracy .binary64 s m e accuracy))) := by
  rcases roundWithAccuracy_spec s h he with
    ⟨hzero, hadjacent⟩ | ⟨m', q, hm, hround, hshape, hadjacent⟩
  · rw [hzero]
    exact .inl ⟨0, hasSize_pack_zero s, hadjacent⟩
  · rw [hround]
    rcases le_or_gt q 971 with hq | hq
    · exact .inl ⟨_, hasSize_pack_finite s hm hshape hq, hadjacent⟩
    · -- Rounding has not passed the greatest double, so `w` is beyond it too.
      refine .inr ⟨⟨_, Exact.ofDouble_pack_overflow s hm hq⟩, ?_⟩
      by_contra hw
      have hle := (hadjacent greatest isBinary_greatest).1 (not_lt.1 hw)
      exact absurd (greatest_lt_of_overflow hshape hq) (not_lt.2 hle)

theorem roundsTo_pack_round (s : Sign) (e : ℤ) (hm : 0 < m) :
    RoundsTo (m * 2 ^ e) (.ofModel (.pack (.round .binary64 s m e))) := by
  show RoundsTo _ (.ofModel (.pack (roundWithAccuracy .binary64 s
    (m <<< (e - Format.binary64.targetExponent (totalExponent m e)).toNat)
    (e - (e - Format.binary64.targetExponent (totalExponent m e)).toNat) .exact)))
  -- A short mantissa is lengthened by zeros first, with the same value at a lower exponent.
  rw [targetExponent_eq, Nat.shiftLeft_eq]
  generalize hk : (e - roundingExponent m e).toNat = k
  have hvalue : (m : ℚ) * 2 ^ e / 2 ^ (e - k) = (m * 2 ^ k : ℕ) := by
    rw [div_eq_iff (by positivity), Nat.cast_mul, mul_assoc, ← two_zpow_add, sub_add_cancel]
  have hlog : m.log2 + k ≤ (m * 2 ^ k).log2 := by
    rw [Nat.le_log2 (by positivity), pow_add]
    gcongr
    exact Nat.log2_self_le hm.ne'
  refine roundsTo_pack s ?_ ?_
  · rw [hvalue]
    exact brackets_exact _
  · unfold roundingExponent at hk ⊢
    omega

/-! ## Operations -/

theorem roundsTo_mul (hx : HasSize x v) (hy : HasSize y w) : RoundsTo (v * w) (x * y) := by
  show RoundsTo (v * w) (.ofModel (.pack (.mul .binary64 x.toModel.unpack y.toModel.unpack)))
  rcases hx.unpack with ⟨s, hux, rfl⟩ | ⟨s, m, q, hm, hux, hshape, -, rfl⟩
  · rw [zero_mul, hux]
    rcases hy.unpack with ⟨s', huy, -⟩ | ⟨s', m', q', hm', huy, -⟩
    · rw [huy]
      exact (hasSize_pack_zero (s * s')).roundsTo
    · rw [huy]
      exact (hasSize_pack_zero (s * s')).roundsTo
  · rw [hux]
    rcases hy.unpack with ⟨s', huy, rfl⟩ | ⟨s', m', q', hm', huy, hshape', -, rfl⟩
    · rw [huy, mul_zero]
      exact (hasSize_pack_zero (s * s')).roundsTo
    · -- Only here is something rounded; with a zero the result is exact.
      have hvalue : (m : ℚ) * 2 ^ q * (m' * 2 ^ q') / 2 ^ (q + q') = (m * m' : ℕ) := by
        rw [div_eq_iff (by positivity), zpow_add₀ two_ne_zero, Nat.cast_mul]
        ring
      rw [huy]
      refine roundsTo_pack (s * s') ?_ (hshape.add_le_roundingExponent hshape' hm hm')
      rw [hvalue]
      exact brackets_exact (m * m')

theorem roundsTo_div (hx : HasSize x v) (hy : HasSize y w) (hw : w ≠ 0) :
    RoundsTo (v / w) (x / y) := by
  show RoundsTo (v / w) (.ofModel (.pack (.div .binary64 x.toModel.unpack y.toModel.unpack)))
  rcases hy.unpack with ⟨s', huy, rfl⟩ | ⟨s', m', q', hm', huy, -, -, rfl⟩
  · exact absurd rfl hw
  · rcases hx.unpack with ⟨s, hux, rfl⟩ | ⟨s, m, q, hm, hux, -, -, rfl⟩
    · rw [hux, huy, zero_div]
      exact (hasSize_pack_zero (s / s')).roundsTo
    · rw [hux, huy, div_finite]
      refine roundsTo_pack (s / s') ?_ (quotientExponent_le_roundingExponent q q' hm hm')
      rw [dividend_eq q q' hm']
      exact brackets_div _ hm'

theorem isInfinite_div (hx : IsInfinite x) (hy : HasSize y w) : IsInfinite (x / y) := by
  show IsInfinite (.ofModel (.pack (.div .binary64 x.toModel.unpack y.toModel.unpack)))
  obtain ⟨s, hux⟩ := hx.unpack
  rw [hux]
  rcases hy.unpack with ⟨s', huy, -⟩ | ⟨s', m, q, hm, huy, -⟩
  · rw [huy]
    exact ⟨_, Exact.ofDouble_pack_infinity (s / s')⟩
  · rw [huy]
    exact ⟨_, Exact.ofDouble_pack_infinity (s / s')⟩

theorem hasSize_neg (hx : HasSize x v) : HasSize (-x) v := by
  show HasSize (.ofModel (.pack x.toModel.unpack.neg)) v
  rcases hx.unpack with ⟨s, hux, rfl⟩ | ⟨s, m, q, hm, hux, hshape, hq, rfl⟩
  · rw [hux]
    exact hasSize_pack_zero (-s)
  · rw [hux]
    exact hasSize_pack_finite (-s) hm hshape hq

theorem isFinite_neg (hx : x.isFinite = true) : (-x).isFinite = true := by
  obtain ⟨v, hv⟩ := isFinite_iff.1 hx
  exact isFinite_iff.2 ⟨v, hasSize_neg hv⟩

section Naturals

variable {n : ℕ} (hn : n < 2 ^ 53)

include hn

theorem isBinary_natCast : IsBinary n :=
  ⟨n, 0, hn, by decide, by simp⟩

theorem hasSize_toFloat : HasSize n.toUInt64.toFloat n := by
  show HasSize (.ofModel (.pack (.normalize .binary64 n.toUInt64.toNat 0 .positive))) n
  have hword : n.toUInt64.toNat = n := by
    rw [Nat.toUInt64, UInt64.toNat_ofNat']
    omega
  rw [hword]
  rcases Nat.eq_zero_or_pos n with rfl | hpos
  · exact_mod_cast hasSize_pack_zero .positive
  · have hsign : compare (n : ℤ) 0 = .gt := Int.compare_eq_gt.2 (by exact_mod_cast hpos)
    have hround := roundsTo_pack_round .positive 0 hpos
    rw [zpow_zero, mul_one] at hround
    rw [UnpackedFloat.normalize, hsign]
    exact hround.hasSize (isBinary_natCast hn) (natCast_le_greatest hn)

/-- A natural number is read as a word and multiplied by one. -/
theorem hasSize_ofNat : HasSize (.ofNat n) n := by
  have hone : HasSize (.ofBits 0x3FF0000000000000) 1 :=
    ⟨false, 2 ^ 52, -52, by decide, by norm_num⟩
  have hread : Float.ofNat n = n.toUInt64.toFloat * .ofBits 0x3FF0000000000000 := by
    show Float.ofScientific n false 0 = _
    unfold Float.ofScientific
    rw [dif_pos ⟨hn, by decide⟩]
    rfl
  have hmul := roundsTo_mul (hasSize_toFloat hn) hone
  rw [mul_one] at hmul
  rw [hread]
  exact hmul.hasSize (isBinary_natCast hn) (natCast_le_greatest hn)

end Naturals

end Number

end Scss
