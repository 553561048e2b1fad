import Mathlib
import Scss.Number.Exact

/-!
# Rounding to 53 bits

The arithmetic of doubles rounds an exact result to 53 bits and packs it into a word.  Here a result
is a rational magnitude `w`, given by a mantissa at some exponent and by what is left of it, and the
rounded result is the mantissa and the exponent that are packed.  What is known about it is that
rounding does not pass any number with 53 bits: such a number below `w` is not above the result, and
one above `w` is not below it.  No other property of rounding is needed, in particular not which
neighbour is chosen.

## Main definitions

* `Exact.ofUnpacked`: the exact value of an unpacked double
* `Canonical`: the mantissas and exponents of doubles
* `Brackets`: a mantissa and its two extra bits stand for a rational number
* `Adjacent`: no number with 53 bits is passed on the way from one number to the other

## Main results

* `Exact.ofDouble_eq_ofUnpacked`: the two ways to read a word agree
* `Exact.ofDouble_pack_finite`, `Exact.ofDouble_pack_overflow`: what a packed number is read as
* `roundWithAccuracy_spec`: rounding gives a number in the shape of a double, next to the exact one
-/

namespace Scss

open Float.Model Float.Model.UnpackedFloat

/-! ## Bits -/

theorem toNat_packComponents (s : Sign) (e : BitVec 11) (m : BitVec 52) :
    (packComponents .binary64 s e m).toNat =
      s.toBitVec.toNat * 2 ^ 63 + e.toNat * 2 ^ 52 + m.toNat := by
  unfold packComponents
  rw [BitVec.toNat_append, BitVec.toNat_append, ← Nat.shiftLeft_add_eq_or_of_lt m.isLt,
    ← Nat.shiftLeft_add_eq_or_of_lt e.isLt, Nat.shiftLeft_eq, Nat.shiftLeft_eq]
  ring

theorem toNat_unpackMantissa (b : BitVec 64) :
    (@unpackMantissa .binary64 b).toNat = b.toNat % 2 ^ 52 := by
  simp [unpackMantissa, BitVec.extractLsb]

theorem toNat_unpackExponent (b : BitVec 64) :
    (@unpackExponent .binary64 b).toNat = b.toNat / 2 ^ 52 % 2 ^ 11 := by
  simp [unpackExponent, BitVec.extractLsb, Nat.shiftRight_eq_div_pow]

theorem toNat_unpackSign (b : BitVec 64) :
    (@unpackSign .binary64 b).toNat = b.toNat / 2 ^ 63 % 2 := by
  simp [unpackSign, BitVec.extractLsb, Nat.shiftRight_eq_div_pow]

/-- What the fields of a double stand for. -/
def Exact.ofFields (negative : Bool) (exponent fraction : Nat) : Exact :=
  if exponent + 1 = 2048 then
    if fraction = 0 then .infinite negative else .nan
  else if exponent = 0 then .finite negative fraction (-1074)
  else .finite negative (2 ^ 52 + fraction) (exponent - 1075)

theorem Exact.ofBits_double (word : Nat) :
    ofBits .double word =
      ofFields (word / 2 ^ 63 % 2 == 1) (word / 2 ^ 52 % 2 ^ 11) (word % 2 ^ 52) := by
  rfl

/-- The sign as the exact value has it. -/
def isNegative : Sign → Bool
  | .negative => true
  | .positive => false

/-- The exact value of an unpacked double. -/
def Exact.ofUnpacked : UnpackedFloat → Exact
  | .notANumber => .nan
  | .infinity s => .infinite (isNegative s)
  | .zero s => .finite (isNegative s) 0 (-1074)
  | .finite s m e _ => .finite (isNegative s) m e

theorem isNegative_ofBitVec (b : BitVec 1) : isNegative (.ofBitVec b) = (b.toNat == 1) := by
  revert b; decide

theorem Exact.ofUnpacked_unpack (b : BitVec 64) :
    ofUnpacked (UnpackedFloat.unpack .binary64 b) =
      ofFields (isNegative (.ofBitVec (@unpackSign .binary64 b)))
        (@unpackExponent .binary64 b).toNat (@unpackMantissa .binary64 b).toNat := by
  -- The fields are compared as bit vectors on one side and as numbers on the other.
  have hlast : (@unpackExponent .binary64 b).toNat + 1 = 2048 ↔
      @unpackExponent .binary64 b = -1#_ := by
    rw [BitVec.toNat_eq, show (-1#11).toNat = 2047 from rfl]
    omega
  have hfirst : (@unpackExponent .binary64 b).toNat = 0 ↔ @unpackExponent .binary64 b = 0#_ := by
    rw [BitVec.toNat_eq]
    rfl
  have hfraction : (@unpackMantissa .binary64 b).toNat = 0 ↔ @unpackMantissa .binary64 b = 0#_ := by
    rw [BitVec.toNat_eq]
    rfl
  -- The bit that is not stored comes before the others.
  have hnormal : (1#1 ++ @unpackMantissa .binary64 b).toNat =
      2 ^ 52 + (@unpackMantissa .binary64 b).toNat := by
    rw [BitVec.toNat_append, ← Nat.shiftLeft_add_eq_or_of_lt (@unpackMantissa .binary64 b).isLt]
    rfl
  simp only [UnpackedFloat.unpack, ofFields, hlast, hfirst, hfraction, hnormal]
  split_ifs with h₁ h₂ h₃ h₄
  · rfl
  · rfl
  · rw [h₄]
    rfl
  · rw [h₃]
    rfl
  · rfl

theorem Exact.ofDouble_eq_ofUnpacked (x : Float) :
    ofDouble x = ofUnpacked x.toModel.unpack := by
  rw [Float.Model.unpack, ofUnpacked_unpack, isNegative_ofBitVec, toNat_unpackSign,
    toNat_unpackExponent, toNat_unpackMantissa, ← ofBits_double]
  rfl

theorem Exact.ofBits_packComponents (s : Sign) (e : BitVec 11) (m : BitVec 52) :
    ofBits .double (packComponents .binary64 s e m).toNat =
      ofFields (isNegative s) e.toNat m.toNat := by
  have he := e.isLt
  have hm := m.isLt
  have hs : isNegative s = (s.toBitVec.toNat == 1) := by cases s <;> rfl
  have hs' : s.toBitVec.toNat < 2 := s.toBitVec.isLt
  rw [toNat_packComponents, ofBits_double, hs]
  congr 2 <;> omega

/-! ## Packing -/

/-- The shape of the finite doubles: 53 bits, which are all used above the least exponent. -/
structure Canonical (m : Nat) (q : Int) : Prop where
  lt : m < 2 ^ 53
  least : -1074 ≤ q
  normal : 2 ^ 52 ≤ m ∨ q = -1074

theorem Exact.canonical_of_ofDouble {x : Float} {negative : Bool} {m : Nat} {q : Int}
    (h : ofDouble x = .finite negative m q) : Canonical m q ∧ q ≤ 971 := by
  have hfraction := Nat.mod_lt x.toBits.toNat (Nat.two_pow_pos 52)
  have hexponent := Nat.mod_lt (x.toBits.toNat / 2 ^ 52) (Nat.two_pow_pos 11)
  rw [ofDouble, ofBits_double, ofFields] at h
  split_ifs at h with h₁ h₂ h₃
  · obtain ⟨-, rfl, rfl⟩ := Exact.finite.inj h
    exact ⟨⟨by omega, le_refl _, .inr rfl⟩, by omega⟩
  · obtain ⟨-, rfl, rfl⟩ := Exact.finite.inj h
    exact ⟨⟨by omega, by omega, .inl (by omega)⟩, by omega⟩

theorem Exact.ofDouble_pack (u : UnpackedFloat) :
    ofDouble (.ofModel (.pack u)) = ofBits .double (UnpackedFloat.pack .binary64 u).toNat :=
  rfl

theorem pack_finite (s : Sign) (m : Nat) (q : Int) (hm : 0 < m) :
    UnpackedFloat.pack .binary64 (.finite s m q hm) =
      if 2 ^ 11 ≤ (q + 1023 + 52).toNat + 1 then packComponents .binary64 s (-1#11) 0#52
      else if m.log2 + 1 = 53 then
        packComponents .binary64 s (.ofNat 11 (q + 1023 + 52).toNat) (.ofNat 52 m)
      else packComponents .binary64 s 0#11 (.ofNat 52 m) :=
  rfl

/-- A number of the right shape is packed as it is, if its exponent is not too large. -/
theorem Exact.ofDouble_pack_finite {m : Nat} {q : Int} (s : Sign) (hm : 0 < m)
    (hshape : Canonical m q) (hq : q ≤ 971) :
    ofDouble (.ofModel (.pack (.finite s m q hm))) = .finite (isNegative s) m q := by
  obtain ⟨hlt, hleast, hnormal⟩ := hshape
  have hfits : ¬2 ^ 11 ≤ (q + 1023 + 52).toNat + 1 := by omega
  -- Normal numbers are told from the others by the length of the mantissa.
  have hlog : m.log2 + 1 = 53 ↔ 2 ^ 52 ≤ m := by
    have h52 := Nat.le_log2 (k := 52) hm.ne'
    have h53 := Nat.log2_lt (k := 53) hm.ne'
    omega
  rw [ofDouble_pack, pack_finite, if_neg hfits]
  by_cases hm' : 2 ^ 52 ≤ m
  · rw [if_pos (hlog.2 hm'), ofBits_packComponents, BitVec.toNat_ofNat, BitVec.toNat_ofNat,
      ofFields, if_neg (by omega), if_neg (by omega)]
    congr 1 <;> omega
  · rw [if_neg (mt hlog.1 hm'), ofBits_packComponents, hnormal.resolve_left hm']
    show Exact.finite (isNegative s) (m % 2 ^ 52) (-1074) = _
    rw [Nat.mod_eq_of_lt (by omega)]

theorem Exact.ofDouble_pack_overflow {m : Nat} {q : Int} (s : Sign) (hm : 0 < m) (hq : 972 ≤ q) :
    ofDouble (.ofModel (.pack (.finite s m q hm))) = .infinite (isNegative s) := by
  rw [ofDouble_pack, pack_finite, if_pos (by omega), ofBits_packComponents]
  rfl

theorem Exact.ofDouble_pack_zero (s : Sign) :
    ofDouble (.ofModel (.pack (.zero s))) = .finite (isNegative s) 0 (-1074) := by
  cases s <;> rfl

theorem Exact.ofDouble_pack_infinity (s : Sign) :
    ofDouble (.ofModel (.pack (.infinity s))) = .infinite (isNegative s) := by
  cases s <;> rfl

/-! ## Rounding -/

/-- The mantissa is the whole part of `v`, and its bits say whether there is more. -/
structure Brackets (em : ExtendedMantissa) (v : ℚ) : Prop where
  le : em.mantissa ≤ v
  lt : v < em.mantissa + 1
  exact_iff : v = em.mantissa ↔ em.roundBit = false ∧ em.stickyBit = false

namespace Brackets

variable {em : ExtendedMantissa} {v : ℚ}

theorem shiftRightOne (h : Brackets em v) : Brackets em.shiftRightOne (v / 2) := by
  obtain ⟨hle, hlt, hexact⟩ := h
  -- The last bit of the mantissa becomes the round bit, and what was behind it becomes sticky.
  have hdiv : ((em.mantissa / 2 : ℕ) : ℚ) * 2 + ((em.mantissa % 2 : ℕ) : ℚ) = em.mantissa := by
    exact_mod_cast Nat.div_add_mod' em.mantissa 2
  have hmod : ((em.mantissa % 2 : ℕ) : ℚ) ≤ 1 := by
    exact_mod_cast Nat.le_of_lt_succ (Nat.mod_lt em.mantissa (by decide))
  have hmod' : (0 : ℚ) ≤ ((em.mantissa % 2 : ℕ) : ℚ) := Nat.cast_nonneg _
  refine ⟨?_, ?_, ?_⟩
  · show ((em.mantissa / 2 : ℕ) : ℚ) ≤ v / 2
    linarith
  · show v / 2 < ((em.mantissa / 2 : ℕ) : ℚ) + 1
    linarith
  · show v / 2 = ((em.mantissa / 2 : ℕ) : ℚ) ↔
      (em.mantissa % 2 != 0) = false ∧ (em.roundBit || em.stickyBit) = false
    rw [Bool.or_eq_false_iff, ← hexact, bne_eq_false_iff_eq]
    constructor
    · intro hv
      have heven : ((em.mantissa % 2 : ℕ) : ℚ) = 0 := by linarith
      exact ⟨by exact_mod_cast heven, by linarith⟩
    · rintro ⟨heven, hv⟩
      rw [heven, Nat.cast_zero] at hdiv
      linarith

theorem shiftRight (h : Brackets em v) (n : ℕ) : Brackets (em >>> n) (v / 2 ^ n) := by
  show Brackets (n.repeat ExtendedMantissa.shiftRightOne em) _
  induction n with
  | zero => simpa [Nat.repeat] using h
  | succ n ih =>
    rw [Nat.repeat, pow_succ, div_mul_eq_div_div]
    exact ih.shiftRightOne

theorem roundedMantissa_cases (em : ExtendedMantissa) :
    em.mantissa ≤ em.roundedMantissa ∧ em.roundedMantissa ≤ em.mantissa + 1 ∧
      (em.roundBit = false ∧ em.stickyBit = false → em.roundedMantissa = em.mantissa) := by
  obtain ⟨m, roundBit, stickyBit⟩ := em
  cases roundBit <;> cases stickyBit <;>
    simp [ExtendedMantissa.roundedMantissa, ExtendedMantissa.accuracy,
      Accuracy.roundToNearestEven]
  omega

/-- Rounding does not pass a whole number from below. -/
theorem roundedMantissa_le (h : Brackets em v) {n : ℕ} (hn : v ≤ n) : em.roundedMantissa ≤ n := by
  obtain ⟨-, hup, hstays⟩ := roundedMantissa_cases em
  -- Rounding up needs a rest, and then there is room for one more below `n`.
  by_cases hv : v = em.mantissa
  · rw [hstays (h.exact_iff.1 hv)]
    exact_mod_cast h.le.trans hn
  · have hlt : (em.mantissa : ℚ) < n := (lt_of_le_of_ne h.le (Ne.symm hv)).trans_le hn
    exact hup.trans (by exact_mod_cast hlt)

/-- Rounding does not pass a whole number from above. -/
theorem le_roundedMantissa (h : Brackets em v) {n : ℕ} (hn : n ≤ v) : n ≤ em.roundedMantissa := by
  have hlt : (n : ℚ) < em.mantissa + 1 := hn.trans_lt h.lt
  have hle : n ≤ em.mantissa := Nat.le_of_lt_succ (by exact_mod_cast hlt)
  exact hle.trans (roundedMantissa_cases em).1

end Brackets

/-- The exponent at which the mantissa `m` at the exponent `e` is rounded to 53 bits. -/
def roundingExponent (m : ℕ) (e : ℤ) : ℤ :=
  max (m.log2 + e - 52) (-1074)

theorem targetExponent_eq (m : ℕ) (e : ℤ) :
    Format.binary64.targetExponent (totalExponent m e) = roundingExponent m e := by
  show max ((m.log2 : ℤ) + 1 + e - 53) (-1074) = max (m.log2 + e - 52) (-1074)
  congr 1
  ring

theorem shiftToTargetExponent_eq (m : ℕ) (e : ℤ) (accuracy : Accuracy) :
    shiftToTargetExponent .binary64 m e accuracy =
      (ExtendedMantissa.ofMantissaAndAccuracy m accuracy >>> (roundingExponent m e - e).toNat,
        e + (roundingExponent m e - e).toNat) := by
  rw [← targetExponent_eq]
  rfl

theorem mantissa_ofMantissaAndAccuracy (m : ℕ) (accuracy : Accuracy) :
    (ExtendedMantissa.ofMantissaAndAccuracy m accuracy).mantissa = m := by
  cases accuracy with
  | exact => rfl
  | inexact o => cases o <;> rfl

theorem two_zpow_add (t : ℤ) (n : ℕ) : (2 : ℚ) ^ (t + n) = (2 ^ n : ℕ) * 2 ^ t := by
  rw [add_comm, zpow_add₀ two_ne_zero, zpow_natCast, Nat.cast_pow, Nat.cast_ofNat]

/-- The exponent `t` is the one at which the magnitude `w` is rounded to 53 bits. -/
structure RoundsAt (w : ℚ) (t : ℤ) : Prop where
  least : -1074 ≤ t
  le : w ≤ 2 ^ (t + 53)
  normal : 2 ^ (t + 52) ≤ w ∨ t = -1074

/-- The numbers with 53 bits, of any size. -/
def IsBinary (d : ℚ) : Prop :=
  ∃ (g : ℕ) (k : ℤ), g < 2 ^ 53 ∧ -1074 ≤ k ∧ d = g * 2 ^ k

/-- No number with 53 bits is passed on the way from `w` to `u`. -/
def Adjacent (w u : ℚ) : Prop :=
  ∀ d, IsBinary d → (w ≤ d → u ≤ d) ∧ (d ≤ w → d ≤ u)

section Round

variable {m : ℕ} {e t : ℤ} {accuracy : Accuracy} {em : ExtendedMantissa} {w : ℚ}

/-- The magnitude `w` that the mantissa stands for is rounded at the same exponent. -/
theorem roundsAt_roundingExponent
    (h : Brackets (.ofMantissaAndAccuracy m accuracy) (w / 2 ^ e))
    (he : e ≤ roundingExponent m e) : RoundsAt w (roundingExponent m e) := by
  have htwo : (0 : ℚ) < 2 ^ e := by positivity
  have hle := h.le
  have hlt := h.lt
  rw [mantissa_ofMantissaAndAccuracy, le_div_iff₀ htwo] at hle
  rw [mantissa_ofMantissaAndAccuracy, div_lt_iff₀ htwo] at hlt
  unfold roundingExponent at he ⊢
  refine ⟨le_max_right _ _, ?_, ?_⟩
  · have hm : m + 1 ≤ 2 ^ (m.log2 + 1) := Nat.lt_log2_self
    calc w ≤ (m + 1) * 2 ^ e := hlt.le
      _ ≤ (2 ^ (m.log2 + 1) : ℕ) * 2 ^ e := by gcongr; exact_mod_cast hm
      _ = 2 ^ (e + (m.log2 + 1 : ℕ)) := (two_zpow_add e _).symm
      _ ≤ 2 ^ (max (m.log2 + e - 52) (-1074) + 53) := zpow_le_zpow_right₀ one_le_two (by omega)
  · rcases le_or_gt (m.log2 + e - 52) (-1074) with hleast | hnormal
    · exact .inr (max_eq_right hleast)
    · rw [max_eq_left hnormal.le] at he ⊢
      refine .inl ?_
      have hm : 2 ^ m.log2 ≤ m := Nat.log2_self_le (by rintro rfl; simp at he)
      calc (2 : ℚ) ^ (m.log2 + e - 52 + 52) = 2 ^ (e + m.log2) := by congr 1; ring
        _ = (2 ^ m.log2 : ℕ) * 2 ^ e := two_zpow_add e _
        _ ≤ m * 2 ^ e := by gcongr
        _ ≤ w := hle

theorem brackets_shiftToTargetExponent
    (h : Brackets (.ofMantissaAndAccuracy m accuracy) (w / 2 ^ e))
    (he : e ≤ roundingExponent m e) :
    (shiftToTargetExponent .binary64 m e accuracy).2 = roundingExponent m e ∧
    Brackets (shiftToTargetExponent .binary64 m e accuracy).1 (w / 2 ^ roundingExponent m e) := by
  rw [shiftToTargetExponent_eq]
  generalize roundingExponent m e = t at he
  have ht : ((t - e).toNat : ℤ) = t - e := Int.toNat_of_nonneg (by omega)
  refine ⟨by dsimp only; omega, ?_⟩
  have hshift := h.shiftRight (t - e).toNat
  rwa [div_div, ← zpow_natCast, ht, ← zpow_add₀ two_ne_zero, add_sub_cancel] at hshift

theorem shiftToTargetExponent_of_lt (ht : -1074 ≤ t) (hm : m < 2 ^ 53) :
    shiftToTargetExponent .binary64 m t .exact = (⟨m, false, false⟩, t) := by
  have hlog : m.log2 ≤ 52 := by
    rcases eq_or_ne m 0 with rfl | hne
    · decide
    · exact Nat.le_of_lt_succ ((Nat.log2_lt hne).2 hm)
  have hshift : (roundingExponent m t - t).toNat = 0 := by
    unfold roundingExponent
    omega
  rw [shiftToTargetExponent_eq, hshift]
  exact congrArg _ (add_zero t)

theorem shiftToTargetExponent_of_eq (ht : -1074 ≤ t) :
    shiftToTargetExponent .binary64 (2 ^ 53) t .exact = (⟨2 ^ 52, false, false⟩, t + 1) := by
  have hshift : (roundingExponent (2 ^ 53) t - t).toNat = 1 := by
    unfold roundingExponent
    rw [Nat.log2_two_pow]
    omega
  rw [shiftToTargetExponent_eq, hshift]
  rfl

theorem RoundsAt.roundedMantissa_le (hat : RoundsAt w t) (h : Brackets em (w / 2 ^ t)) :
    em.roundedMantissa ≤ 2 ^ 53 := by
  refine h.roundedMantissa_le ?_
  rw [div_le_iff₀ (by positivity), ← two_zpow_add]
  exact hat.le

theorem Brackets.le_roundedMantissa_of_normal (h : Brackets em (w / 2 ^ t))
    (hnormal : 2 ^ (t + 52) ≤ w) : 2 ^ 52 ≤ em.roundedMantissa := by
  refine h.le_roundedMantissa ?_
  rw [le_div_iff₀ (by positivity), ← two_zpow_add]
  exact hnormal

/-- Rounding passes no number with 53 bits. -/
theorem RoundsAt.adjacent (hat : RoundsAt w t) (h : Brackets em (w / 2 ^ t)) :
    Adjacent w (em.roundedMantissa * 2 ^ t) := by
  have htwo : (0 : ℚ) < 2 ^ t := by positivity
  rintro _ ⟨g, k, hg, hk, rfl⟩
  rcases le_or_gt t k with htk | hkt
  · -- The number is a whole one at the exponent `t`.
    have hwhole : (g : ℚ) * 2 ^ k = (g * 2 ^ (k - t).toNat : ℕ) * 2 ^ t := by
      rw [Nat.cast_mul, mul_assoc, ← two_zpow_add, Int.toNat_of_nonneg (by omega), add_sub_cancel]
    rw [hwhole]
    constructor
    · intro hle
      have hround := h.roundedMantissa_le ((div_le_iff₀ htwo).2 hle)
      gcongr
    · intro hle
      have hround := h.le_roundedMantissa ((le_div_iff₀ htwo).2 hle)
      gcongr
  · -- The number is smaller than all that is rounded at the exponent `t`.
    have hnormal : 2 ^ (t + 52) ≤ w := hat.normal.resolve_right (by omega)
    have hround := h.le_roundedMantissa_of_normal hnormal
    have hsmall : (g : ℚ) * 2 ^ k < 2 ^ (t + 52) := by
      calc (g : ℚ) * 2 ^ k < (2 ^ 53 : ℕ) * 2 ^ k := by gcongr
        _ = 2 ^ (k + (53 : ℕ)) := (two_zpow_add k 53).symm
        _ ≤ 2 ^ (t + 52) := zpow_le_zpow_right₀ one_le_two (by omega)
    have hlarge : (2 : ℚ) ^ (t + 52) ≤ em.roundedMantissa * 2 ^ t := by
      calc (2 : ℚ) ^ (t + 52) = (2 ^ 52 : ℕ) * 2 ^ t := two_zpow_add t 52
        _ ≤ em.roundedMantissa * 2 ^ t := by gcongr
    exact ⟨fun hle => absurd (hle.trans_lt hsmall) (not_lt.2 hnormal),
      fun _ => hsmall.le.trans hlarge⟩

/-- **Rounding gives zero or a number in the shape of a double**, and passes no number with
53 bits. -/
theorem roundWithAccuracy_spec (s : Sign)
    (h : Brackets (.ofMantissaAndAccuracy m accuracy) (w / 2 ^ e))
    (he : e ≤ roundingExponent m e) :
    (roundWithAccuracy .binary64 s m e accuracy = .zero s ∧ Adjacent w 0) ∨
    ∃ m' q hm, roundWithAccuracy .binary64 s m e accuracy = .finite s m' q hm ∧
      Canonical m' q ∧ Adjacent w (m' * 2 ^ q) := by
  obtain ⟨hexponent, hbrackets⟩ := brackets_shiftToTargetExponent h he
  have hat := roundsAt_roundingExponent h he
  generalize roundingExponent m e = t at *
  generalize hfirst : shiftToTargetExponent .binary64 m e accuracy = first at *
  obtain ⟨em, t'⟩ := first
  obtain rfl : t' = t := hexponent
  have hadjacent := hat.adjacent hbrackets
  have hleast := hat.least
  unfold roundWithAccuracy
  rw [hfirst]
  rcases (hat.roundedMantissa_le hbrackets).lt_or_eq with hlt | heq
  · -- The mantissa still has 53 bits, and the second shift does nothing.
    simp only [shiftToTargetExponent_of_lt hleast hlt]
    split_ifs with hzero
    · rw [hzero, Nat.cast_zero, zero_mul] at hadjacent
      exact .inl ⟨rfl, hadjacent⟩
    · exact .inr ⟨_, _, Nat.pos_of_ne_zero hzero, rfl,
        ⟨hlt, hleast, hat.normal.imp_left hbrackets.le_roundedMantissa_of_normal⟩, hadjacent⟩
  · -- The mantissa has been rounded up to 54 bits, and the second shift halves it.
    have hhalf : ((2 ^ 53 : ℕ) : ℚ) * 2 ^ t' = (2 ^ 52 : ℕ) * 2 ^ (t' + 1) := by
      rw [← two_zpow_add, ← two_zpow_add]
      congr 1
      omega
    rw [heq, hhalf] at hadjacent
    simp only [heq, shiftToTargetExponent_of_eq hleast]
    exact .inr ⟨2 ^ 52, t' + 1, by decide, rfl, ⟨by decide, by omega, .inl le_rfl⟩, hadjacent⟩

end Round

end Scss
