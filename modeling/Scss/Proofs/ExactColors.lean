import Mathlib
import Scss.Color.Basic

/-!
# Colour formulas over exact numbers

The colour formulas are written for any numbers that offer a few operations.  Here they are read
over the rational numbers, where no operation but the rounding to a byte loses anything, so that
laws of the formulas can be told apart from the errors of doubles.

A quotient by zero is zero there.  Where a formula must not take one, it is read over checked numbers
as well, which such a quotient leaves without a value.

## Main definitions

* `Number.nearest`: the integer nearest to a rational number, a half going away from zero
* `Checked`: a rational number, or what is left of one after a division by zero
* the instances of `Scalar` for rational and for checked numbers

## Main results

* `Scalar.unit_mem`, `Scalar.unit_one_sub`: the unit interval and its reflection
* `Scalar.toByte_mono`, `Scalar.toByte_toNat`: rounding keeps the order, and bytes as they are
* `Scalar.toByte_between`: a number between two bytes is rounded to one between them
* `Scalar.abs_toByte_sub_le`: rounding moves a number between bytes by one half at most
-/

namespace Scss

/-! ## Nearest integers -/

namespace Number

/-- The nearest integer; a half goes away from zero. -/
def nearest (x : ℚ) : ℤ :=
  if x < 0 then ⌈x - 1 / 2⌉ else ⌊x + 1 / 2⌋

variable {x y : ℚ}

theorem nearest_of_neg (h : x < 0) : nearest x = ⌈x - 1 / 2⌉ :=
  if_pos h

theorem nearest_of_nonneg (h : 0 ≤ x) : nearest x = ⌊x + 1 / 2⌋ :=
  if_neg (not_lt.2 h)

theorem nearest_mono (h : x ≤ y) : nearest x ≤ nearest y := by
  rcases lt_or_ge y 0 with hy | hy
  · rw [nearest_of_neg hy, nearest_of_neg (h.trans_lt hy)]
    exact Int.ceil_mono (sub_le_sub_right h _)
  · rcases lt_or_ge x 0 with hx | hx
    · have hbelow : nearest x ≤ 0 := by
        rw [nearest_of_neg hx]
        exact Int.ceil_le.2 (by push_cast; linarith)
      have habove : 0 ≤ nearest y := by
        rw [nearest_of_nonneg hy]
        exact Int.floor_nonneg.2 (by linarith)
      exact hbelow.trans habove
    · rw [nearest_of_nonneg hx, nearest_of_nonneg hy]
      exact Int.floor_mono (add_le_add_left h _)

theorem nearest_natCast (n : ℕ) : nearest n = n := by
  rw [nearest_of_nonneg n.cast_nonneg, Int.floor_eq_iff]
  constructor
  · push_cast
    linarith
  · push_cast
    linarith

theorem abs_nearest_sub_le (h : 0 ≤ x) : |(nearest x : ℚ) - x| ≤ 1 / 2 := by
  rw [nearest_of_nonneg h, abs_le]
  have hle := Int.floor_le (x + 1 / 2)
  have hlt := Int.lt_floor_add_one (x + 1 / 2)
  constructor
  · linarith
  · linarith

end Number

instance : Scalar ℚ where
  decidableLT := inferInstance
  toByte x := UInt8.ofNat (min (Number.nearest x).toNat 255)
  turn x := x - 360 * ⌊x / 360⌋

namespace Scalar

variable {x y : ℚ}

/-! ## The unit interval -/

theorem unit_eq (x : ℚ) : unit x = if x < 0 then 0 else if 1 < x then 1 else x :=
  rfl

theorem unit_mem (x : ℚ) : 0 ≤ unit x ∧ unit x ≤ 1 := by
  rw [unit_eq]
  split_ifs with hneg hlarge
  · exact ⟨le_rfl, zero_le_one⟩
  · exact ⟨zero_le_one, le_rfl⟩
  · exact ⟨not_lt.1 hneg, not_lt.1 hlarge⟩

theorem unit_of_mem (h : 0 ≤ x ∧ x ≤ 1) : unit x = x := by
  rw [unit_eq, if_neg (not_lt.2 h.1), if_neg (not_lt.2 h.2)]

/-- Turning the unit interval round moves everything into it in the same way. -/
theorem unit_one_sub (x : ℚ) : unit (1 - x) = 1 - unit x := by
  rw [unit_eq, unit_eq]
  split_ifs <;> linarith

/-! ## Order and angles -/

theorem max_eq (x y : ℚ) : max x y = Max.max x y := by
  rw [max, max_def_lt]

theorem min_eq (x y : ℚ) : min x y = Min.min x y := by
  rw [min, min_comm, min_def_lt]

theorem turn_of_mem (h : 0 ≤ x ∧ x < 360) : turn x = x := by
  have hfloor : ⌊x / 360⌋ = 0 := Int.floor_eq_zero_iff.2 ⟨by linarith, by linarith⟩
  show x - 360 * (⌊x / 360⌋ : ℚ) = x
  rw [hfloor, Int.cast_zero, mul_zero, sub_zero]

/-! ## Bytes -/

theorem toNat_toByte (x : ℚ) : (toByte x).toNat = Min.min (Number.nearest x).toNat 255 := by
  show (UInt8.ofNat (Min.min (Number.nearest x).toNat 255)).toNat = _
  rw [UInt8.toNat_ofNat']
  omega

theorem toByte_mono (h : x ≤ y) : (toByte x).toNat ≤ (toByte y).toNat := by
  rw [toNat_toByte, toNat_toByte]
  have := Number.nearest_mono h
  omega

/-- A number that is a byte already is not changed. -/
theorem toByte_toNat (b : UInt8) : toByte (b.toNat : ℚ) = b := by
  have hlt := b.toNat_lt
  rw [← UInt8.toNat_inj, toNat_toByte, Number.nearest_natCast]
  omega

/-- A number between two bytes is rounded to one between them. -/
theorem toByte_between {b b' : UInt8} (h : (b.toNat : ℚ) ≤ x) (h' : x ≤ b'.toNat) :
    b.toNat ≤ (toByte x).toNat ∧ (toByte x).toNat ≤ b'.toNat := by
  have hlower := toByte_mono h
  have hupper := toByte_mono h'
  rw [toByte_toNat] at hlower hupper
  exact ⟨hlower, hupper⟩

/-- Rounding moves a number in the range of bytes by one half at most. -/
theorem abs_toByte_sub_le (h : 0 ≤ x) (h' : x ≤ 255) : |((toByte x).toNat : ℚ) - x| ≤ 1 / 2 := by
  have hlow : Number.nearest 0 ≤ Number.nearest x := Number.nearest_mono h
  have hhigh : Number.nearest x ≤ Number.nearest 255 := Number.nearest_mono h'
  have hzero : Number.nearest 0 = 0 := Number.nearest_natCast 0
  have hlast : Number.nearest 255 = 255 := Number.nearest_natCast 255
  have hbyte : ((toByte x).toNat : ℤ) = Number.nearest x := by
    rw [toNat_toByte]
    omega
  have hcast : ((toByte x).toNat : ℚ) = (Number.nearest x : ℚ) := by exact_mod_cast hbyte
  rw [hcast]
  exact Number.abs_nearest_sub_le h

end Scalar

/-! ## Checked numbers -/

/-- A rational number, or nothing: what a division by zero gives, and all that is computed from
it. -/
inductive Checked where
  /-- The number `x`. -/
  | value (x : ℚ)
  /-- No number. -/
  | missing
  deriving DecidableEq

namespace Checked

/-- An operation that two numbers always have. -/
def total (f : ℚ → ℚ → ℚ) : Checked → Checked → Checked
  | value x, value y => value (f x y)
  | _, _ => missing

/-- The quotient of two numbers, if the divisor is not zero. -/
def quotient : Checked → Checked → Checked
  | value x, value y => if y = 0 then missing else value (x / y)
  | _, _ => missing

/-- Whether both numbers are there and the first is the lesser one. -/
def less : Checked → Checked → Bool
  | value x, value y => x < y
  | _, _ => false

/-- The number with `f` applied to it, if it is there. -/
def map (f : ℚ → ℚ) : Checked → Checked
  | value x => value (f x)
  | missing => missing

instance : Scalar Checked where
  natCast n := value n
  add := total (· + ·)
  sub := total (· - ·)
  mul := total (· * ·)
  div := quotient
  lt x y := less x y = true
  beq x y := decide (x = y)
  decidableLT x y := inferInstanceAs (Decidable (less x y = true))
  toByte
    | value x => Scalar.toByte x
    | missing => 0
  turn := map Scalar.turn

variable {x y : ℚ}

@[simp] theorem natCast_eq (n : ℕ) : (n : Checked) = value n := rfl

@[simp] theorem value_add (x y : ℚ) : value x + value y = value (x + y) := rfl

@[simp] theorem value_sub (x y : ℚ) : value x - value y = value (x - y) := rfl

@[simp] theorem value_mul (x y : ℚ) : value x * value y = value (x * y) := rfl

/-- A quotient is there if the divisor is not zero. -/
@[simp] theorem value_div (h : y ≠ 0) : value x / value y = value (x / y) :=
  if_neg h

/-- Counting numbers that are not zero may be divided by. -/
@[simp] theorem value_div_natCast (x : ℚ) (n : ℕ) [NeZero n] :
    value x / value (n : ℚ) = value (x / n) :=
  value_div (Nat.cast_ne_zero.2 (NeZero.ne n))

@[simp] theorem value_lt_value : value x < value y ↔ x < y :=
  decide_eq_true_iff

@[simp] theorem value_beq_value (x y : ℚ) : (value x == value y) = (x == y) :=
  decide_eq_decide.2 (by rw [value.injEq])

@[simp] theorem max_value (x y : ℚ) : Scalar.max (value x) (value y) = value (Scalar.max x y) := by
  simp only [Scalar.max, value_lt_value, apply_ite value]

@[simp] theorem min_value (x y : ℚ) : Scalar.min (value x) (value y) = value (Scalar.min x y) := by
  simp only [Scalar.min, value_lt_value, apply_ite value]

@[simp] theorem unit_value (x : ℚ) : Scalar.unit (value x) = value (Scalar.unit x) := by
  simp only [Scalar.unit, Scalar.clamp, natCast_eq, value_lt_value, apply_ite value]

@[simp] theorem turn_value (x : ℚ) : Scalar.turn (value x) = value (Scalar.turn x) := rfl

end Checked

end Scss
