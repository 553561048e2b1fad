import Mathlib
import Scss.Proofs.Doubles
import Scss.Value.Style

/-!
# The text of numbers in the canonical style

To round a number to some decimals it is scaled by a power of ten, rounded to an integer and scaled
back.  None of the steps gives a NaN, and all but the first stay finite: the power of ten is at
least one and has a finite double up to `10 ^ 255`, so scaling back cannot overflow.  The text of a
finite result is a numeral without zeros at the end.  If the first step overflows, the text is that
of an infinity.

## Main definitions

* `CanonicalNumeral`: a sign, digits, and decimals that do not end in a zero

## Main results

* `Number.within_powerOfTen`: the powers of ten are finite and at least one
* `Number.exists_numeral_toFixed`: the text of a finite number is a numeral
* `Style.number_canonical_iff`: when the canonical text of a number is a numeral
* `Style.number_overflows`: a finite number with the text of an infinity
-/

namespace Scss

namespace Number

variable {x y : Float} {v w : ℚ}

/-! ## Powers of ten -/

/-- A finite double between `1` and `2 ^ i`. -/
def Within (i : ℕ) (x : Float) : Prop :=
  ∃ v, HasSize x v ∧ 1 ≤ v ∧ v ≤ 2 ^ i

theorem isBinary_two_pow (i : ℕ) : IsBinary (2 ^ i) :=
  ⟨1, i, by decide, by omega, by simp⟩

theorem two_pow_le_greatest {i : ℕ} (hi : i ≤ 1023) : (2 : ℚ) ^ i ≤ greatest := by
  calc (2 : ℚ) ^ i ≤ 2 ^ 1023 := pow_le_pow_right₀ one_le_two hi
    _ = (2 ^ 52 : ℕ) * 2 ^ (971 : ℤ) := by
      rw [zpow_ofNat, Nat.cast_pow, Nat.cast_ofNat, ← pow_add]
    _ ≤ greatest := by
      unfold greatest
      gcongr
      decide

theorem Within.mul {i j : ℕ} (hx : Within i x) (hy : Within j y) (hij : i + j ≤ 1023) :
    Within (i + j) (x * y) := by
  obtain ⟨v, hx, hv, hv'⟩ := hx
  obtain ⟨w, hy, hw, hw'⟩ := hy
  have hle : v * w ≤ 2 ^ (i + j) := by
    rw [pow_add]
    exact mul_le_mul hv' hw' (zero_le_one.trans hw) (by positivity)
  have hge : 1 ≤ v * w := one_le_mul_of_one_le_of_one_le hv hw
  -- Both bounds are powers of two, which rounding does not pass.
  obtain ⟨u, hu, hadjacent⟩ :=
    (roundsTo_mul hx hy).exists_hasSize (hle.trans (two_pow_le_greatest hij))
  exact ⟨u, hu, (hadjacent 1 (by simpa using isBinary_two_pow 0)).2 hge,
    (hadjacent _ (isBinary_two_pow (i + j))).1 hle⟩

theorem within_ofNat {i n : ℕ} (hn : n < 2 ^ 53) (hpos : 1 ≤ n) (hle : n ≤ 2 ^ i) :
    Within i (.ofNat n) :=
  ⟨n, hasSize_ofNat hn, by exact_mod_cast hpos, by exact_mod_cast hle⟩

/-- Repeated squaring stays within the bound `2 ^ (i + j * n)` of `r · a ^ n`, which is the same at
each step. -/
theorem within_powerStep (n : ℕ) :
    ∀ {r a : Float} {i j : ℕ}, Within i r → Within j a → i + j * n ≤ 1023 →
      Within (i + j * n) (powerStep r a n) := by
  induction n using Nat.strongRecOn with
  | ind n ih =>
    intro r a i j hr ha hbound
    -- The last bit of `n` is for the factor, and the others are for the square.
    have hsplit : j * n = j * (n % 2) + (j + j) * (n / 2) := by
      conv_lhs => rw [← Nat.mod_add_div n 2]
      ring
    have hfactor : Within (i + j * (n % 2)) (if n % 2 = 1 then r * a else r) := by
      split_ifs with hodd
      · rw [hodd, mul_one]
        exact hr.mul ha (by rw [hodd, mul_one] at hsplit; omega)
      · rwa [show n % 2 = 0 by omega, mul_zero, add_zero]
    rw [powerStep]
    by_cases hlast : n / 2 = 0
    · rw [dif_pos hlast, hsplit, hlast, mul_zero, add_zero]
      exact hfactor
    · have hsquare : j + j ≤ (j + j) * (n / 2) :=
        Nat.le_mul_of_pos_right _ (Nat.pos_of_ne_zero hlast)
      rw [dif_neg hlast, hsplit, ← add_assoc]
      exact ih (n / 2) (by omega) hfactor (ha.mul ha (by omega)) (by omega)

theorem within_powerOfTen {places : ℕ} (h : places ≤ 255) :
    Within (4 * places) (powerOfTen places) := by
  have hone : Within 0 1 := within_ofNat (by decide) (by decide) (by decide)
  have hten : Within 4 10 := within_ofNat (by decide) (by decide) (by decide)
  have hpower := within_powerStep places hone hten (by omega)
  rwa [Nat.zero_add] at hpower

theorem powerOfTen_five : powerOfTen 5 = 100000 := by
  have hproduct : powerOfTen 5 = 1 * 10 * (10 * 10 * (10 * 10)) := by
    simp [powerOfTen, powerStep]
  rw [hproduct]
  decide +kernel

/-! ## Rounding to integers -/

theorem quotient_halfAway_lt {m k : ℕ} (hm : m < 2 ^ 53) (hk : k ≠ 0) :
    Rounding.halfAway.quotient m (Nat.pow 2 k) < 2 ^ 53 := by
  show (2 * m + 2 ^ k) / (2 * 2 ^ k) < 2 ^ 53
  have htwo : 2 ^ 1 ≤ 2 ^ k := Nat.pow_le_pow_right (by decide) (Nat.one_le_iff_ne_zero.2 hk)
  rw [Nat.div_lt_iff_lt_mul (by positivity)]
  omega

/-- The integer near a finite double is a finite double. -/
theorem hasSize_round (hx : HasSize x v) : ∃ u, HasSize (round x) u := by
  obtain ⟨negative, m, q, hexact, rfl⟩ := id hx
  have hlt := (Exact.canonical_of_ofDouble hexact).1.lt
  unfold round integral
  rw [hexact]
  dsimp only
  split_ifs with hq
  · exact ⟨_, hx⟩
  · exact ⟨_, hasSize_neg (hasSize_ofNat (quotient_halfAway_lt hlt (by omega)))⟩
  · exact ⟨_, hasSize_ofNat (quotient_halfAway_lt hlt (by omega))⟩

theorem round_of_isInfinite (hx : IsInfinite x) : round x = x := by
  obtain ⟨negative, hx⟩ := hx
  unfold round integral
  rw [hx]

end Number

/-! ## Numerals -/

/-- A decimal numeral: a sign or none, digits, and at most `places` decimals, the last of which is
not a zero. -/
structure CanonicalNumeral (places : ℕ) where
  /-- Whether there is a minus sign. -/
  negative : Bool
  /-- The digits before the point. -/
  whole : List Char
  /-- The digits after the point; without any there is no point. -/
  decimals : List Char
  whole_ne_nil : whole ≠ []
  isDigit_whole : ∀ c ∈ whole, c.isDigit = true
  isDigit_decimals : ∀ c ∈ decimals, c.isDigit = true
  length_decimals : decimals.length ≤ places
  last_decimal : decimals.getLast? ≠ some '0'

namespace CanonicalNumeral

variable {places : ℕ}

/-- The text of a numeral. -/
def text (n : CanonicalNumeral places) : List Char :=
  (if n.negative then ['-'] else []) ++ n.whole ++
    if n.decimals = [] then [] else '.' :: n.decimals

theorem eq_or_isDigit_of_mem_text {n : CanonicalNumeral places} {c : Char} (hc : c ∈ n.text) :
    c = '-' ∨ c = '.' ∨ c.isDigit = true := by
  rw [text, List.mem_append, List.mem_append] at hc
  rcases hc with (hc | hc) | hc
  · split_ifs at hc
    · exact .inl (List.mem_singleton.1 hc)
    · cases hc
  · exact .inr (.inr (n.isDigit_whole c hc))
  · split_ifs at hc
    · cases hc
    · rcases List.mem_cons.1 hc with hc | hc
      · exact .inr (.inl hc)
      · exact .inr (.inr (n.isDigit_decimals c hc))

/-- A numeral does not read like an infinity. -/
theorem text_ne_of_mem (n : CanonicalNumeral places) {text : List Char} (h : 'i' ∈ text) :
    n.text ≠ text := by
  rintro rfl
  rcases eq_or_isDigit_of_mem_text h with hc | hc | hc
  · cases hc
  · cases hc
  · cases hc

end CanonicalNumeral

namespace Decimal

/-- Digits with a point among them, if there are to be decimals. -/
theorem withPoint_eq {digits : List Char} (hdigits : ∀ c ∈ digits, c.isDigit = true)
    (places : ℕ) :
    ∃ whole decimals : List Char, whole ≠ [] ∧ (∀ c ∈ whole, c.isDigit = true) ∧
      (∀ c ∈ decimals, c.isDigit = true) ∧ decimals.length = places ∧
      withPoint digits places = whole ++ if places = 0 then [] else '.' :: decimals := by
  obtain ⟨padded, hpadded⟩ : ∃ padded, padded =
    List.replicate (places + 1 - digits.length) '0' ++ digits := ⟨_, rfl⟩
  -- Padding leaves at least one digit before the point.
  have hlength : places + 1 ≤ padded.length := by
    rw [hpadded, List.length_append, List.length_replicate]
    omega
  have hmem : ∀ c ∈ padded, c.isDigit = true := by
    intro c hc
    rw [hpadded, List.mem_append, List.mem_replicate] at hc
    rcases hc with ⟨-, rfl⟩ | hc
    · rfl
    · exact hdigits c hc
  refine ⟨padded.take (padded.length - places), padded.drop (padded.length - places), ?_,
    fun c hc => hmem c (List.mem_of_mem_take hc), fun c hc => hmem c (List.mem_of_mem_drop hc),
    ?_, ?_⟩
  · rw [← List.length_pos_iff, List.length_take]
    omega
  · rw [List.length_drop]
    omega
  · unfold withPoint
    rw [← hpadded]
    dsimp only
    split_ifs with hplaces
    · rw [hplaces, Nat.sub_zero, List.take_length, List.append_nil]
    · rfl

theorem isDigit_of_mem_numeral {n : ℕ} {c : Char} (hc : c ∈ numeral n) : c.isDigit = true :=
  Nat.isDigit_of_mem_toDigits (by decide) (by decide) hc

end Decimal

namespace Number

theorem dropZeros_eq (text : List Char) :
    dropZeros text =
      if '.' ∈ text then (text.rdropWhile (· == '0')).rdropWhile (· == '.') else text := by
  unfold dropZeros List.rdropWhile
  simp

theorem rdropWhile_append_cons {α : Type} {p : α → Bool} {a : α} (h : p a = false) (l m : List α) :
    (l ++ a :: m).rdropWhile p = l ++ a :: m.rdropWhile p := by
  induction m using List.reverseRecOn with
  | nil => rw [List.rdropWhile_concat_neg p l a (by simp [h]), List.rdropWhile_nil]
  | append_singleton m b ih =>
    rw [← List.cons_append, ← List.append_assoc, List.rdropWhile_concat, List.rdropWhile_concat, ih]
    split_ifs
    · rfl
    · rw [List.append_assoc, List.cons_append]

/-- Zeros at the end of the decimals are dropped, and the point with them if nothing is left. -/
theorem dropZeros_point {whole decimals : List Char} (hwhole : '.' ∉ whole)
    (hdecimals : ∀ c ∈ decimals, c.isDigit = true) :
    dropZeros (whole ++ '.' :: decimals) = whole ++
      if decimals.rdropWhile (· == '0') = [] then []
      else '.' :: decimals.rdropWhile (· == '0') := by
  rw [dropZeros_eq, if_pos (by simp), rdropWhile_append_cons (by decide)]
  have hkept : ∀ c ∈ decimals.rdropWhile (· == '0'), c.isDigit = true :=
    fun c hc => hdecimals c ((List.rdropWhile_prefix _ _).subset hc)
  generalize decimals.rdropWhile (· == '0') = kept at hkept
  split_ifs with hnil
  · -- The point goes, and nothing before it does, as there is no other point.
    rw [hnil, List.rdropWhile_concat_pos _ _ _ (by decide), List.append_nil,
      List.rdropWhile_eq_self_iff]
    intro hl hpoint
    exact hwhole (beq_iff_eq.1 hpoint ▸ List.getLast_mem hl)
  · -- The text ends in a digit, so the point stays.
    rw [List.rdropWhile_eq_self_iff]
    intro hl hpoint
    rw [List.getLast_append_of_ne_nil _ (List.cons_ne_nil '.' kept), List.getLast_cons hnil,
      beq_iff_eq] at hpoint
    have hdigit := hkept _ (List.getLast_mem hnil)
    rw [hpoint] at hdigit
    cases hdigit

theorem dropZeros_of_notMem {text : List Char} (h : '.' ∉ text) : dropZeros text = text := by
  rw [dropZeros_eq, if_neg h]

theorem point_notMem_of_isDigit {digits : List Char} (h : ∀ c ∈ digits, c.isDigit = true) :
    '.' ∉ digits :=
  fun hc => Bool.noConfusion (h _ hc)

theorem exists_numeral_withPoint {digits : List Char} (hdigits : ∀ c ∈ digits, c.isDigit = true)
    (negative : Bool) (places : ℕ) :
    ∃ n : CanonicalNumeral places, n.text =
      dropZeros ((if negative then ['-'] else []) ++ Decimal.withPoint digits places) := by
  obtain ⟨whole, decimals, hne, hwhole, hdecimals, hlength, hpoint⟩ :=
    Decimal.withPoint_eq hdigits places
  have hsigned : '.' ∉ (if negative then ['-'] else []) ++ whole := by
    have := point_notMem_of_isDigit hwhole
    cases negative <;> simpa using this
  rw [hpoint, ← List.append_assoc]
  by_cases hplaces : places = 0
  · refine ⟨⟨negative, whole, [], hne, hwhole, by simp, by simp, by simp⟩, ?_⟩
    rw [if_pos hplaces, List.append_nil, dropZeros_of_notMem hsigned]
    simp [CanonicalNumeral.text]
  · have hkept := List.rdropWhile_prefix (· == '0') decimals
    have hlast : (decimals.rdropWhile (· == '0')).getLast? ≠ some '0' := by
      intro hlast
      have hl : decimals.rdropWhile (· == '0') ≠ [] := by
        intro hnil
        rw [hnil] at hlast
        cases hlast
      rw [List.getLast?_eq_some_getLast hl, Option.some.injEq] at hlast
      exact List.rdropWhile_last_not _ _ hl (beq_iff_eq.2 hlast)
    refine ⟨⟨negative, whole, decimals.rdropWhile (· == '0'), hne, hwhole,
      fun c hc => hdecimals c (hkept.subset hc), hlength ▸ hkept.length_le, hlast⟩, ?_⟩
    rw [if_neg hplaces, dropZeros_point hsigned hdecimals]
    rfl

/-- The text of a finite number is a numeral, once the zeros at the end are dropped. -/
theorem exists_numeral_toFixed {x : Float} {v : ℚ} (hx : HasSize x v) (places : ℕ) :
    ∃ n : CanonicalNumeral places, n.text = dropZeros (toFixed places x).toList := by
  obtain ⟨negative, m, q, hexact, -⟩ := hx
  unfold toFixed
  rw [hexact]
  unfold Exact.text
  dsimp only
  rw [String.toList_ofList]
  obtain ⟨n, hn⟩ := exists_numeral_withPoint
    (fun c hc => Decimal.isDigit_of_mem_numeral hc) negative places
  cases negative with
  | false => exact ⟨n, hn⟩
  | true => exact ⟨n, hn⟩

/-- The text of an infinity. -/
theorem dropZeros_toFixed_of_isInfinite {x : Float} (hx : IsInfinite x) (places : ℕ) :
    dropZeros (toFixed places x).toList = ['i', 'n', 'f'] ∨
      dropZeros (toFixed places x).toList = ['-', 'i', 'n', 'f'] := by
  obtain ⟨negative, hexact⟩ := hx
  unfold toFixed
  rw [hexact]
  unfold Exact.text
  dsimp only
  rw [String.toList_ofList]
  cases negative with
  | false => exact .inl (by decide)
  | true => exact .inr (by decide)

theorem beq_zero_of_isInfinite {x : Float} (hx : IsInfinite x) : (x == 0) = false := by
  obtain ⟨s, hunpack⟩ := hx.unpack
  have hzero : (0 : Float).toModel.unpack = .zero .positive := rfl
  show x.toModel.unpack.beq (0 : Float).toModel.unpack = false
  rw [hzero, hunpack]
  cases s <;> rfl

/-! ## The canonical style -/

variable {x : Float} {v : ℚ} {places : ℕ}

/-- Scaling back cannot overflow, since the factor is at least one. -/
theorem hasSize_div_powerOfTen (hplaces : places ≤ 255) (hx : HasSize x v) :
    ∃ u, HasSize (x / powerOfTen places) u := by
  obtain ⟨w, hw, hone, -⟩ := within_powerOfTen hplaces
  have hle : v / w ≤ greatest := (div_le_self hx.nonneg hone).trans hx.le_greatest
  obtain ⟨u, hu, -⟩ := (roundsTo_div hx hw (zero_lt_one.trans_le hone).ne').exists_hasSize hle
  exact ⟨u, hu⟩

theorem hasSize_or_isInfinite_scaled (hplaces : places ≤ 255) (hx : HasSize x v) :
    (∃ u, HasSize (x * powerOfTen places) u) ∨ IsInfinite (x * powerOfTen places) := by
  obtain ⟨w, hw, -⟩ := within_powerOfTen hplaces
  exact (roundsTo_mul hx hw).imp (fun ⟨u, hu, _⟩ => ⟨u, hu⟩) And.left

theorem exists_numeral_canonical (hplaces : places ≤ 255)
    (hx : HasSize (x * powerOfTen places) v) :
    ∃ n : CanonicalNumeral places, n.text = canonical places x := by
  obtain ⟨u, hround⟩ := hasSize_round hx
  obtain ⟨u', hback⟩ := hasSize_div_powerOfTen hplaces hround
  unfold canonical
  dsimp only
  split_ifs
  · exact ⟨⟨false, ['0'], [], by simp, by simp, by simp, by simp, by simp⟩, rfl⟩
  · exact exists_numeral_toFixed hback places

theorem canonical_of_isInfinite (hplaces : places ≤ 255)
    (hx : IsInfinite (x * powerOfTen places)) :
    canonical places x = ['i', 'n', 'f'] ∨ canonical places x = ['-', 'i', 'n', 'f'] := by
  obtain ⟨w, hw, -⟩ := within_powerOfTen hplaces
  have hback := isInfinite_div hx hw
  unfold canonical
  dsimp only
  rw [round_of_isInfinite hx, beq_zero_of_isInfinite hback, if_neg Bool.false_ne_true]
  exact dropZeros_toFixed_of_isInfinite hback places

end Number

namespace Style

/-- **The canonical text of a finite number is a numeral, unless scaling it overflows.**  Up to 255
places, it is a numeral with at most that many decimals and no zero at their end if and only if the
number times the power of ten is finite.  Otherwise it is the text of an infinity. -/
theorem number_canonical_iff {x : Float} {places : ℕ} (hplaces : places ≤ 255)
    (hx : x.isFinite = true) :
    ((∃ n : CanonicalNumeral places, n.text = (Style.canonical places).number x) ↔
      (x * Number.powerOfTen places).isFinite = true) ∧
    ((x * Number.powerOfTen places).isFinite = false →
      (Style.canonical places).number x = ['i', 'n', 'f'] ∨
      (Style.canonical places).number x = ['-', 'i', 'n', 'f']) := by
  obtain ⟨v, hv⟩ := Number.isFinite_iff.1 hx
  show ((∃ n : CanonicalNumeral places, n.text = Number.canonical places x) ↔ _) ∧
    (_ → Number.canonical places x = _ ∨ Number.canonical places x = _)
  rcases Number.hasSize_or_isInfinite_scaled hplaces hv with ⟨u, hu⟩ | hinfinite
  · have hfinite := Number.isFinite_iff.2 ⟨u, hu⟩
    refine ⟨iff_of_true (Number.exists_numeral_canonical hplaces hu) hfinite, fun h => ?_⟩
    rw [hfinite] at h
    cases h
  · -- The text of an infinity has letters, and a numeral has none.
    have htext := Number.canonical_of_isInfinite hplaces hinfinite
    refine ⟨iff_of_false ?_ ?_, fun _ => htext⟩
    · rintro ⟨n, hn⟩
      rcases htext with htext | htext
      · exact n.text_ne_of_mem (by simp) (hn.trans htext)
      · exact n.text_ne_of_mem (by simp) (hn.trans htext)
    · intro hfinite
      obtain ⟨u, hu⟩ := Number.isFinite_iff.1 hfinite
      exact hinfinite.not_hasSize hu

/-- The doubles `2 ^ 1007` and `2 ^ 1008` with five places: the first one has a numeral, the second
one is scaled to an infinity. -/
theorem number_canonical_iff_edge :
    (∃ n : CanonicalNumeral 5, n.text = (Style.canonical 5).number (.ofBits 0x7EE0000000000000)) ∧
    ((Style.canonical 5).number (.ofBits 0x7EF0000000000000) = ['i', 'n', 'f'] ∨
      (Style.canonical 5).number (.ofBits 0x7EF0000000000000) = ['-', 'i', 'n', 'f']) := by
  have hfinite : (Float.ofBits 0x7EE0000000000000 * Number.powerOfTen 5).isFinite = true := by
    rw [Number.powerOfTen_five]
    decide
  have hinfinite : (Float.ofBits 0x7EF0000000000000 * Number.powerOfTen 5).isFinite = false := by
    rw [Number.powerOfTen_five]
    decide
  exact ⟨(number_canonical_iff (by decide) (by decide)).1.2 hfinite,
    (number_canonical_iff (by decide) (by decide)).2 hinfinite⟩

/-- The double `2 ^ 1023` is finite, but with five places it has the text of an infinity. -/
theorem number_overflows :
    (Float.ofBits 0x7FE0000000000000).isFinite = true ∧
    (Style.canonical 5).number (.ofBits 0x7FE0000000000000) = ['i', 'n', 'f'] ∧
    ¬∃ n : CanonicalNumeral 5,
      n.text = (Style.canonical 5).number (.ofBits 0x7FE0000000000000) := by
  have htext : (Style.canonical 5).number (.ofBits 0x7FE0000000000000) = ['i', 'n', 'f'] := by
    rw [number, Number.canonical, Number.powerOfTen_five]
    decide
  refine ⟨by decide, htext, ?_⟩
  rintro ⟨n, hn⟩
  exact n.text_ne_of_mem (by simp) (hn.trans htext)

end Style

end Scss
