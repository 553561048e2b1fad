import Scss.Number.Single

/-!
# Numerals

A numeral is a sign, digits, a fraction and an exponent, each of which may be missing.  It names
two doubles: the one nearest to its value, and an approximation in a fixed order of operations,
which a token keeps in single precision.

## Main definitions

* `Numeral`, with `Numeral.scan` for reading and `Numeral.text` for writing;
* `Numeral.exact`: the nearest double;
* `Numeral.approximate`: digit by digit in double precision;
* `Numeral.integer?`: the integer of a numeral without fraction and exponent, kept in 32 bits.

## Main results

* `Numeral.suffix_scan`: what follows a numeral is an end of what follows its sign.
-/

namespace Scss

/-- The exponent of a numeral, as written. -/
structure Numeral.Exponent where
  /-- The letter `e` or `E`. -/
  mark : Char
  /-- The sign, if one is written. -/
  sign : Option Char
  /-- The digits. -/
  digits : List Char
  deriving DecidableEq, Repr

/-- A numeral, as written. -/
structure Numeral where
  /-- The sign, if one is written. -/
  sign : Option Char
  /-- The digits before the point. -/
  whole : List Char
  /-- The digits after the point. -/
  fraction : List Char
  /-- The exponent, if there is one. -/
  exponent : Option Numeral.Exponent
  deriving DecidableEq, Repr

namespace Numeral

/-- Whether `c` is a sign. -/
def isSign (c : Char) : Bool :=
  c == '+' || c == '-'

/-- Reads a sign. -/
def scanSign : List Char → Option Char × List Char
  | c :: rest => if isSign c then (some c, rest) else (none, c :: rest)
  | [] => (none, [])

/-- Reads digits. -/
def scanDigits (s : List Char) : List Char × List Char :=
  (s.takeWhile Char.isDigit, s.dropWhile Char.isDigit)

/-- Reads a point and the digits after it; a point without a digit is left alone. -/
def scanFraction : List Char → List Char × List Char
  | '.' :: c :: rest => if c.isDigit then scanDigits (c :: rest) else ([], '.' :: c :: rest)
  | s => ([], s)

/-- Reads an exponent; a letter without digits is left alone. -/
def scanExponent : List Char → Option Exponent × List Char
  | [] => (none, [])
  | mark :: rest =>
    let signed := scanSign rest
    let digits := scanDigits signed.2
    if (mark == 'e' || mark == 'E') && !digits.1.isEmpty then
      (some ⟨mark, signed.1, digits.1⟩, digits.2)
    else (none, mark :: rest)

/-- Reads the longest numeral at the start of a text. -/
def scan (s : List Char) : Numeral × List Char :=
  let sign := scanSign s
  let whole := scanDigits sign.2
  let fraction := scanFraction whole.2
  let exponent := scanExponent fraction.2
  (⟨sign.1, whole.1, fraction.1, exponent.1⟩, exponent.2)

/-- Whether a digit, or a point and a digit, stands at the start. -/
def startsDigits : List Char → Bool
  | '.' :: c :: _ => c.isDigit
  | c :: _ => c.isDigit
  | [] => false

theorem suffix_scanSign (s : List Char) : (scanSign s).2 <:+ s := by
  unfold scanSign
  split
  · split
    · exact List.suffix_cons _ _
    · exact List.suffix_rfl
  · exact List.suffix_rfl

theorem suffix_scanDigits (s : List Char) : (scanDigits s).2 <:+ s :=
  List.dropWhile_suffix _

theorem suffix_scanFraction (s : List Char) : (scanFraction s).2 <:+ s := by
  unfold scanFraction
  split
  · split
    · exact (suffix_scanDigits _).trans (List.suffix_cons _ _)
    · exact List.suffix_rfl
  · exact List.suffix_rfl

theorem suffix_scanExponent (s : List Char) : (scanExponent s).2 <:+ s := by
  unfold scanExponent
  split
  · exact List.suffix_rfl
  · rename_i mark rest
    dsimp only
    split
    · exact ((suffix_scanDigits _).trans (suffix_scanSign rest)).trans (List.suffix_cons mark rest)
    · exact List.suffix_rfl

theorem suffix_scan (s : List Char) : (scan s).2 <:+ (scanSign s).2 :=
  (suffix_scanExponent _).trans <| (suffix_scanFraction _).trans (suffix_scanDigits _)

/-- Digits take their first character, and so do a point and the digits after it. -/
theorem suffix_scanFraction_of_startsDigits {c : Char} {rest : List Char}
    (h : startsDigits (c :: rest) = true) :
    (scanFraction (scanDigits (c :: rest)).2).2 <:+ rest := by
  by_cases hdigit : c.isDigit = true
  · have hdigits : (scanDigits (c :: rest)).2 = (scanDigits rest).2 := by
      simp only [scanDigits, List.dropWhile_cons, if_pos hdigit]
    rw [hdigits]
    exact (suffix_scanFraction _).trans (suffix_scanDigits rest)
  · -- Without a digit the point comes first, and the fraction takes it.
    have hdigits : (scanDigits (c :: rest)).2 = c :: rest := by
      simp only [scanDigits, List.dropWhile_cons, if_neg hdigit]
    rw [hdigits]
    unfold startsDigits at h
    split at h
    · rename_i d tail heq
      rw [heq, scanFraction, if_pos h, (List.cons.inj heq).2]
      exact suffix_scanDigits _
    · rename_i heq
      rw [← (List.cons.inj heq).1] at h
      exact absurd h hdigit
    · cases h

/-- The text of an exponent. -/
def Exponent.text (e : Exponent) : List Char :=
  e.mark :: e.sign.toList ++ e.digits

/-- The text of a numeral. -/
def text (n : Numeral) : List Char :=
  n.sign.toList ++ n.whole ++ (if n.fraction.isEmpty then [] else '.' :: n.fraction) ++
    n.exponent.elim [] Exponent.text

/-- Whether the numeral has a minus sign. -/
def negative (n : Numeral) : Bool :=
  n.sign == some '-'

/-- The value of a digit. -/
def digit (c : Char) : Nat :=
  c.toNat - '0'.toNat

/-- The number written by digits. -/
def natural (digits : List Char) : Nat :=
  digits.foldl (fun n c => 10 * n + digit c) 0

/-- The power of ten that an exponent stands for. -/
def Exponent.power (e : Exponent) : Int :=
  if e.sign == some '-' then -(natural e.digits : Int) else natural e.digits

/-- The double nearest to the numeral. -/
def exact (n : Numeral) : Float :=
  let power := n.exponent.elim 0 Exponent.power
  let magnitude : Decimal := ⟨natural (n.whole ++ n.fraction), power - n.fraction.length⟩
  if n.negative then -magnitude.toDouble else magnitude.toDouble

/-- The digits before the point, added up in double precision. -/
def wholePart (digits : List Char) : Float :=
  digits.foldl (fun x c => x * 10 + Float.ofNat (digit c)) 0

/-- The digits after the point, added up in double precision with factors `0.1`, `0.1 · 0.1`, … -/
def fractionPart (digits : List Char) : Float :=
  (digits.foldl (fun (x, factor) c => (x + Float.ofNat (digit c) * factor, factor * 0.1))
    ((0 : Float), (0.1 : Float))).1

/-- The value of the numeral, computed digit by digit in double precision. -/
def approximate (n : Numeral) : Float :=
  let sign : Float := if n.negative then -1 else 1
  let value := sign * (wholePart n.whole + fractionPart n.fraction)
  match n.exponent with
  | none => value
  | some e => value * (Decimal.mk 1 e.power).toDouble

/-- The integer of a numeral without fraction and exponent, moved into the range of 32 bits. -/
def integer? (n : Numeral) : Option Int :=
  if n.fraction.isEmpty && n.exponent.isNone then
    let value : Int := if n.negative then -(natural n.whole : Int) else natural n.whole
    some (max (-2147483648) (min 2147483647 value))
  else none

end Numeral

end Scss
