import Scss.Text.Blank
import Scss.Text.Hex

/-!
# Names and escapes

A name consists of ASCII letters, digits, `_`, `-`, characters outside ASCII, and escapes.  An
escape is a backslash with one to six hexadecimal digits and a blank, or with any other character
but a line end.  NUL is read as the replacement character.

## Main definitions

* `Escape.read`: the character of an escape, after its backslash;
* `Name.starts`: whether a name starts a text;
* `Name.read`: the name at the start of a text.

## Main results

* `Escape.suffix_read`, `Name.suffix_read`: what follows is an end of the text;
* `Name.suffix_read_of_starts`: a name takes at least one character.
-/

namespace Scss

/-- The replacement character U+FFFD. -/
def replacementChar : Char := '\ufffd'

/-- Whether `c` is whitespace in a stylesheet. -/
def isSpace (c : Char) : Bool :=
  c == ' ' || c == '\t' || Text.isNewline c

/-- Whether a line end stands at the start. -/
def startsNewline : List Char → Bool
  | c :: _ => Text.isNewline c
  | [] => false

/-- Drops one line end; a carriage return with a line feed is one. -/
def dropNewline : List Char → List Char
  | '\r' :: '\n' :: rest => rest
  | c :: rest => if Text.isNewline c then rest else c :: rest
  | [] => []

/-- Drops one blank or line end. -/
def dropSpace : List Char → List Char
  | c :: rest => if c == ' ' || c == '\t' then rest else dropNewline (c :: rest)
  | [] => []

namespace Escape

/-- The character with a given code point; zero and what is no character are replaced. -/
def ofCodePoint (n : Nat) : Char :=
  if n ≠ 0 ∧ n.isValidChar then Char.ofNat n else replacementChar

/-- The hexadecimal digits of an escape, at most six. -/
def digits (s : List Char) : List Char :=
  (s.take 6).takeWhile Hex.isDigit

/-- The character of the escape that `s` continues, and what follows it. -/
def read (s : List Char) : Char × List Char :=
  match s with
  | [] => (replacementChar, [])
  | c :: rest =>
    if Hex.isDigit c then
      let ds := digits s
      (ofCodePoint (Hex.number ds), dropSpace (s.drop ds.length))
    else if c == '\x00' then (replacementChar, rest)
    else (c, rest)

end Escape

theorem suffix_dropNewline (s : List Char) : dropNewline s <:+ s := by
  unfold dropNewline
  split
  · exact List.suffix_append ['\r', '\n'] _
  · split
    · exact List.suffix_cons _ _
    · exact List.suffix_rfl
  · exact List.suffix_rfl

theorem suffix_dropSpace (s : List Char) : dropSpace s <:+ s := by
  unfold dropSpace
  split
  · split
    · exact List.suffix_cons _ _
    · exact suffix_dropNewline _
  · exact List.suffix_rfl

theorem Escape.suffix_read (s : List Char) : (Escape.read s).2 <:+ s := by
  unfold Escape.read
  split
  · exact List.suffix_rfl
  · split
    · exact (suffix_dropSpace _).trans (List.drop_suffix _ _)
    · split <;> exact List.suffix_cons _ _

theorem length_dropNewline (s : List Char) : (dropNewline s).length ≤ s.length :=
  (suffix_dropNewline s).length_le

theorem Escape.length_read (s : List Char) : (Escape.read s).2.length ≤ s.length :=
  (Escape.suffix_read s).length_le

namespace Name

/-- Whether `c` is a name character as it stands. -/
def isChar (c : Char) : Bool :=
  c.isAlphanum || c == '_' || c == '-' || 0x80 ≤ c.toNat

/-- Whether `c` can start a name as it stands. -/
def isStart (c : Char) : Bool :=
  c.isAlpha || c == '_' || c == '\x00' || 0x80 ≤ c.toNat

/-- Whether a name starts the text.  After a `-`, a second `-` or any backslash counts. -/
def starts : List Char → Bool
  | '-' :: c :: _ => isStart c || c == '-' || c == '\\'
  | '\\' :: rest => !startsNewline rest
  | c :: _ => isStart c
  | [] => false

/-- Reads name characters: the name they spell, and what follows it. -/
def read (s : List Char) : List Char × List Char :=
  match s with
  | [] => ([], [])
  | c :: rest =>
    if c == '\\' then
      if startsNewline rest then ([], s)
      else
        have := Escape.length_read rest
        let (name, final) := read (Escape.read rest).2
        ((Escape.read rest).1 :: name, final)
    else if c == '\x00' then
      let (name, final) := read rest
      (replacementChar :: name, final)
    else if isChar c then
      let (name, final) := read rest
      (c :: name, final)
    else ([], s)
termination_by s.length

theorem suffix_read (s : List Char) : (read s).2 <:+ s := by
  fun_induction read s with
  | case1 => exact List.suffix_rfl
  | case2 => exact List.suffix_rfl
  | case3 c rest _ _ _ name final heq ih =>
    rw [heq] at ih
    exact (ih.trans (Escape.suffix_read rest)).trans (List.suffix_cons c rest)
  | case4 c rest _ _ name final heq ih =>
    rw [heq] at ih
    exact ih.trans (List.suffix_cons c rest)
  | case5 c rest _ _ _ name final heq ih =>
    rw [heq] at ih
    exact ih.trans (List.suffix_cons c rest)
  | case6 => exact List.suffix_rfl

theorem isChar_of_isStart {c : Char} (h : isStart c = true) (hzero : c ≠ '\x00') :
    isChar c = true := by
  simp only [isStart, isChar, Char.isAlphanum, Bool.or_eq_true, beq_iff_eq] at h ⊢
  rcases h with ((halpha | hunderscore) | hnull) | hwide
  · exact .inl (.inl (.inl (.inl halpha)))
  · exact .inl (.inl (.inr hunderscore))
  · exact absurd hnull hzero
  · exact .inr hwide

/-- What a name starts with is a name character, unless it is an escape or NUL. -/
theorem isChar_of_starts {c : Char} {rest : List Char} (h : starts (c :: rest) = true)
    (hslash : c ≠ '\\') (hzero : c ≠ '\x00') : isChar c = true := by
  unfold starts at h
  split at h
  · rename_i heq
    rw [(List.cons.inj heq).1]
    rfl
  · rename_i heq
    exact absurd (List.cons.inj heq).1 hslash
  · rename_i heq
    rw [← (List.cons.inj heq).1] at h
    exact isChar_of_isStart h hzero
  · cases h

/-- A name takes at least one character. -/
theorem suffix_read_of_starts {c : Char} {rest : List Char} (h : starts (c :: rest) = true) :
    (read (c :: rest)).2 <:+ rest := by
  rw [read]
  -- An escaped line end or a character of no name stops the reader; a name starts with neither.
  by_cases hslash : c = '\\'
  · have hline : startsNewline rest = false := by
      rw [hslash] at h
      simpa [starts] using h
    rw [if_pos (beq_iff_eq.2 hslash), if_neg (Bool.eq_false_iff.1 hline)]
    exact (suffix_read _).trans (Escape.suffix_read rest)
  · rw [if_neg (mt beq_iff_eq.1 hslash)]
    by_cases hzero : c = '\x00'
    · rw [if_pos (beq_iff_eq.2 hzero)]
      exact suffix_read rest
    · rw [if_neg (mt beq_iff_eq.1 hzero), if_pos (isChar_of_starts h hslash hzero)]
      exact suffix_read rest

end Name

end Scss
