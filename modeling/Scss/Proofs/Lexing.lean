import Scss.Token.Lexeme
import Scss.Value.Style

/-!
# Reading what was written

The token at the start of a text is known as soon as it is known where it ends.  A word ends before
a space, a comma or a parenthesis, a sign before a space, a comma or a closing parenthesis, and a
string with its quote.  Each lemma gives the lexeme of one kind of text and what follows it.

## Main definitions

* `Word.starts`, `Word.continues`, `Word.spells`: the characters of plain words
* `Text.isUnbroken`: text that a string may hold as it is
* `QuotedText.escaped`: what is written between the quotes of a string
* `EndsTerm`, `EndsName`: what may follow a written term, and a name

## Main results

* `Name.read_word`: a plain word is read as a name
* `QuotedText.read_escaped_append`: what is written for a line is read as the line
* `Lexeme.readAll_word`, `Lexeme.readAll_function`, `Lexeme.readAll_line`, `Lexeme.readAll_sign`,
  `Lexeme.readAll_dollar`, `Lexeme.readAll_space`: the lexemes of written terms
-/

namespace Scss

/-! ## Plain words -/

namespace Word

/-- Whether `c` may start a plain word: an ASCII letter or `_`. -/
def starts (c : Char) : Bool :=
  c.isAlpha || c == '_'

/-- Whether `c` may continue a plain word: a letter, a digit, `-` or `_`.  All characters outside
ASCII count as letters. -/
def continues (c : Char) : Bool :=
  c.isAlphanum || c == '-' || c == '_' || 0x80 ≤ c.toNat

/-- Whether the characters spell a plain word. -/
def spells : List Char → Bool
  | [] => false
  | c :: rest => starts c && rest.all continues

theorem ne_of_starts {c : Char} (h : starts c = true) (other : Char)
    (hother : starts other = false) : c ≠ other := by
  rintro rfl
  rw [h] at hother
  cases hother

theorem ne_of_continues {c : Char} (h : continues c = true) (other : Char)
    (hother : continues other = false) : c ≠ other := by
  rintro rfl
  rw [h] at hother
  cases hother

theorem isDigit_of_starts {c : Char} (h : starts c = true) : c.isDigit = false := by
  rw [Bool.eq_false_iff]
  intro hdigit
  -- The digits end before the letters start.
  have hnine : c.val.toNat ≤ 57 := by
    have hbound : decide (c.val ≤ '9'.val) = true := (Bool.and_eq_true_iff.1 hdigit).2
    exact UInt32.le_iff_toNat_le.1 (of_decide_eq_true hbound)
  rcases Bool.or_eq_true_iff.1 h with hletter | hunderscore
  · rcases Bool.or_eq_true_iff.1 hletter with hupper | hlower
    · have hA : 65 ≤ c.val.toNat := UInt32.le_iff_toNat_le.1 (of_decide_eq_true hupper).1
      omega
    · have hbound : decide (c.val ≥ 'a'.val) = true := (Bool.and_eq_true_iff.1 hlower).1
      have ha : 97 ≤ c.val.toNat := UInt32.le_iff_toNat_le.1 (of_decide_eq_true hbound)
      omega
  · rw [beq_iff_eq.1 hunderscore] at hdigit
    cases hdigit

theorem isSpace_of_starts {c : Char} (h : starts c = true) : isSpace c = false := by
  have hspace := ne_of_starts h ' ' rfl
  have htab := ne_of_starts h '\t' rfl
  have hline := ne_of_starts h '\n' rfl
  have hreturn := ne_of_starts h '\r' rfl
  have hfeed := ne_of_starts h '\x0c' rfl
  simp [isSpace, Text.isNewline, *]

/-- A plain word does not start with a space. -/
theorem head_of_spells {word : List Char} (h : spells word = true) (rest : List Char) :
    (word ++ rest).head?.any isSpace = false := by
  cases word with
  | nil => cases h
  | cons c word =>
    have hc : starts c = true := (Bool.and_eq_true_iff.1 h).1
    simpa using isSpace_of_starts hc

theorem continues_of_starts {c : Char} (h : starts c = true) : continues c = true := by
  simp only [starts, Bool.or_eq_true] at h
  rcases h with h | h <;> simp [continues, Char.isAlphanum, h]

theorem isChar_of_continues {c : Char} (h : continues c = true) : Name.isChar c = true := by
  simp only [continues, Bool.or_eq_true] at h
  rcases h with ((h | h) | h) | h <;> simp [Name.isChar, h]

end Word

/-! ## Where terms end -/

/-- The text is over, or a space, a comma or a closing parenthesis comes next. -/
def EndsTerm (s : List Char) : Prop :=
  ∀ c ∈ s.head?, c = ' ' ∨ c = ',' ∨ c = ')'

/-- The text is over, or a space, a comma or a parenthesis comes next. -/
def EndsName (s : List Char) : Prop :=
  ∀ c ∈ s.head?, c = '(' ∨ c = ' ' ∨ c = ',' ∨ c = ')'

theorem EndsTerm.endsName {s : List Char} (h : EndsTerm s) : EndsName s :=
  fun c hc => .inr (h c hc)

/-! ## Names and strings -/

theorem Name.read_of_endsName {s : List Char} (h : EndsName s) : Name.read s = ([], s) := by
  cases s with
  | nil => rw [Name.read]
  | cons c rest =>
    rw [Name.read]
    rcases h c rfl with rfl | rfl | rfl | rfl <;> rfl

/-- A plain word is read to its end. -/
theorem Name.read_word {word rest : List Char} (hword : word.all Word.continues = true)
    (hrest : EndsName rest) : Name.read (word ++ rest) = (word, rest) := by
  induction word with
  | nil => exact read_of_endsName hrest
  | cons c word ih =>
    obtain ⟨hc, hword⟩ := Bool.and_eq_true_iff.1 (List.all_cons.symm.trans hword)
    have hslash := Word.ne_of_continues hc '\\' rfl
    have hnul := Word.ne_of_continues hc '\x00' rfl
    rw [List.cons_append, Name.read]
    simp [hslash, hnul, Word.isChar_of_continues hc, ih hword]

/-- After a backslash, a character that is neither a hexadecimal digit nor NUL stands for itself. -/
theorem Escape.read_self {c : Char} (hhex : Hex.isDigit c = false) (hnul : (c == '\x00') = false)
    (rest : List Char) : Escape.read (c :: rest) = (c, rest) := by
  simp [Escape.read, hhex, hnul]

/-- Whether the text holds no line end and no NUL. -/
def Text.isUnbroken (s : List Char) : Bool :=
  s.all fun c => !(isNewline c || c == '\x00')

/-- The character as a string holds it when it is read: NUL is replaced. -/
def Text.withoutNul (c : Char) : Char :=
  if c == '\x00' then replacementChar else c

theorem Text.withoutNul_eq_self_iff {c : Char} : withoutNul c = c ↔ (c == '\x00') = false := by
  unfold withoutNul
  split
  · rename_i hnul
    rw [beq_iff_eq.1 hnul]
    decide
  · rename_i hnul
    simp [hnul]

/-- An unbroken text is one that stays as it is when NUL is replaced, on one line. -/
theorem Text.isUnbroken_iff {s : List Char} :
    isUnbroken s = true ↔ s.any isNewline = false ∧ s.map withoutNul = s := by
  induction s with
  | nil => simp [isUnbroken]
  | cons c s ih =>
    rw [List.map_cons, List.cons.injEq, withoutNul_eq_self_iff, List.any_cons,
      Bool.or_eq_false_iff, isUnbroken, List.all_cons, Bool.and_eq_true, Bool.not_eq_true',
      Bool.or_eq_false_iff]
    exact ⟨fun ⟨hc, hs⟩ => ⟨⟨hc.1, (ih.1 hs).1⟩, hc.2, (ih.1 hs).2⟩,
      fun ⟨hline, hnul⟩ => ⟨⟨hline.1, hnul.1⟩, ih.2 ⟨hline.2, hnul.2⟩⟩⟩

namespace QuotedText

/-- What is written between the quotes of a string. -/
def escaped (text : List Char) : List Char :=
  text.flatMap fun c => if c == '"' || c == '\\' then ['\\', c] else [c]

/-- Puts some text in front. -/
def Result.prepend (text : List Char) (r : Result) : Result :=
  { r with text := text ++ r.text }

/-- What is written for a text without line ends is read as the text, with NUL replaced, and the
string goes on after it. -/
theorem read_escaped_append {line : List Char} (h : line.any Text.isNewline = false)
    (s : List Char) :
    read '"' (escaped line ++ s) = (read '"' s).prepend (line.map Text.withoutNul) := by
  induction line with
  | nil => rfl
  | cons c line ih =>
    obtain ⟨hc, hline⟩ := Bool.or_eq_false_iff.1 (List.any_cons.symm.trans h)
    have hstep : read '"' (escaped (c :: line) ++ s) =
        (read '"' (escaped line ++ s)).cons (Text.withoutNul c) := by
      rw [escaped, List.flatMap_cons, List.append_assoc, ← escaped]
      by_cases hescape : (c == '"' || c == '\\') = true
      · -- The character stands after a backslash and is no hexadecimal digit.
        have hplain : Hex.isDigit c = false ∧ (c == '\x00') = false := by
          rcases (Bool.or_eq_true _ _).mp hescape with hq | hq <;>
            · rw [beq_iff_eq.1 hq]
              exact ⟨rfl, rfl⟩
        rw [if_pos hescape, List.cons_append, List.cons_append, List.nil_append, read,
          Text.withoutNul_eq_self_iff.2 hplain.2]
        simp only [Escape.read_self hplain.1 hplain.2, startsNewline, hc]
        rfl
      · obtain ⟨hquote, hslash⟩ := Bool.or_eq_false_iff.1 (Bool.eq_false_iff.2 hescape)
        rw [if_neg hescape, List.cons_append, List.nil_append, read, Text.withoutNul]
        simp only [hquote, hslash, hc, Bool.false_eq_true, if_false]
        split <;> rfl
    rw [hstep, ih hline]
    rfl

theorem read_quote (rest : List Char) : read '"' ('"' :: rest) = ⟨[], true, rest⟩ := by
  rw [read]
  rfl

end QuotedText

/-! ## Tokens -/

namespace Token

/-- What starts with the first character of a word is read as a name. -/
theorem read_of_starts {c : Char} (h : Word.starts c = true) (rest : List Char) :
    Token.read c rest = readName (c :: rest) := by
  have hplus := Word.ne_of_starts h '+' rfl
  have hminus := Word.ne_of_starts h '-' rfl
  have hpoint := Word.ne_of_starts h '.' rfl
  have hslash := Word.ne_of_starts h '\\' rfl
  have hquote : isQuote c = false := by
    have hdouble := Word.ne_of_starts h '"' rfl
    have hsingle := Word.ne_of_starts h '\x27' rfl
    simp [isQuote, hdouble, hsingle]
  have hnumeral : Numeral.starts (c :: rest) = false := by
    simp [Numeral.starts, Numeral.scanSign, Numeral.isSign, hplus, hminus, Numeral.startsDigits,
      hpoint, Word.isDigit_of_starts h]
  have hname : Name.starts (c :: rest) = true := by
    have hstart : Name.isStart c = true := by
      simp only [Word.starts, Bool.or_eq_true] at h
      rcases h with h | h <;> simp [Name.isStart, h]
    unfold Name.starts
    split
    · rename_i heq
      exact absurd (List.cons.inj heq).1 hminus
    · rename_i heq
      exact absurd (List.cons.inj heq).1 hslash
    · rename_i heq
      rwa [← (List.cons.inj heq).1]
    · rename_i heq
      cases heq
  simp [Token.read, Word.isSpace_of_starts h, hquote, hnumeral, Ne.symm hminus, hname]

theorem read_sign {c : Char} {rest : List Char} (hc : c = '+' ∨ c = '-' ∨ c = '*')
    (hrest : EndsTerm rest) : Token.read c rest = (.delim c, rest) := by
  cases rest with
  | nil => rcases hc with rfl | rfl | rfl <;> rfl
  | cons d rest =>
    rcases hrest d rfl with rfl | rfl | rfl <;> rcases hc with rfl | rfl | rfl <;> rfl

theorem read_dollar {c : Char} (h : Word.starts c = true) (rest : List Char) :
    Token.read '$' (c :: rest) = (.delim '$', c :: rest) := by
  have hequals := Word.ne_of_starts h '=' rfl
  show readMark '$' (c :: rest) = _
  simp [readMark, hequals]

end Token

namespace Lexeme

/-- A lexeme is its token with the text in front of the rest. -/
theorem readAll_of_read {c : Char} {rest : List Char} {token : Token} (source : List Char)
    (h : Token.read c (source ++ rest) = (token, rest)) :
    readAll (c :: source ++ rest) = ⟨token, c :: source⟩ :: readAll rest := by
  have htake : (c :: (source ++ rest)).take ((c :: (source ++ rest)).length - rest.length) =
      c :: source := by
    rw [← List.cons_append, List.length_append, Nat.add_sub_cancel, List.take_left]
  rw [List.cons_append, readAll]
  simp only [h, htake]

/-- A space is one lexeme, if no other one follows. -/
theorem readAll_space {rest : List Char} (h : rest.head?.any isSpace = false) :
    readAll (' ' :: rest) = ⟨.whitespace " ", [' ']⟩ :: readAll rest := by
  refine readAll_of_read [] ?_
  cases rest with
  | nil => rfl
  | cons c rest =>
    have hc : isSpace c = false := by simpa using h
    have hblank : isSpace ' ' = true := rfl
    simp [Token.read, hblank, hc]

theorem readAll_word {word rest : List Char} (hword : Word.spells word = true)
    (hrest : EndsTerm rest) :
    readAll (word ++ rest) = ⟨.ident (String.ofList word), word⟩ :: readAll rest := by
  cases word with
  | nil => cases hword
  | cons c word =>
    obtain ⟨hc, hall⟩ := Bool.and_eq_true_iff.1 hword
    refine readAll_of_read _ ?_
    have hname : Name.read (c :: word ++ rest) = (c :: word, rest) :=
      Name.read_word (by simp [Word.continues_of_starts hc, hall]) hrest.endsName
    rw [Token.read_of_starts hc, Token.readName, ← List.cons_append, hname]
    -- No parenthesis follows.
    cases rest with
    | nil => rfl
    | cons d rest => rcases hrest d rfl with rfl | rfl | rfl <;> rfl

theorem readAll_function {word : List Char} (hword : Word.spells word = true)
    (hurl : word.map Char.toLower ≠ ['u', 'r', 'l']) (rest : List Char) :
    readAll (word ++ '(' :: rest) =
      ⟨.function (String.ofList word), word ++ ['(']⟩ :: readAll rest := by
  cases word with
  | nil => cases hword
  | cons c word =>
    obtain ⟨hc, hall⟩ := Bool.and_eq_true_iff.1 hword
    have hends : EndsName ('(' :: rest) := fun d hd => .inl (by simpa using hd.symm)
    have hname : Name.read (c :: word ++ '(' :: rest) = (c :: word, '(' :: rest) :=
      Name.read_word (by simp [Word.continues_of_starts hc, hall]) hends
    have hread : Token.read c (word ++ ['('] ++ rest) =
        (.function (String.ofList (c :: word)), rest) := by
      rw [Token.read_of_starts hc, Token.readName, List.append_assoc, ← List.cons_append,
        List.singleton_append, hname, Token.readParen]
      -- Only after `url` could the parenthesis open something else than a call.
      rw [if_neg (by simpa only [beq_iff_eq] using hurl)]
    simpa using readAll_of_read _ hread

/-- What is written for a text without line ends is one string, with NUL replaced. -/
theorem readAll_line {line : List Char} (h : line.any Text.isNewline = false) (rest : List Char) :
    readAll (quoteString line ++ rest) =
      ⟨.quotedString (String.ofList (line.map Text.withoutNul)), quoteString line⟩ ::
        readAll rest := by
  have hread : Token.read '"' (QuotedText.escaped line ++ ['"'] ++ rest) =
      (.quotedString (String.ofList (line.map Text.withoutNul)), rest) := by
    show Token.readString '"' _ = _
    rw [List.append_assoc, List.singleton_append, Token.readString,
      QuotedText.read_escaped_append h, QuotedText.read_quote]
    simp [QuotedText.Result.prepend]
  exact readAll_of_read _ hread

theorem readAll_string {text : List Char} (h : Text.isUnbroken text = true) (rest : List Char) :
    readAll (quoteString text ++ rest) =
      ⟨.quotedString (String.ofList text), quoteString text⟩ :: readAll rest := by
  obtain ⟨hline, hnul⟩ := Text.isUnbroken_iff.1 h
  rw [readAll_line hline, hnul]

theorem readAll_sign {c : Char} {rest : List Char} (hc : c = '+' ∨ c = '-' ∨ c = '*')
    (hrest : EndsTerm rest) : readAll (c :: rest) = ⟨.delim c, [c]⟩ :: readAll rest :=
  readAll_of_read [] (Token.read_sign hc hrest)

theorem readAll_comma (rest : List Char) :
    readAll (',' :: rest) = ⟨.comma, [',']⟩ :: readAll rest :=
  readAll_of_read [] rfl

theorem readAll_open (rest : List Char) :
    readAll ('(' :: rest) = ⟨.opening .round, ['(']⟩ :: readAll rest :=
  readAll_of_read [] rfl

theorem readAll_close (rest : List Char) :
    readAll (')' :: rest) = ⟨.closing .round, [')']⟩ :: readAll rest :=
  readAll_of_read [] rfl

theorem readAll_dollar {word : List Char} (hword : Word.spells word = true) (rest : List Char) :
    readAll ('$' :: (word ++ rest)) = ⟨.delim '$', ['$']⟩ :: readAll (word ++ rest) := by
  cases word with
  | nil => cases hword
  | cons c word =>
    have hc : Word.starts c = true := (Bool.and_eq_true_iff.1 hword).1
    exact readAll_of_read [] (Token.read_dollar hc (word ++ rest))

end Lexeme

end Scss
