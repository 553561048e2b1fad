import Mathlib
import Scss.Proofs.Lexing
import Scss.Proofs.Nesting
import Scss.Value.Read

/-!
# Strings read back

A string is written in quotes, with a backslash before quotes and backslashes and all other
characters as they are.  That is enough for most characters but not for all: a line end breaks a
string off, and NUL is replaced when it is read.  So a string reads back as itself if and only if it
holds neither.

Such strings come from texts that write these characters as escapes, so what is written for a value
that was read need not be readable.

## Main results

* `Value.read_render_line`: a string on one line reads back, with NUL replaced
* `Value.read_render_brokenLine`: a string with a line end does not read back
* `Value.read_render_string`: the strings that read back as themselves
* `Value.lineEnd_breaks_string`: a string that was read, is written, and cannot be read again
-/

namespace Scss

/-! ## Strings that break off -/

namespace QuotedText

theorem escaped_append (s t : List Char) : escaped (s ++ t) = escaped s ++ escaped t :=
  List.flatMap_append

/-- A line end is written as it is. -/
theorem escaped_cons_of_isNewline {c : Char} (hc : Text.isNewline c = true) (s : List Char) :
    escaped (c :: s) = c :: escaped s := by
  -- Only quotes and backslashes are escaped, and neither ends a line.
  have hplain : (c == '"' || c == '\\') = false := by
    rw [Bool.eq_false_iff]
    intro h
    rcases Bool.or_eq_true_iff.1 h with h | h
    · rw [beq_iff_eq.1 h] at hc
      cases hc
    · rw [beq_iff_eq.1 h] at hc
      cases hc
  rw [escaped, List.flatMap_cons, hplain]
  rfl

/-- A line end breaks a string off. -/
theorem read_of_isNewline {c : Char} (hc : Text.isNewline c = true) (rest : List Char) :
    read '"' (c :: rest) = ⟨[], false, c :: rest⟩ := by
  have hquote : (c == '"') = false := by
    rw [Bool.eq_false_iff]
    intro h
    rw [beq_iff_eq.1 h] at hc
    cases hc
  rw [read]
  simp [hquote, hc]

end QuotedText

/-- What is written for a text with a line end breaks off there. -/
theorem Lexeme.readAll_brokenLine {line : List Char} (h : line.any Text.isNewline = false)
    {c : Char} (hc : Text.isNewline c = true) (more : List Char) :
    ∃ rest, readAll (quoteString (line ++ c :: more)) =
      ⟨.badString (String.ofList (line.map Text.withoutNul)), '"' :: QuotedText.escaped line⟩ ::
        readAll rest := by
  -- The string is read up to the line end, which stays for the next lexeme.
  have hwritten : quoteString (line ++ c :: more) =
      '"' :: QuotedText.escaped line ++ c :: (QuotedText.escaped more ++ ['"']) := by
    show '"' :: QuotedText.escaped (line ++ c :: more) ++ ['"'] = _
    rw [QuotedText.escaped_append, QuotedText.escaped_cons_of_isNewline hc]
    simp
  rw [hwritten]
  refine ⟨_, readAll_of_read _ ?_⟩
  show Token.readString '"' _ = _
  rw [Token.readString, QuotedText.read_escaped_append h, QuotedText.read_of_isNewline hc]
  simp [QuotedText.Result.prepend]

/-- The first line of a text, the line end after it, and the rest. -/
theorem Text.exists_of_any_isNewline {s : List Char} (h : s.any isNewline = true) :
    ∃ line c more, s = line ++ c :: more ∧ line.any isNewline = false ∧ isNewline c = true := by
  induction s with
  | nil => cases h
  | cons c s ih =>
    by_cases hc : isNewline c = true
    · exact ⟨[], c, s, rfl, rfl, hc⟩
    · rw [Bool.not_eq_true] at hc
      rw [List.any_cons, hc, Bool.false_or] at h
      obtain ⟨line, d, more, rfl, hline, hd⟩ := ih h
      exact ⟨c :: line, d, more, rfl, by rw [List.any_cons, hc, hline, Bool.or_false], hd⟩

/-! ## Values of one string -/

namespace Value

/-- The text of a string is the string in quotes. -/
theorem toList_render_string (style : Style) (s : String) :
    (style.render [.string s]).toList = quoteString s.toList := by
  rw [Style.render, String.toList_ofList]
  simp [writeAfter, Term.write]

theorem read_of_quotedString {text : String} {content : String} {source : List Char}
    (h : Lexeme.readAll text.toList = [⟨.quotedString content, source⟩]) :
    Value.read text = .ok [.string content] := by
  have hcomponents : Component.read text = [.leaf ⟨.quotedString content, source⟩] := by
    rw [Component.read, h]
    rfl
  rw [Value.read, hcomponents]
  rfl

theorem read_of_badString {text : String} {content : String} {source : List Char}
    {more : List Lexeme}
    (h : Lexeme.readAll text.toList = ⟨.badString content, source⟩ :: more) :
    Value.read text =
      .error ⟨Position.start.advance source, .unexpected (.badString content)⟩ := by
  have hcomponents : Component.read text =
      .leaf ⟨.badString content, source⟩ :: Component.ofLexemes more := by
    rw [Component.read, h, Component.ofLexemes_cons rfl]
  rw [Value.read, hcomponents]
  rfl

variable (style : Style) {s : String}

/-- The lexemes of a string on one line. -/
theorem readAll_render_line (h : s.toList.any Text.isNewline = false) :
    Lexeme.readAll (style.render [.string s]).toList =
      [⟨.quotedString (String.ofList (s.toList.map Text.withoutNul)), quoteString s.toList⟩] := by
  rw [toList_render_string, ← List.append_nil (quoteString _), Lexeme.readAll_line h,
    Lexeme.readAll, List.append_nil]

/-- A string on one line reads back, with NUL replaced. -/
theorem read_render_line (h : s.toList.any Text.isNewline = false) :
    Value.read (style.render [.string s]) =
      .ok [.string (String.ofList (s.toList.map Text.withoutNul))] :=
  read_of_quotedString (readAll_render_line style h)

/-- The lexemes of a string with a line end start with a string that breaks off. -/
theorem readAll_render_brokenLine (h : s.toList.any Text.isNewline = true) :
    ∃ content source more, Lexeme.readAll (style.render [.string s]).toList =
      ⟨.badString content, source⟩ :: more := by
  obtain ⟨line, c, more, hs, hline, hc⟩ := Text.exists_of_any_isNewline h
  obtain ⟨rest, hread⟩ := Lexeme.readAll_brokenLine hline hc more
  rw [toList_render_string, hs, hread]
  exact ⟨_, _, _, rfl⟩

/-- A string with a line end does not read back. -/
theorem read_render_brokenLine (h : s.toList.any Text.isNewline = true) :
    ∃ p content, Value.read (style.render [.string s]) =
      .error ⟨p, .unexpected (.badString content)⟩ := by
  obtain ⟨content, source, more, hread⟩ := readAll_render_brokenLine style h
  exact ⟨_, content, read_of_badString hread⟩

/-- A text on one line is unbroken if it stays as it is when NUL is replaced. -/
theorem isUnbroken_iff_of_line (h : s.toList.any Text.isNewline = false) :
    Text.isUnbroken s.toList = true ↔ String.ofList (s.toList.map Text.withoutNul) = s := by
  rw [Text.isUnbroken_iff, and_iff_right h]
  constructor
  · intro hnul
    rw [hnul, String.ofList_toList]
  · intro hs
    calc s.toList.map Text.withoutNul
        = (String.ofList (s.toList.map Text.withoutNul)).toList := String.toList_ofList.symm
      _ = s.toList := by rw [hs]

/-- **The strings that read back.**  In both styles, the text of a string is one string token with
the string as its content, and is read as the string, if and only if the string holds no line end
and no NUL. -/
theorem read_render_string (style : Style) (s : String) :
    ((Lexeme.readAll (style.render [.string s]).toList).map Lexeme.token = [.quotedString s] ↔
      Text.isUnbroken s.toList = true) ∧
    (Value.read (style.render [.string s]) = .ok [.string s] ↔
      Text.isUnbroken s.toList = true) := by
  cases hline : s.toList.any Text.isNewline with
  | false =>
    rw [isUnbroken_iff_of_line hline, readAll_render_line style hline, read_render_line style hline]
    constructor
    · simp
    · simp
  | true =>
    have hbroken : Text.isUnbroken s.toList = false := by
      rw [Bool.eq_false_iff]
      intro h
      rw [(Text.isUnbroken_iff.1 h).1] at hline
      cases hline
    obtain ⟨content, source, more, hlexemes⟩ := readAll_render_brokenLine style hline
    obtain ⟨p, content', hread⟩ := read_render_brokenLine style hline
    rw [hbroken, hlexemes, hread]
    constructor
    · simp
    · simp

/-- A line end that is written as an escape is read into a string, and neither of the two texts of
that string can be read. -/
theorem lineEnd_breaks_string :
    Value.read "\"a\\a b\"" = .ok [.string "a\nb"] ∧
    Value.read (Style.diagnostic.render [.string "a\nb"]) ≠ .ok [.string "a\nb"] ∧
    Value.read ((Style.canonical 5).render [.string "a\nb"]) ≠ .ok [.string "a\nb"] := by
  have hbroken : ∀ style : Style,
      Value.read (style.render [.string "a\nb"]) ≠ .ok [.string "a\nb"] := by
    intro style hread
    obtain ⟨p, content, herror⟩ := read_render_brokenLine style (s := "a\nb") (by decide)
    rw [hread] at herror
    cases herror
  have hescaped : Lexeme.readAll "\"a\\a b\"".toList =
      [⟨.quotedString "a\nb", "\"a\\a b\"".toList⟩] := by
    cbv
  exact ⟨read_of_quotedString hescaped, hbroken _, hbroken _⟩

end Value

end Scss
