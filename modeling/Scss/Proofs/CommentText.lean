import Scss.Proofs.SourceText

/-!
# Comments in a text

A comment runs from `/*` to the first `*/` after it, or to the end of the text.  Whether the
components of a text start with a comment, after whitespace, can be told from its characters: only a
space starts whitespace and only `/*` starts a comment.

## Main definitions

* `Token.isOther`: a token that is neither whitespace nor a comment nor a semicolon
* `Comment.Spans`: the content of a comment, up to its mark or to the end of the text
* `Comment.Trails`: a text that starts with blanks and a comment

## Main results

* `Token.read_cases`: what whitespace, comments and semicolons start with
* `Comment.spans_iff`: a comment is read to its first closing mark
* `Component.leadingComment_eq_some_iff`: the comment at the start of a text
-/

namespace Scss

/-! ## The first character of a token -/

namespace Token

/-- Whether the token is neither whitespace nor a comment nor a semicolon. -/
def isOther : Token → Bool
  | .whitespace _ | .comment _ | .semicolon => false
  | _ => true

theorem isOther_readUnit (n : Numeral) (s : List Char) : (readUnit n s).1.isOther = true := by
  unfold readUnit
  split
  · rfl
  · dsimp only
    split
    · rfl
    · rfl

theorem isOther_readUrl (name : String) (s : List Char) : (readUrl name s).1.isOther = true := by
  unfold readUrl
  dsimp only
  split
  · rfl
  · split
    · rfl
    · rfl

theorem isOther_readName (s : List Char) : (readName s).1.isOther = true := by
  unfold readName readParen
  dsimp only
  split
  · split
    · exact isOther_readUrl _ _
    · rfl
  · rfl

theorem isOther_readString (quote : Char) (s : List Char) :
    (readString quote s).1.isOther = true := by
  unfold readString
  dsimp only
  split
  · rfl
  · rfl

/-- A mark is a comment only if it starts with `/*`, and a semicolon only if it is one. -/
theorem readMark_cases (c : Char) (rest : List Char) :
    (∃ s, c = '/' ∧ rest = '*' :: s) ∨ c = ';' ∨ (readMark c rest).1.isOther = true := by
  unfold readMark
  split
  · refine .inr (.inr ?_)
    unfold readHash
    dsimp only
    split
    · rfl
    · split
      · rfl
      · rfl
  · refine .inr (.inr ?_)
    unfold readAt
    dsimp only
    split
    · rfl
    · rfl
  · exact .inl ⟨_, rfl, rfl⟩
  -- The other marks are tokens of their own, the semicolon among them.
  all_goals simp [isOther]

theorem read_of_isSpace {c : Char} (h : isSpace c = true) (rest : List Char) :
    read c rest =
      (.whitespace (String.ofList (c :: rest.takeWhile isSpace)), rest.dropWhile isSpace) :=
  if_pos h

theorem read_slashStar (s : List Char) :
    read '/' ('*' :: s) = (.comment (String.ofList (Comment.read s).1), (Comment.read s).2) :=
  rfl

theorem read_semicolon (rest : List Char) : read ';' rest = (.semicolon, rest) :=
  rfl

/-- A token starts with a space, with `/*` or with a semicolon, or it is none of those that do. -/
theorem read_cases (c : Char) (rest : List Char) :
    isSpace c = true ∨ (∃ s, c = '/' ∧ rest = '*' :: s) ∨ c = ';' ∨
      (read c rest).1.isOther = true := by
  by_cases hspace : isSpace c = true
  · exact .inl hspace
  · unfold read
    rw [if_neg hspace]
    right
    split
    · exact .inr (.inr (isOther_readString c rest))
    · split
      · exact .inr (.inr (isOther_readUnit _ _))
      · split
        · exact .inr (.inr rfl)
        · split
          · exact .inr (.inr (isOther_readName _))
          · exact readMark_cases c rest

end Token

/-- A semicolon among the lexemes of a text is that character. -/
theorem Lexeme.source_of_semicolon {s : List Char} {l : Lexeme} (hl : l ∈ readAll s)
    (h : l.token = .semicolon) : l.source = [';'] := by
  fun_induction readAll s with
  | case1 => cases hl
  | case2 c rest hlength after ih =>
    rcases List.mem_cons.1 hl with rfl | hl
    · have hfirst : c = ';' := by
        rcases Token.read_cases c rest with hc | ⟨s, rfl, rfl⟩ | rfl | hc
        · rw [Token.read_of_isSpace hc] at h
          cases h
        · cases h
        · rfl
        · dsimp only at h
          rw [h] at hc
          cases hc
      subst hfirst
      dsimp only [after]
      rw [Token.read_semicolon]
      simp
    · exact ih hl

/-- A semicolon among the components of a text is that character. -/
theorem Component.source_of_semicolon {text : String} {c : Component}
    (hc : c ∈ Component.read text) (h : c.token = .semicolon) : c.source = [';'] := by
  obtain ⟨before, rest, hread⟩ := List.append_of_mem hc
  obtain ⟨ms, ns, hlexemes, hns⟩ := ofLexemes_of_append hread
  obtain ⟨l, inside, ns', rfl, htoken, -, hleaf⟩ := ofLexemes_eq_cons hns.symm
  have hl : l ∈ Lexeme.readAll text.toList := by simp [hlexemes]
  rw [htoken] at h
  rw [hleaf (by rw [h]; rfl), Component.source]
  exact Lexeme.source_of_semicolon hl h

/-! ## The content of a comment -/

namespace Comment

variable {content s : List Char}

/-- The text after the opening mark of a comment with the given content: what closes the comment is
the first closing mark, or the end of the text. -/
inductive Spans (content : List Char) : List Char → Prop
  | closed (h : ¬['*', '/'] <:+: content) (after : List Char) :
    Spans content (content ++ '*' :: '/' :: after)
  | unclosed (h : ¬['*', '/'] <:+: content) : Spans content content

theorem Spans.cons {c : Char} (h : Spans content s) (hmark : c = '*' → s.head? ≠ some '/') :
    Spans (c :: content) (c :: s) := by
  have hbody : ¬['*', '/'] <:+: content → ¬['*', '/'] <:+: c :: content := by
    intro hcontent hinfix
    rcases List.infix_cons_iff.1 hinfix with hprefix | hinfix
    · obtain ⟨rest, hrest⟩ := hprefix
      obtain ⟨rfl, rfl⟩ := List.cons.inj hrest
      cases h with
      | closed _ after => exact hmark rfl rfl
      | unclosed _ => exact hmark rfl rfl
    · exact hcontent hinfix
  cases h with
  | closed hcontent after => exact .closed (hbody hcontent) after
  | unclosed hcontent => exact .unclosed (hbody hcontent)

theorem spans_read (s : List Char) : Spans (read s).1 s := by
  fun_induction read s with
  | case1 => exact .unclosed (by simp)
  | case2 rest => exact .closed (by simp) rest
  | case3 c rest hmark text after heq ih =>
    rw [heq] at ih
    refine ih.cons ?_
    rintro rfl hhead
    obtain ⟨rest', rfl⟩ := List.head?_eq_some_iff.1 hhead
    exact hmark rest' rfl rfl

theorem read_cons {c : Char} (hmark : c = '*' → s.head? ≠ some '/') :
    read (c :: s) = (c :: (read s).1, (read s).2) := by
  rw [read]
  rintro rest rfl rfl
  exact hmark rfl rfl

/-- Content without a closing mark is read on into what follows it. -/
theorem read_append {more : List Char} (h : ¬['*', '/'] <:+: content)
    (hmore : more.head? ≠ some '/') :
    read (content ++ more) = (content ++ (read more).1, (read more).2) := by
  induction content with
  | nil => rfl
  | cons c content ih =>
    -- A star at the end of the content would need a slash at the start of `more`.
    have hmark : c = '*' → (content ++ more).head? ≠ some '/' := by
      rintro rfl hhead
      cases content with
      | nil => exact hmore hhead
      | cons d content =>
        obtain rfl : d = '/' := Option.some.inj hhead
        exact h ⟨[], content, rfl⟩
    rw [List.cons_append, read_cons hmark, ih fun hinfix => h (List.infix_cons hinfix)]
    rfl

/-- A comment is read to its first closing mark. -/
theorem spans_iff : Spans content s ↔ (read s).1 = content := by
  constructor
  · intro h
    cases h with
    | closed h after =>
      rw [read_append h (by simp)]
      exact List.append_nil content
    | unclosed h =>
      have hread : read (content ++ []) = _ := read_append h (by simp)
      rw [List.append_nil] at hread
      rw [hread]
      exact List.append_nil content
  · rintro rfl
    exact spans_read s

/-! ## Comments after blanks -/

/-- The text starts with `blanks`, and then a comment, which reads `shown` with its marks. -/
def Trails (text blanks : List Char) (shown : String) : Prop :=
  (∀ c ∈ blanks, isSpace c = true) ∧
    ∃ content inside, text = blanks ++ '/' :: '*' :: inside ∧ Spans content inside ∧
      shown = "/*" ++ String.ofList content ++ "*/"

variable {text blanks : List Char} {shown : String}

/-- The blanks before a comment are all that the text starts with. -/
theorem Trails.takeWhile_eq (h : Trails text blanks shown) : text.takeWhile isSpace = blanks := by
  obtain ⟨hblanks, content, inside, rfl, -⟩ := h
  rw [List.takeWhile_append_of_pos hblanks, List.takeWhile_cons_of_neg (by decide), List.append_nil]

theorem trails_append (hblanks : ∀ c ∈ blanks, isSpace c = true) :
    Trails (blanks ++ s) blanks shown ↔ Trails s [] shown := by
  constructor
  · rintro ⟨-, content, inside, htext, hrest⟩
    exact ⟨by simp, content, inside, List.append_cancel_left htext, hrest⟩
  · rintro ⟨-, content, inside, rfl, hrest⟩
    exact ⟨hblanks, content, inside, rfl, hrest⟩

theorem trails_nil_iff : Trails s [] shown ↔
    ∃ inside, s = '/' :: '*' :: inside ∧
      shown = "/*" ++ String.ofList (read inside).1 ++ "*/" := by
  constructor
  · rintro ⟨-, content, inside, rfl, hspans, rfl⟩
    rw [← spans_iff.1 hspans]
    exact ⟨inside, rfl, rfl⟩
  · rintro ⟨inside, rfl, rfl⟩
    exact ⟨by simp, _, inside, rfl, spans_read inside, rfl⟩

end Comment

namespace Component

open Comment (Trails)

variable {shown : String}

theorem leadingComment_of_isOther {c : Component} (h : c.token.isOther = true)
    (rest : List Component) : leadingComment (c :: rest) = none := by
  rw [leadingComment]
  split
  · rename_i htoken
    rw [htoken] at h
    cases h
  · rename_i htoken
    rw [htoken] at h
    cases h
  · rfl

/-- A text that starts with no space starts with a comment, or with none. -/
theorem leadingComment_of_head {s : List Char} (hs : ∀ c ∈ s.head?, isSpace c = false) :
    leadingComment (ofLexemes (Lexeme.readAll s)) = some shown ↔ Trails s [] shown := by
  rw [Comment.trails_nil_iff]
  match s with
  | [] =>
    rw [Lexeme.readAll]
    simp [ofLexemes, Nesting.start, Nesting.finish, leadingComment]
  | c :: rest =>
    rcases Token.read_cases c rest with hspace | ⟨s, rfl, rfl⟩ | rfl | hother
    · rw [hs c rfl] at hspace
      cases hspace
    · rw [Lexeme.readAll, ofLexemes_cons rfl, leadingComment]
      simp [Component.token, Token.read_slashStar, eq_comm]
    · rw [Lexeme.readAll, ofLexemes_cons rfl, leadingComment]
      simp [Component.token, Token.read_semicolon]
    · constructor
      · -- Whatever block the token may open, its component is no comment.
        intro h
        cases hcomponents : ofLexemes (Lexeme.readAll (c :: rest)) with
        | nil =>
          rw [hcomponents] at h
          cases h
        | cons first others =>
          obtain ⟨l, inside, ls, hls, htoken, -, -⟩ := ofLexemes_eq_cons hcomponents
          rw [Lexeme.readAll] at hls
          have hl : l.token = (Token.read c rest).1 := by rw [← (List.cons.inj hls).1]
          rw [hcomponents, leadingComment_of_isOther (by rw [htoken, hl, hother])] at h
          cases h
      · rintro ⟨inside, heq, -⟩
        obtain ⟨rfl, rfl⟩ := List.cons.inj heq
        rw [Token.read_slashStar] at hother
        cases hother

theorem span_of_head {s : List Char} (hs : ∀ c ∈ s.head?, isSpace c = false) :
    s.takeWhile isSpace = [] ∧ s.dropWhile isSpace = s := by
  cases s with
  | nil => exact ⟨rfl, rfl⟩
  | cons c rest => simp [hs c rfl]

/-- Blanks at the start are skipped, unless there is a line feed among them. -/
theorem leadingComment_of_blanks {blanks s : List Char} (hblanks : ∀ c ∈ blanks, isSpace c = true)
    (hs : ∀ c ∈ s.head?, isSpace c = false) :
    leadingComment (ofLexemes (Lexeme.readAll (blanks ++ s))) =
      if '\n' ∈ blanks then none else leadingComment (ofLexemes (Lexeme.readAll s)) := by
  cases blanks with
  | nil => rfl
  | cons c blanks =>
    obtain ⟨hc, hblanks⟩ := List.forall_mem_cons.1 hblanks
    have hread : Token.read c (blanks ++ s) = (.whitespace (String.ofList (c :: blanks)), s) := by
      obtain ⟨htake, hdrop⟩ := span_of_head hs
      rw [Token.read_of_isSpace hc, List.takeWhile_append_of_pos hblanks,
        List.dropWhile_append_of_pos hblanks, htake, hdrop, List.append_nil]
    rw [List.cons_append, Lexeme.readAll, ofLexemes_cons (by rw [hread]; rfl), leadingComment]
    simp [Component.token, hread]

/-- **The comment at the start of a text.**  The components of a text start with a comment exactly
if the text does, after blanks without a line feed. -/
theorem leadingComment_eq_some_iff (text : List Char) :
    leadingComment (ofLexemes (Lexeme.readAll text)) = some shown ↔
      ∃ blanks, Trails text blanks shown ∧ '\n' ∉ blanks := by
  obtain ⟨blanks, s, rfl, hblanks, hs⟩ : ∃ blanks s, text = blanks ++ s ∧
      (∀ c ∈ blanks, isSpace c = true) ∧ ∀ c ∈ s.head?, isSpace c = false := by
    refine ⟨text.takeWhile isSpace, text.dropWhile isSpace, List.takeWhile_append_dropWhile.symm,
      List.all_eq_true.1 List.all_takeWhile, fun c hc => ?_⟩
    have hhead := List.head?_dropWhile_not isSpace text
    rw [Option.mem_def.1 hc] at hhead
    simpa using hhead
  rw [leadingComment_of_blanks hblanks hs]
  constructor
  · intro h
    split at h
    · cases h
    · rename_i hfeed
      exact ⟨blanks, (Comment.trails_append hblanks).2 ((leadingComment_of_head hs).1 h), hfeed⟩
  · rintro ⟨blanks', h, hfeed⟩
    obtain rfl : blanks = blanks' := by
      rw [← h.takeWhile_eq, List.takeWhile_append_of_pos hblanks, (span_of_head hs).1,
        List.append_nil]
    rw [if_neg hfeed]
    exact (leadingComment_of_head hs).2 ((Comment.trails_append hblanks).1 h)

end Component

end Scss
