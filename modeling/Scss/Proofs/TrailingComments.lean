import Mathlib
import Scss.Proofs.CommentText
import Scss.Proofs.Declarations

/-!
# Comments after a declaration

A comment belongs to the declaration before it if it follows the semicolon on the same line.  Lines
are counted by line feeds, carriage returns and form feeds, and a carriage return with a line feed
counts once; but of the characters between semicolon and comment only the line feed keeps the
comment away.  So a comment on the next line is attached if the line before it ends in another way.

## Main definitions

* `Component.Ended`: a statement that a semicolon ends, and what stands around it
* `Stylesheet.SameLine`: blanks after a semicolon that lead to no other line

## Main results

* `Position.line_advance_eq_iff`: a text without a line end leads to no other line
* `Statement.readAll_ended`: where a statement that a semicolon ends stands in the result
* `Stylesheet.comment_attached_iff`: which comment is attached, and when it is the one on the line
* `Stylesheet.comment_below_attached`: a comment of the next line that is attached
-/

namespace Scss

/-! ## Lines -/

namespace Position

variable {s t : List Char}

theorem advance_of_isNewline {c : Char} (h : Text.isNewline c = true)
    (hreturn : c = '\r' → s.head? ≠ some '\n') (p : Position) :
    p.advance (c :: s) = p.nextLine.advance s := by
  rw [advance]
  · exact if_pos h
  · rintro rest rfl rfl
    exact hreturn rfl rfl

theorem advance_of_not_isNewline {c : Char} (h : Text.isNewline c = false) (p : Position) :
    p.advance (c :: s) = (p.nextColumn c).advance s := by
  rw [advance]
  · exact if_neg (by rw [← Text.isNewline, h]; decide)
  · rintro rest rfl rfl
    cases h

theorem advance_semicolon (p : Position) (s t : List Char) :
    p.advance (s ++ ';' :: t) = ((p.advance s).nextColumn ';').advance t := by
  fun_induction advance p s with
  | case1 p => exact advance_of_not_isNewline rfl p
  | case2 p rest ih => exact ih
  | case3 p c rest hreturn hc ih =>
    -- No semicolon joins a carriage return before it, so the text counts as it does alone.
    rw [List.cons_append, advance_of_isNewline hc, ih]
    rintro rfl hhead
    cases rest with
    | nil => cases hhead
    | cons d rest =>
      obtain rfl : d = '\n' := Option.some.inj hhead
      exact hreturn rest rfl rfl
  | case4 p c rest _ hc ih =>
    rw [List.cons_append, advance_of_not_isNewline (by simpa [Text.isNewline] using hc), ih]

theorem line_le_advance (p : Position) (s : List Char) : p.line ≤ (p.advance s).line := by
  fun_induction advance p s with
  | case1 p => exact le_rfl
  | case2 p rest ih => exact (Nat.le_succ _).trans ih
  | case3 p c rest _ _ ih => exact (Nat.le_succ _).trans ih
  | case4 p c rest _ _ ih => exact ih

/-- A text without a line end leads to no other line, and only such a text does. -/
theorem line_advance_eq_iff (p : Position) (s : List Char) :
    (p.advance s).line = p.line ↔ ∀ c ∈ s, Text.isNewline c = false := by
  have hnext (p : Position) (rest : List Char) : (p.nextLine.advance rest).line ≠ p.line :=
    Nat.ne_of_gt (line_le_advance p.nextLine rest)
  fun_induction advance p s with
  | case1 p => simp
  | case2 p rest ih =>
    refine ⟨fun h => absurd h (hnext p rest), fun h => ?_⟩
    cases h '\r' List.mem_cons_self
  | case3 p c rest _ hc ih =>
    refine ⟨fun h => absurd h (hnext p rest), fun h => ?_⟩
    rw [← Text.isNewline, h c List.mem_cons_self] at hc
    cases hc
  | case4 p c rest _ hc ih =>
    have hplain : Text.isNewline c = false := by simpa [Text.isNewline] using hc
    refine ih.trans ?_
    simp [hplain]

end Position

/-! ## Statements that a semicolon ends -/

namespace Component

variable {cs front part rest : List Component} {semicolon : Component}

/-- Among the components `cs`, a semicolon ends the statement `part`: `front` stands before the
statement, and `rest` after the semicolon. -/
inductive Ended : List Component → List Component → List Component → List Component → Prop
  | first {part rest : List Component} {semicolon : Component}
      (hpart : ∀ c ∈ part, c.token ≠ .semicolon) (hsemicolon : semicolon.token = .semicolon) :
      Ended (part ++ semicolon :: rest) [] part rest
  | later {other cs front part rest : List Component} {semicolon : Component}
      (hother : ∀ c ∈ other, c.token ≠ .semicolon) (hsemicolon : semicolon.token = .semicolon)
      (h : Ended cs front part rest) :
      Ended (other ++ semicolon :: cs) (other ++ semicolon :: front) part rest

/-- A semicolon. -/
def semicolonSign : Component := .leaf ⟨.semicolon, [';']⟩

theorem Ended.exists_semicolon (h : Ended cs front part rest) :
    ∃ semicolon, semicolon.token = .semicolon ∧ cs = front ++ part ++ semicolon :: rest := by
  induction h with
  | first hpart hsemicolon => exact ⟨_, hsemicolon, rfl⟩
  | later hother hsemicolon h ih =>
    obtain ⟨semicolon, htoken, rfl⟩ := ih
    exact ⟨semicolon, htoken, by simp⟩

theorem statements_semicolon (hpart : ∀ c ∈ part, c.token ≠ .semicolon)
    (hsemicolon : semicolon.token = .semicolon) (rest : List Component) :
    statements (part ++ semicolon :: rest) = part :: statements rest := by
  induction part with
  | nil => rw [List.nil_append, statements, if_pos hsemicolon]
  | cons c part ih =>
    obtain ⟨hc, hpart⟩ := List.forall_mem_cons.1 hpart
    rw [List.cons_append, statements, if_neg hc, ih hpart]

/-- The comment at the start is looked for in the first statement only. -/
theorem leadingComment_statements (cs : List Component) :
    (statements cs).head?.bind leadingComment = leadingComment cs := by
  induction cs with
  | nil => rfl
  | cons c cs ih =>
    by_cases hc : c.token = .semicolon
    · rw [statements, if_pos hc, leadingComment, hc]
      rfl
    · obtain ⟨first, others, heq, -⟩ := exists_statements cs
      rw [heq, List.head?_cons, Option.bind_some] at ih
      rw [statements, if_neg hc, heq]
      simp only [List.head?_cons, Option.bind_some, leadingComment, ih]

end Component

namespace Statement

open Component (statements leadingComment sourceAll Ended isBlank)

variable {p : Position} {part : List Component} {parts : List (List Component)}
  {sheet : Stylesheet} {statement? : Option Statement}

/-- Something is read from a statement that is more than blanks. -/
theorem isSome_of_read (h : read p part = .ok statement?) :
    statement?.isSome = !part.all isBlank := by
  rcases Component.skip_cases isBlank part with hall | ⟨blanks, c, rest, rfl, hblanks, hc⟩
  · rw [read, Component.skip_of_all hall] at h
    cases h
    simpa using hall
  · have hany : (blanks ++ c :: rest).all isBlank = false := by simp [hc]
    rw [read_append hblanks hc] at h
    split at h
    · obtain ⟨v, -, rfl⟩ := map_eq_ok_iff.1 h
      simp [hany]
    · obtain ⟨d, -, rfl⟩ := map_eq_ok_iff.1 h
      simp [hany]

/-- The first of some statements is read, given its comment, and put before the others. -/
theorem readAll_cons_eq_ok (h : readAll p (part :: parts) = .ok sheet) :
    ∃ statement? rest, read p part = .ok statement? ∧
      readAll ((p.advance (sourceAll part)).nextColumn ';') parts = .ok rest ∧
      sheet = (statement?.map (withComment (parts.head?.bind leadingComment))).toList ++ rest := by
  obtain ⟨statement?, hfirst, h⟩ := bind_eq_ok_iff.1 h
  obtain ⟨rest, hrest, h⟩ := bind_eq_ok_iff.1 h
  refine ⟨statement?, rest, hfirst, hrest, ?_⟩
  match statement?, h with
  | none, rfl => rfl
  | some statement, rfl => rfl

/-- A statement that a semicolon ends is read where it stands, and given the comment at the start of
what follows the semicolon.  In the result it comes after those that are read from what is before
it. -/
theorem readAll_ended {cs front part rest : List Component} (h : Ended cs front part rest)
    (hsource : ∀ c ∈ cs, c.token = .semicolon → c.source = [';']) (p : Position)
    (hread : readAll p (statements cs) = .ok sheet) :
    ∃ others statement? later,
      read (p.advance (sourceAll front)) part = .ok statement? ∧
      sheet = others ++ (statement?.map (withComment (leadingComment rest))).toList ++ later ∧
      others.length = (statements front).countP fun part => !part.all isBlank := by
  induction h generalizing p sheet with
  | first hpart hsemicolon =>
    rw [Component.statements_semicolon hpart hsemicolon] at hread
    obtain ⟨statement?, later, hfirst, -, rfl⟩ := readAll_cons_eq_ok hread
    rw [Component.leadingComment_statements]
    exact ⟨[], statement?, later, hfirst, rfl, rfl⟩
  | @later other cs front part rest semicolon hother hsemicolon h ih =>
    rw [Component.statements_semicolon hother hsemicolon] at hread
    obtain ⟨first?, sheet', hfirst, hrest, rfl⟩ := readAll_cons_eq_ok hread
    have hlater : ∀ c ∈ cs, c.token = .semicolon → c.source = [';'] := fun c hc =>
      hsource c (List.mem_append_right _ (List.mem_cons_of_mem _ hc))
    obtain ⟨others, statement?, later, hstatement, rfl, hcount⟩ := ih hlater _ hrest
    -- The position moves over the statements in front one by one, as it does over their text.
    have hfront : p.advance (sourceAll (other ++ semicolon :: front)) =
        ((p.advance (sourceAll other)).nextColumn ';').advance (sourceAll front) := by
      rw [Component.sourceAll_append, Component.sourceAll,
        hsource semicolon (by simp) hsemicolon, List.singleton_append, Position.advance_semicolon]
    rw [hfront]
    refine ⟨(first?.map (withComment ((statements cs).head?.bind leadingComment))).toList ++ others,
      statement?, later, hstatement, by simp only [List.append_assoc], ?_⟩
    rw [Component.statements_semicolon hother hsemicolon, List.countP_cons, ← hcount,
      ← isSome_of_read hfirst, List.length_append]
    cases first? with
    | none => simp
    | some statement => simp [Nat.add_comm]

end Statement

/-! ## Stylesheets -/

namespace Stylesheet

open Component (statements sourceAll Ended word space colonSign semicolonSign)
open Comment (Trails)

/-- What follows the text `before`, a semicolon and `blanks` starts on the line of the semicolon. -/
def SameLine (before blanks : List Char) : Prop :=
  (Position.start.advance (before ++ ';' :: blanks)).line = (Position.start.advance before).line

theorem sameLine_iff {before blanks : List Char} :
    SameLine before blanks ↔ ∀ c ∈ blanks, Text.isNewline c = false := by
  rw [SameLine, Position.advance_semicolon]
  exact Position.line_advance_eq_iff _ _

/-- **Which comment is attached to a declaration.**  In a stylesheet that was read, take a
declaration that a semicolon ends, with `front` before it and `rest` after the semicolon.  It has a
comment exactly if nothing but blanks without a line feed stands between the semicolon and a
comment, and that comment is attached with its marks.  So what is attached is the comment on the
line of the semicolon, unless the blanks before a comment hold a carriage return or a form feed, and
no line feed. -/
theorem comment_attached_iff (text : String) (sheet : Stylesheet) (h : read text = .ok sheet)
    (front part rest : List Component) (hended : Ended (Component.read text) front part rest)
    (d : Declaration)
    (hd : Statement.read (Position.start.advance (sourceAll front)) part =
      .ok (some (.declaration d))) :
    ∃ others later comment,
      sheet = others ++ .declaration { d with comment } :: later ∧
      others.length = (statements front).countP (fun part => !part.all Component.isBlank) ∧
      text.toList = sourceAll front ++ sourceAll part ++ ';' :: sourceAll rest ∧
      (∀ shown, comment = some shown ↔
        ∃ blanks, Trails (sourceAll rest) blanks shown ∧ '\n' ∉ blanks) ∧
      ((∀ shown, comment = some shown ↔
          ∃ blanks, Trails (sourceAll rest) blanks shown ∧
            SameLine (sourceAll front ++ sourceAll part) blanks) ↔
        ∀ blanks shown, Trails (sourceAll rest) blanks shown → '\n' ∉ blanks →
          ∀ c ∈ blanks, Text.isNewline c = false) := by
  obtain ⟨semicolon, htoken, hcs⟩ := hended.exists_semicolon
  have hsource : ∀ c ∈ Component.read text, c.token = .semicolon → c.source = [';'] :=
    fun _ hc => Component.source_of_semicolon hc
  obtain ⟨others, statement?, later, hstatement, hsheet, hcount⟩ :=
    Statement.readAll_ended hended hsource .start h
  have hcomment (shown : String) : Component.leadingComment rest = some shown ↔
      ∃ blanks, Trails (sourceAll rest) blanks shown ∧ '\n' ∉ blanks := by
    have hrest : Component.read text = (front ++ part ++ [semicolon]) ++ rest := by simp [hcs]
    rw [← Component.leadingComment_eq_some_iff, Component.read_of_append hrest]
  rw [hd] at hstatement
  cases hstatement
  refine ⟨others, later, Component.leadingComment rest, ?_, hcount, ?_, hcomment, ?_⟩
  · simpa [Statement.withComment] using hsheet
  · rw [← Component.sourceAll_read, hcs, Component.sourceAll_append, Component.sourceAll_append,
      Component.sourceAll, hsource semicolon (by simp [hcs]) htoken, List.singleton_append]
  · simp only [hcomment, sameLine_iff]
    constructor
    · intro hline blanks shown htrails hfeed
      -- The text has one run of blanks before its comment, so the two are the same.
      obtain ⟨blanks', htrails', hplain⟩ := (hline shown).1 ⟨blanks, htrails, hfeed⟩
      rwa [← htrails.takeWhile_eq, htrails'.takeWhile_eq]
    · intro hplain shown
      constructor
      · rintro ⟨blanks, htrails, hfeed⟩
        exact ⟨blanks, htrails, hplain blanks shown htrails hfeed⟩
      · rintro ⟨blanks, htrails, hnone⟩
        exact ⟨blanks, htrails, fun hfeed => by cases hnone '\n' hfeed⟩

theorem comment_attached_iff_second :
    ∃ (sheet others later : Stylesheet) (comment : Option String),
      read "a: b; c: d; /* e */" = .ok sheet ∧
      sheet = others ++ .declaration ⟨"c", [.word "d"], false, comment, some 1⟩ :: later ∧
      others.length = 1 ∧ comment = some "/* e */" := by
  have hcomponents : Component.read "a: b; c: d; /* e */" =
      [word "a", colonSign, space, word "b"] ++ semicolonSign ::
        ([space, word "c", colonSign, space, word "d"] ++ semicolonSign ::
          [space, .leaf ⟨.comment " e ", "/* e */".toList⟩]) := by
    cbv
  have hread : read "a: b; c: d; /* e */" =
      .ok [.declaration ⟨"a", [.word "b"], false, none, some 1⟩,
        .declaration ⟨"c", [.word "d"], false, some "/* e */", some 1⟩] := by
    rw [read, hcomponents]
    rfl
  have hended : Ended (Component.read "a: b; c: d; /* e */")
      ([word "a", colonSign, space, word "b"] ++ semicolonSign :: [])
      [space, word "c", colonSign, space, word "d"]
      [space, .leaf ⟨.comment " e ", "/* e */".toList⟩] := by
    rw [hcomponents]
    exact .later (by decide) rfl (.first (by decide) rfl)
  obtain ⟨others, later, comment, hsheet, hcount, -, hcomment, -⟩ :=
    comment_attached_iff _ _ hread _ _ _ hended ⟨"c", [.word "d"], false, none, some 1⟩ rfl
  have htrails : Trails " /* e */".toList [' '] "/* e */" :=
    ⟨List.forall_mem_singleton.2 rfl, " e ".toList, " e */".toList, rfl,
      .closed (by decide) [], rfl⟩
  exact ⟨_, others, later, comment, hread, hsheet, hcount,
    (hcomment _).2 ⟨[' '], htrails, by decide⟩⟩

/-- A comment on the next line is attached if only a carriage return ends the line before it. -/
theorem comment_below_attached :
    read "a: b;\r/* c */" =
      .ok [.declaration ⟨"a", [.word "b"], false, some "/* c */", some 1⟩] ∧
    Trails "\r/* c */".toList ['\r'] "/* c */" ∧ ¬SameLine "a: b".toList ['\r'] := by
  have hcomponents : Component.read "a: b;\r/* c */" =
      [word "a", colonSign, space, word "b", semicolonSign, .leaf ⟨.whitespace "\r", ['\r']⟩,
        .leaf ⟨.comment " c ", "/* c */".toList⟩] := by
    cbv
  refine ⟨?_, ?_, ?_⟩
  · rw [read, hcomponents]
    rfl
  · exact ⟨List.forall_mem_singleton.2 rfl, " c ".toList, " c */".toList, rfl,
      .closed (by decide) [], rfl⟩
  · rw [sameLine_iff]
    exact fun h => by cases h '\r' List.mem_cons_self

end Stylesheet

end Scss
