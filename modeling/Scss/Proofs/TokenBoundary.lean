import Scss.Proofs.Lexing
import Scss.Proofs.ScanEnds

/-!
# Where tokens end

The last token of a text is whole if nothing that is put behind the text could belong to it.  Then
the text is cut into the same lexemes when a comment follows.  So a comment can be put between any
two tokens of a text, unless the first of them is one that only the end of the text ends.

## Main definitions

* `Lexeme.Boundary`: the tokens of a text do not cross a place in it

## Main results

* `Token.local_read`: a token ends in the text or runs over
* `Lexeme.readAll_append`: what follows a text with a whole token at its end is cut on its own
* `Lexeme.Boundary.readAll_comment`: a comment at a boundary is one more lexeme
-/

namespace Scss

variable {s y : List Char}

/-! ## Tokens -/

namespace Token

theorem readUnit_of_ne (n : Numeral) (h : s.head? ≠ some '%') :
    readUnit n s =
      if Name.starts s then (.dimension n (String.ofList (Name.read s).1), (Name.read s).2)
      else (.number n, s) := by
  cases s with
  | nil => rfl
  | cons c s =>
    have hc : c ≠ '%' := by simpa using h
    simp [readUnit, hc]

theorem local_readUnit (n : Numeral) (s : List Char) : Local (readUnit n) s := by
  by_cases hpercent : ∃ rest, s = '%' :: rest
  · obtain ⟨rest, rfl⟩ := hpercent
    left
    exact EndsIn.of_rest (.percentage n) rest fun y hy => rfl
  · -- A percent sign would have to come next, and what follows starts with none.
    have hhead : ∀ y, Stop y → (s ++ y).head? ≠ some '%' := by
      intro y hy
      cases s with
      | nil => cases hy <;> simp
      | cons c s => simpa using hpercent
    by_cases hname : Name.starts s = true
    · refine (Name.local_read s).comp (fun name => .dimension n (String.ofList name)) fun y hy => ?_
      rw [readUnit_of_ne n (hhead y hy), Name.starts_append hy, if_pos hname]
    · left
      refine EndsIn.of_rest (.number n) s fun y hy => ?_
      rw [readUnit_of_ne n (hhead y hy), Name.starts_append hy, if_neg hname]

theorem local_readNumeric (s : List Char) : Local readNumeric s := by
  refine (local_readUnit (Numeral.scan s).1 (Numeral.scan s).2).comp id fun y hy => ?_
  rw [readNumeric, Numeral.endsIn_scan s y hy]
  rfl

/-- The token of a URL that starts with `start`, after it has been scanned. -/
def ofUrl (start : List Char) : Option (List Char) × List Char → Token × List Char
  | (some text, after) => (.unquotedUrl (String.ofList text), after)
  | (none, after) =>
    (.badUrl (String.ofList (start.take (start.length - (Url.recover after).length))),
      (Url.recover after).drop 1)

theorem readUrl_of_head {name : String} (h : (s.dropWhile isSpace).head?.any isQuote = false) :
    readUrl name s = ofUrl (s.dropWhile isSpace) (Url.scan (s.dropWhile isSpace)).parts := by
  simp only [readUrl, h]
  cases Url.scan (s.dropWhile isSpace) <;> rfl

theorem local_ofUrl (start : List Char) :
    Local (fun start => ofUrl start (Url.scan start).parts) start := by
  rcases Url.local_scan start with hends | hover
  · cases hparts : (Url.scan start).parts with
    | mk text? after =>
      have happend : ∀ y, Stop y → (Url.scan (start ++ y)).parts = (text?, after ++ y) := by
        intro y hy
        have h := hends y hy
        simpa only [hparts] using h
      cases text? with
      | some text =>
        left
        refine EndsIn.of_rest (.unquotedUrl (String.ofList text)) after fun y hy => ?_
        rw [happend y hy, ofUrl]
      | none =>
        -- The URL is broken: it goes on to a parenthesis in the text, or over its end.
        rcases Url.recover_append after with ⟨hstop, hrecover⟩ | hrecover
        · left
          refine EndsIn.of_rest (.badUrl (String.ofList
            (start.take (start.length - (Url.recover after).length))))
            ((Url.recover after).drop 1) fun y hy => ?_
          have hlength : (start ++ y).length - (Url.recover after ++ y).length =
              start.length - (Url.recover after).length := by
            rw [List.length_append, List.length_append, Nat.add_sub_add_right]
          rw [happend y hy, ofUrl, hrecover, hlength,
            List.take_append_of_le_length (Nat.sub_le _ _),
            List.drop_append_of_le_length (List.length_pos_iff.2 hstop)]
        · right
          rw [RunsOver, happend _ (.comma []), ofUrl, hrecover]
          rfl
  · -- The comma is taken in, so nothing is left to search for a parenthesis.
    right
    have hrest : (Url.scan (start ++ [','])).parts.2 = [] := hover
    rw [RunsOver]
    cases hparts : (Url.scan (start ++ [','])).parts with
    | mk text? after =>
      rw [hparts] at hrest
      obtain rfl : after = [] := hrest
      cases text? <;> rfl

theorem local_readUrl (name : String) (s : List Char) : Local (readUrl name) s := by
  have hdrop : ∀ y, Stop y → (s ++ y).dropWhile isSpace = s.dropWhile isSpace ++ y :=
    fun y hy => hy.dropWhile_append rfl rfl s
  cases hquote : (s.dropWhile isSpace).head?.any isQuote with
  | true =>
    left
    refine EndsIn.of_rest (.function name) s fun y hy => ?_
    rw [readUrl, hdrop y hy, hy.head?_append rfl rfl, hquote]
    rfl
  | false =>
    refine (local_ofUrl (s.dropWhile isSpace)).comp id fun y hy => ?_
    rw [readUrl_of_head (by rw [hdrop y hy, hy.head?_append rfl rfl, hquote]), hdrop y hy]
    rfl

theorem local_readParen (name s : List Char) : Local (readParen name) s := by
  cases s with
  | nil =>
    left
    refine EndsIn.of_rest (.ident (String.ofList name)) [] fun y hy => ?_
    cases hy <;> rfl
  | cons c s =>
    by_cases hparen : c = '('
    · subst hparen
      by_cases hurl : (name.map Char.toLower == ['u', 'r', 'l']) = true
      · refine (local_readUrl (String.ofList name) s).comp id fun y hy => ?_
        rw [List.cons_append, readParen, if_pos hurl]
        rfl
      · left
        refine EndsIn.of_rest (.function (String.ofList name)) s fun y hy => ?_
        rw [List.cons_append, readParen, if_neg hurl]
    · left
      refine EndsIn.of_rest (.ident (String.ofList name)) (c :: s) fun y hy => ?_
      simp [readParen, hparen]

theorem local_readName (s : List Char) : Local readName s := by
  refine (Name.local_read s).bind (local_readParen _ _) fun name => ?_
  exact List.suffix_nil.1 (suffix_readParen name [])

theorem local_readString {quote : Char} (hquote : isQuote quote = true) (s : List Char) :
    Local (readString quote) s := by
  refine (QuotedText.local_read hquote s).comp
    (fun p => if p.2 then .quotedString (String.ofList p.1) else .badString (String.ofList p.1))
    fun y hy => ?_
  simp only [readString, QuotedText.Result.parts]
  split <;> simp_all

theorem local_readHash (s : List Char) : Local readHash s := by
  have hhead : ∀ y, Stop y → (s ++ y).head?.any (fun c => c.isDigit || c == '-') =
      s.head?.any (fun c => c.isDigit || c == '-') := fun y hy => hy.head?_append rfl rfl s
  by_cases hname : Name.starts s = true
  · refine (Name.local_read s).comp (fun name => .idHash (String.ofList name)) fun y hy => ?_
    simp [readHash, Name.starts_append hy, hname]
  · by_cases hdigit : s.head?.any (fun c => c.isDigit || c == '-') = true
    · refine (Name.local_read s).comp (fun name => .hash (String.ofList name)) fun y hy => ?_
      simp only [readHash, Name.starts_append hy, hname, hhead y hy, hdigit]
      rfl
    · left
      refine EndsIn.of_rest (.delim '#') s fun y hy => ?_
      simp only [readHash, Name.starts_append hy, hname, hhead y hy, hdigit]
      rfl

theorem local_readAt (s : List Char) : Local readAt s := by
  by_cases hname : Name.starts s = true
  · refine (Name.local_read s).comp (fun name => .atKeyword (String.ofList name)) fun y hy => ?_
    simp only [readAt, Name.starts_append hy, hname, if_true]
  · left
    refine EndsIn.of_rest (.delim '@') s fun y hy => ?_
    simp only [readAt, Name.starts_append hy, hname]
    rfl

/-- Outside these characters, a mark is one character. -/
theorem readMark_of_notMem {c : Char} (h : c ∉ ['#', '@', '/', '<', '~', '|', '^', '$', '*'])
    (s : List Char) : readMark c s = ((readMark c []).1, s) := by
  unfold readMark
  split <;> simp_all

theorem readMark_of_ne {c : Char} (hc : c ∈ ['~', '|', '^', '$', '*'])
    (hs : ∀ rest, s ≠ '=' :: rest) : readMark c s = (.delim c, s) := by
  unfold readMark
  split <;> simp_all

/-- Before an equals sign, these characters make a mark of two. -/
theorem endsIn_readMark_equals {c : Char} (hc : c ∈ ['~', '|', '^', '$', '*']) (s : List Char) :
    EndsIn (readMark c) s := by
  by_cases hequals : ∃ rest, s = '=' :: rest
  · obtain ⟨rest, rfl⟩ := hequals
    refine EndsIn.of_rest (readMark c ['=']).1 rest fun y hy => ?_
    simp only [List.mem_cons, List.not_mem_nil, or_false] at hc
    rcases hc with rfl | rfl | rfl | rfl | rfl <;> rfl
  · refine EndsIn.of_rest (.delim c) s fun y hy => readMark_of_ne hc ?_
    cases s with
    | nil => cases hy <;> simp
    | cons d s =>
      rintro rest ⟨⟩
      exact hequals ⟨s, rfl⟩

theorem readMark_less_of_ne (h : ∀ rest, s ≠ '!' :: '-' :: '-' :: rest) :
    readMark '<' s = (.delim '<', s) := by
  unfold readMark
  split <;> simp_all

theorem endsIn_readMark_less (s : List Char) : EndsIn (readMark '<') s := by
  by_cases hopen : ∃ rest, s = '!' :: '-' :: '-' :: rest
  · obtain ⟨rest, rfl⟩ := hopen
    exact EndsIn.of_rest .commentOpen rest fun y hy => rfl
  · refine EndsIn.of_rest (.delim '<') s fun y hy => readMark_less_of_ne ?_
    -- What follows starts with none of the three characters.
    match s with
    | [] | [_] | [_, _] => cases hy <;> simp
    | a :: b :: c :: s =>
      rintro rest ⟨⟩
      exact hopen ⟨s, rfl⟩

theorem readMark_slash_of_ne (h : ∀ rest, s ≠ '*' :: rest) :
    readMark '/' s = (.delim '/', s) := by
  unfold readMark
  split <;> simp_all

theorem local_readMark_slash (s : List Char) : Local (readMark '/') s := by
  by_cases hopen : ∃ rest, s = '*' :: rest
  · obtain ⟨rest, rfl⟩ := hopen
    exact (Comment.local_read rest).comp (fun text => .comment (String.ofList text))
      fun y hy => rfl
  · left
    refine EndsIn.of_rest (.delim '/') s fun y hy => readMark_slash_of_ne ?_
    match s with
    | [] => cases hy <;> simp
    | a :: s => simpa using hopen

theorem local_readMark (c : Char) (s : List Char) : Local (readMark c) s := by
  by_cases hc : c ∈ ['#', '@', '/', '<', '~', '|', '^', '$', '*']
  · rw [List.mem_cons, List.mem_cons, List.mem_cons, List.mem_cons] at hc
    rcases hc with rfl | rfl | rfl | rfl | hc
    · exact local_readHash s
    · exact local_readAt s
    · exact local_readMark_slash s
    · exact .inl (endsIn_readMark_less s)
    · exact .inl (endsIn_readMark_equals hc s)
  · left
    exact EndsIn.of_rest _ s fun y hy => readMark_of_notMem hc (s ++ y)

theorem isPrefixOf_append (hy : Stop y) (c : Char) (s : List Char) :
    ['-', '-', '>'].isPrefixOf (c :: (s ++ y)) = ['-', '-', '>'].isPrefixOf (c :: s) := by
  match s with
  | [] => cases hy <;> simp [List.isPrefixOf]
  | [d] => cases hy <;> simp [List.isPrefixOf]
  | d :: e :: s => simp [List.isPrefixOf]

/-- A token ends in the text, or takes what is put behind it in. -/
theorem local_read (c : Char) (s : List Char) : Local (read c) s := by
  by_cases hspace : isSpace c = true
  · left
    refine EndsIn.of_rest (.whitespace (String.ofList (c :: s.takeWhile isSpace)))
      (s.dropWhile isSpace) fun y hy => ?_
    rw [read, if_pos hspace, hy.takeWhile_append rfl rfl, hy.dropWhile_append rfl rfl]
  by_cases hquote : isQuote c = true
  · refine (local_readString hquote s).comp id fun y hy => ?_
    rw [read, if_neg hspace, if_pos hquote]
    rfl
  -- The tests that remain give the same answer with more text behind.
  have hread : ∀ y, Stop y → read c (s ++ y) =
      if Numeral.starts (c :: s) then readNumeric (c :: s ++ y)
      else if ['-', '-', '>'].isPrefixOf (c :: s) then (.commentClose, (s ++ y).drop 2)
      else if Name.starts (c :: s) then readName (c :: s ++ y)
      else readMark c (s ++ y) := by
    intro y hy
    rw [read, if_neg hspace, if_neg hquote, isPrefixOf_append hy, ← List.cons_append,
      Numeral.starts_append hy, Name.starts_append hy]
  by_cases hnumeral : Numeral.starts (c :: s) = true
  · refine (local_readNumeric (c :: s)).comp id fun y hy => ?_
    rw [hread y hy, if_pos hnumeral]
    rfl
  by_cases hclose : ['-', '-', '>'].isPrefixOf (c :: s) = true
  · left
    obtain ⟨rest, hrest⟩ := List.isPrefixOf_iff_prefix.1 hclose
    obtain ⟨rfl, rfl⟩ := List.cons.inj hrest
    refine EndsIn.of_rest .commentClose rest fun y hy => ?_
    rw [hread y hy, if_neg hnumeral, if_pos hclose]
    rfl
  by_cases hname : Name.starts (c :: s) = true
  · refine (local_readName (c :: s)).comp id fun y hy => ?_
    rw [hread y hy, if_neg hnumeral, if_neg hclose, if_pos hname]
    rfl
  · refine (local_readMark c s).comp id fun y hy => ?_
    rw [hread y hy, if_neg hnumeral, if_neg hclose, if_neg hname]
    rfl

end Token

/-! ## Lexemes -/

namespace Lexeme

/-- A token that ends in the text is cut off whatever follows. -/
theorem readAll_of_endsIn {c : Char} {rest : List Char} (h : EndsIn (Token.read c) rest) :
    ∃ l after, after.length ≤ rest.length ∧
      ∀ y, Stop y → readAll (c :: rest ++ y) = l :: readAll (after ++ y) := by
  refine ⟨⟨(Token.read c rest).1, (c :: rest).take ((c :: rest).length -
    (Token.read c rest).2.length)⟩, (Token.read c rest).2, Token.length_read c rest, ?_⟩
  intro y hy
  have hlength : (c :: (rest ++ y)).length - ((Token.read c rest).2 ++ y).length =
      (c :: rest).length - (Token.read c rest).2.length := by
    rw [← List.cons_append, List.length_append, List.length_append, Nat.add_sub_add_right]
  rw [List.cons_append, readAll]
  simp only [h y hy, hlength]
  rw [← List.cons_append, List.take_append_of_le_length (Nat.sub_le _ _)]

theorem readAll_ne_nil (c : Char) (rest : List Char) : readAll (c :: rest) ≠ [] := by
  rw [readAll]
  simp

/-- What follows a text with a whole token at its end is cut on its own. -/
theorem readAll_append {u : List Char}
    (hwhole : readAll (u ++ [',']) = readAll u ++ readAll [',']) (hy : Stop y) :
    readAll (u ++ y) = readAll u ++ readAll y := by
  -- The first token is cut off; the rest of the text ends with a whole token as well.
  match u with
  | [] => simp [readAll]
  | c :: rest =>
    rcases Token.local_read c rest with hends | hover
    · obtain ⟨l, after, hlength, hread⟩ := readAll_of_endsIn hends
      have hu : readAll (c :: rest) = l :: readAll after := by simpa using hread [] .nil
      have hafter : readAll (after ++ [',']) = readAll after ++ readAll [','] := by
        rw [hread _ (.comma []), hu, List.cons_append] at hwhole
        exact (List.cons.inj hwhole).2
      rw [hread y hy, hu, readAll_append hafter hy, List.cons_append]
    · -- The last token takes the comma in, so there is one lexeme where there should be two.
      have hone : (readAll (c :: rest ++ [','])).length = 1 := by
        have hrest : (Token.read c (rest ++ [','])).2 = [] := hover
        rw [List.cons_append, readAll, List.length_cons, hrest, readAll, List.length_nil]
      have hfirst := List.length_pos_iff.2 (readAll_ne_nil c rest)
      have hcomma := List.length_pos_iff.2 (readAll_ne_nil ',' [])
      rw [hwhole, List.length_append] at hone
      omega
termination_by u.length

/-- The tokens of `u ++ v` do not cross the place between `u` and `v`: they are those of `u` and
those of `v`, and the last one of `u` is whole, so a comma could stand behind it. -/
structure Boundary (u v : List Char) : Prop where
  whole : readAll (u ++ [',']) = readAll u ++ readAll [',']
  tokens : readAll (u ++ v) = readAll u ++ readAll v

/-- The shortest comment. -/
def emptyComment : Lexeme :=
  ⟨.comment "", ['/', '*', '*', '/']⟩

theorem readAll_emptyComment (v : List Char) :
    readAll (emptyComment.source ++ v) = emptyComment :: readAll v :=
  readAll_of_read ['*', '*', '/'] rfl

/-- A comment at a boundary is one more lexeme. -/
theorem Boundary.readAll_comment {u v : List Char} (h : Boundary u v) :
    readAll (u ++ (emptyComment.source ++ v)) = readAll u ++ emptyComment :: readAll v := by
  have hstop : Stop (emptyComment.source ++ v) := .slash _
  rw [readAll_append h.whole hstop, readAll_emptyComment]

end Lexeme

end Scss
