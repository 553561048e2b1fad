import Scss.Token.Lexeme

/-!
# Where scans end

A scan ends where its characters do, but also where the text does: a string without its quote, a
comment without its mark, a URL without its parenthesis, a backslash with nothing behind it.  Such a
scan runs over into whatever is put behind the text.  All others end in the text, and a comma or a
slash behind it changes nothing.

Each scan has a lemma of one of three kinds: it always ends in the text (`EndsIn`), it ends in the
text or runs over (`Local`), or it is a test whose answer a comma or a slash behind the text cannot
change.

## Main definitions

* `Stop`: what may be put behind a text
* `EndsIn`, `RunsOver`, `Local`: what becomes of a scan then

## Main results

* `Local.comp`, `Local.bind`: scans that go on as others, and scans one after the other
* `Numeral.endsIn_scan`, `Name.local_read`, `QuotedText.local_read`, `Url.local_scan`,
  `Comment.local_read`: where the parts of tokens end
-/

namespace Scss

/-- What may be put behind a text: nothing, or what starts with a comma or a slash. -/
inductive Stop : List Char → Prop
  | nil : Stop []
  | comma (rest : List Char) : Stop (',' :: rest)
  | slash (rest : List Char) : Stop ('/' :: rest)

section Scans

variable {α β : Type} {f : List Char → α × List Char} {g : List Char → β × List Char}
  {s t : List Char}

/-- The scan ends in `s`, whatever is put behind it. -/
def EndsIn (f : List Char → α × List Char) (s : List Char) : Prop :=
  ∀ y, Stop y → f (s ++ y) = ((f s).1, (f s).2 ++ y)

/-- The scan takes a comma behind `s` in. -/
def RunsOver (f : List Char → α × List Char) (s : List Char) : Prop :=
  (f (s ++ [','])).2 = []

/-- The scan ends in `s` or takes a comma behind it in. -/
def Local (f : List Char → α × List Char) (s : List Char) : Prop :=
  EndsIn f s ∨ RunsOver f s

/-- A scan that takes nothing more. -/
theorem EndsIn.of_rest (a : α) (t : List Char)
    (h : ∀ y, Stop y → f (s ++ y) = (a, t ++ y)) : EndsIn f s := by
  intro y hy
  have hs : f s = (a, t) := by simpa using h [] .nil
  rw [h y hy, hs]

/-- A scan that goes on as another one. -/
theorem Local.comp (k : β → α) (hg : Local g t)
    (h : ∀ y, Stop y → f (s ++ y) = (k (g (t ++ y)).1, (g (t ++ y)).2)) : Local f s := by
  have hs : f s = (k (g t).1, (g t).2) := by simpa using h [] .nil
  rcases hg with hends | hover
  · left
    intro y hy
    rw [h y hy, hends y hy, hs]
  · right
    rw [RunsOver, h _ (.comma []), hover]

/-- A scan after another one. -/
theorem Local.bind {g : α → List Char → β × List Char} (hf : Local f s)
    (hg : Local (g (f s).1) (f s).2) (hnil : ∀ a, (g a []).2 = []) :
    Local (fun s => g (f s).1 (f s).2) s := by
  rcases hf with hends | hover
  · refine hg.comp id fun y hy => ?_
    rw [hends y hy]
    rfl
  · -- The first scan leaves nothing to the second.
    right
    have hrest : (f (s ++ [','])).2 = [] := hover
    show (g _ (f (s ++ [','])).2).2 = []
    rw [hrest, hnil]

end Scans

variable {s y : List Char}

namespace Stop

theorem takeWhile_append (hy : Stop y) {p : Char → Bool} (hcomma : p ',' = false)
    (hslash : p '/' = false) (s : List Char) : (s ++ y).takeWhile p = s.takeWhile p := by
  induction s with
  | nil => cases hy <;> simp [hcomma, hslash]
  | cons c s ih => rw [List.cons_append, List.takeWhile_cons, List.takeWhile_cons, ih]

theorem dropWhile_append (hy : Stop y) {p : Char → Bool} (hcomma : p ',' = false)
    (hslash : p '/' = false) (s : List Char) : (s ++ y).dropWhile p = s.dropWhile p ++ y := by
  induction s with
  | nil => cases hy <;> simp [hcomma, hslash]
  | cons c s ih =>
    rw [List.cons_append, List.dropWhile_cons, List.dropWhile_cons, ih]
    split <;> rfl

theorem head?_append (hy : Stop y) {p : Char → Bool} (hcomma : p ',' = false)
    (hslash : p '/' = false) (s : List Char) : (s ++ y).head?.any p = s.head?.any p := by
  cases s with
  | nil => cases hy <;> simp [hcomma, hslash]
  | cons c s => rfl

theorem take (hy : Stop y) (n : Nat) : Stop (y.take n) := by
  cases n with
  | zero => exact .nil
  | succ n =>
    cases hy with
    | nil => exact .nil
    | comma rest => exact .comma _
    | slash rest => exact .slash _

end Stop

/-! ## Numerals -/

namespace Numeral

theorem endsIn_scanSign (s : List Char) : EndsIn scanSign s := by
  intro y hy
  cases s with
  | nil => cases hy <;> rfl
  | cons c s =>
    rw [List.cons_append, scanSign, scanSign]
    split <;> rfl

theorem endsIn_scanDigits (s : List Char) : EndsIn scanDigits s := by
  intro y hy
  rw [scanDigits, hy.takeWhile_append rfl rfl, hy.dropWhile_append rfl rfl, scanDigits]

/-- A point at the end of the text takes no digit from what follows. -/
theorem endsIn_scanFraction (s : List Char) : EndsIn scanFraction s := by
  intro y hy
  -- The scan looks at two characters, so what follows may supply both, one or none of them.
  match s with
  | [] => cases hy <;> rfl
  | [c] =>
    by_cases hc : c = '.'
    · subst hc
      cases hy <;> rfl
    · simp [scanFraction, hc]
  | c :: d :: s =>
    by_cases hc : c = '.'
    · subst hc
      rw [List.cons_append, List.cons_append, scanFraction, scanFraction, ← List.cons_append,
        endsIn_scanDigits _ y hy]
      split <;> rfl
    · simp [scanFraction, hc]

theorem endsIn_scanExponent (s : List Char) : EndsIn scanExponent s := by
  intro y hy
  cases s with
  | nil => cases hy <;> rfl
  | cons mark s =>
    simp only [List.cons_append, scanExponent, endsIn_scanSign s y hy, endsIn_scanDigits _ y hy]
    split <;> rfl

theorem endsIn_scan (s : List Char) : EndsIn scan s := by
  intro y hy
  simp only [scan, endsIn_scanSign s y hy, endsIn_scanDigits _ y hy, endsIn_scanFraction _ y hy,
    endsIn_scanExponent _ y hy]

theorem startsDigits_append (hy : Stop y) (s : List Char) :
    startsDigits (s ++ y) = startsDigits s := by
  match s with
  | [] => cases hy <;> rfl
  | [c] =>
    by_cases hc : c = '.'
    · subst hc
      cases hy <;> rfl
    · simp [startsDigits, hc]
  | c :: d :: s =>
    by_cases hc : c = '.'
    · subst hc
      rfl
    · simp [startsDigits, hc]

theorem starts_append (hy : Stop y) (s : List Char) : starts (s ++ y) = starts s := by
  rw [starts, endsIn_scanSign s y hy, startsDigits_append hy, starts]

end Numeral

/-! ## Escapes and names -/

theorem startsNewline_append (hy : Stop y) (s : List Char) :
    startsNewline (s ++ y) = startsNewline s := by
  cases s with
  | nil => cases hy <;> rfl
  | cons c s => rfl

theorem dropNewline_of_ne {c : Char} (h : ∀ rest, c = '\r' → s ≠ '\n' :: rest) :
    dropNewline (c :: s) = if Text.isNewline c then s else c :: s := by
  rw [dropNewline]
  exact h

theorem dropNewline_append (hy : Stop y) (s : List Char) :
    dropNewline (s ++ y) = dropNewline s ++ y := by
  match s with
  | [] => cases hy <;> rfl
  | [c] =>
    rw [List.singleton_append, dropNewline_of_ne, dropNewline_of_ne]
    · split <;> rfl
    · simp
    · -- What follows starts with no line feed.
      cases hy <;> simp
  | c :: d :: s =>
    by_cases hline : c = '\r' ∧ d = '\n'
    · obtain ⟨rfl, rfl⟩ := hline
      rfl
    · rw [List.cons_append, List.cons_append, dropNewline_of_ne, dropNewline_of_ne]
      · split <;> rfl
      · simpa using hline
      · simpa using hline

theorem dropSpace_append (hy : Stop y) (s : List Char) : dropSpace (s ++ y) = dropSpace s ++ y := by
  cases s with
  | nil => cases hy <;> rfl
  | cons c s =>
    rw [List.cons_append, dropSpace, dropSpace, ← List.cons_append, dropNewline_append hy]
    split <;> rfl

namespace Escape

theorem digits_append (hy : Stop y) (s : List Char) : digits (s ++ y) = digits s := by
  rw [digits, List.take_append, (hy.take _).takeWhile_append rfl rfl, digits]

theorem length_digits (s : List Char) : (digits s).length ≤ s.length :=
  ((List.takeWhile_sublist _).trans (List.take_sublist 6 s)).length_le

/-- An escape ends in the text, if something follows its backslash. -/
theorem endsIn_read (c : Char) (s : List Char) : EndsIn read (c :: s) := by
  intro y hy
  have hdigits := digits_append hy (c :: s)
  have hlength := length_digits (c :: s)
  rw [List.cons_append] at hdigits ⊢
  simp only [read, hdigits]
  split
  · rw [← List.cons_append, List.drop_append_of_le_length hlength, dropSpace_append hy]
  · split <;> rfl

/-- A backslash at the end takes the comma. -/
theorem read_comma : read [','] = (',', []) := by
  decide

end Escape

namespace Name

theorem starts_append (hy : Stop y) (s : List Char) : starts (s ++ y) = starts s := by
  match s with
  | [] => cases hy <;> rfl
  | [c] =>
    by_cases hminus : c = '-'
    · subst hminus
      cases hy <;> rfl
    · by_cases hslash : c = '\\'
      · subst hslash
        cases hy <;> rfl
      · simp [starts, hminus]
  | c :: d :: s =>
    by_cases hminus : c = '-'
    · subst hminus
      rfl
    · by_cases hslash : c = '\\'
      · subst hslash
        rfl
      · simp [starts, hminus]

theorem read_escape (h : startsNewline s = false) :
    read ('\\' :: s) =
      ((Escape.read s).1 :: (read (Escape.read s).2).1, (read (Escape.read s).2).2) := by
  rw [read]
  simp [h]

/-- A name ends in the text, unless a backslash ends the text. -/
theorem local_read (s : List Char) : Local read s := by
  fun_induction read s with
  | case1 =>
    left
    refine EndsIn.of_rest [] [] fun y hy => ?_
    rw [List.nil_append, read.eq_def]
    cases hy <;> rfl
  | case2 c rest hslash hline =>
    left
    refine EndsIn.of_rest [] (c :: rest) fun y hy => ?_
    rw [List.cons_append, read]
    simp [hslash, hline, startsNewline_append hy]
  | case3 c rest hslash hline _ _ _ _ ih =>
    obtain rfl := beq_iff_eq.1 hslash
    rw [Bool.not_eq_true] at hline
    cases rest with
    | nil =>
      -- The backslash takes the comma, and nothing is left.
      right
      rw [RunsOver, List.cons_append, read_escape rfl, List.nil_append, Escape.read_comma, read]
    | cons d rest =>
      refine ih.comp ((Escape.read (d :: rest)).1 :: ·) fun y hy => ?_
      rw [List.cons_append, read_escape (by rw [startsNewline_append hy, hline]),
        Escape.endsIn_read d rest y hy]
  | case4 c rest hslash hnul _ _ _ ih =>
    refine ih.comp (replacementChar :: ·) fun y hy => ?_
    rw [List.cons_append, read]
    simp [hslash, hnul]
  | case5 c rest hslash hnul hchar _ _ _ ih =>
    refine ih.comp (c :: ·) fun y hy => ?_
    rw [List.cons_append, read]
    simp [hslash, hnul, hchar]
  | case6 c rest hslash hnul hchar =>
    left
    refine EndsIn.of_rest [] (c :: rest) fun y hy => ?_
    rw [List.cons_append, read]
    simp [hslash, hnul, hchar]

end Name

/-! ## Strings, URLs and comments -/

namespace QuotedText

/-- A string that has been read: what it is, and what follows. -/
def Result.parts (r : Result) : (List Char × Bool) × List Char :=
  ((r.text, r.complete), r.rest)

theorem parts_cons (c : Char) (r : Result) :
    (r.cons c).parts = ((c :: r.parts.1.1, r.parts.1.2), r.parts.2) := rfl

variable {quote : Char}

theorem ne_of_isQuote (hquote : Token.isQuote quote = true) {c : Char}
    (hc : Token.isQuote c = false) : (c == quote) = false := by
  rw [Bool.eq_false_iff]
  intro h
  rw [beq_iff_eq.1 h, hquote] at hc
  cases hc

/-- A line end after a backslash is no part of the string. -/
theorem read_continued (hquote : Token.isQuote quote = true) (h : startsNewline s = true) :
    read quote ('\\' :: s) = read quote (dropNewline s) := by
  have hs : s.isEmpty = false := by
    cases s with
    | nil => cases h
    | cons c s => rfl
  rw [read]
  simp [ne_of_isQuote hquote, Token.isQuote, Text.isNewline, hs, h]

theorem read_escape (hquote : Token.isQuote quote = true) {c : Char}
    (hc : Text.isNewline c = false) (s : List Char) :
    read quote ('\\' :: c :: s) =
      (read quote (Escape.read (c :: s)).2).cons (Escape.read (c :: s)).1 := by
  have hnewline : startsNewline (c :: s) = false := hc
  rw [read]
  simp [ne_of_isQuote hquote, Token.isQuote, Text.isNewline, hnewline]

/-- A comma at the end belongs to a string that is not over. -/
theorem read_comma (hquote : Token.isQuote quote = true) :
    read quote [','] = ⟨[','], true, []⟩ := by
  simp [read, ne_of_isQuote hquote, Token.isQuote, Text.isNewline, Result.cons]

/-- A string ends in the text, unless its quote is missing. -/
theorem local_read (hquote : Token.isQuote quote = true) (s : List Char) :
    Local (fun s => (read quote s).parts) s := by
  fun_induction read quote s with
  | case1 =>
    right
    rw [RunsOver, List.nil_append, read_comma hquote, Result.parts]
  | case2 c rest hc =>
    left
    refine EndsIn.of_rest ([], true) rest fun y hy => ?_
    simp [read, hc, Result.parts]
  | case3 c rest hc hline =>
    left
    refine EndsIn.of_rest ([], false) (c :: rest) fun y hy => ?_
    simp [read, hc, hline, Result.parts]
  | case4 c rest hc hline hslash hrest =>
    -- With a comma behind it, the backslash is no longer the last character.
    right
    obtain rfl := beq_iff_eq.1 hslash
    obtain rfl := List.isEmpty_iff.1 hrest
    rw [RunsOver, List.singleton_append, read_escape hquote rfl [], Escape.read_comma, read]
    rfl
  | case5 c rest hc hline hslash hrest hnewline _ ih =>
    obtain rfl := beq_iff_eq.1 hslash
    refine ih.comp id fun y hy => ?_
    rw [List.cons_append, read_continued hquote (by rw [startsNewline_append hy, hnewline]),
      dropNewline_append hy]
    rfl
  | case6 c rest hc hline hslash hrest hnewline _ ih =>
    obtain rfl := beq_iff_eq.1 hslash
    rw [Bool.not_eq_true] at hnewline
    cases rest with
    | nil => cases hrest rfl
    | cons d rest =>
      refine ih.comp (fun p => ((Escape.read (d :: rest)).1 :: p.1, p.2)) fun y hy => ?_
      rw [List.cons_append, List.cons_append, read_escape hquote hnewline,
        ← List.cons_append, Escape.endsIn_read d rest y hy, parts_cons]
  | case7 c rest hc hline hslash hnul ih =>
    refine ih.comp (fun p => (replacementChar :: p.1, p.2)) fun y hy => ?_
    simp [read, hc, hline, hslash, hnul, parts_cons]
  | case8 c rest hc hline hslash hnul ih =>
    refine ih.comp (fun p => (c :: p.1, p.2)) fun y hy => ?_
    simp [read, hc, hline, hslash, hnul, parts_cons]

end QuotedText

namespace Url

/-- A URL that has been read: its text unless it breaks off, and what follows. -/
def Result.parts : Result → Option (List Char) × List Char
  | good text rest => (some text, rest)
  | broken rest => (none, rest)

theorem parts_cons (c : Char) (r : Result) :
    (r.cons c).parts = (r.parts.1.map (c :: ·), r.parts.2) := by
  cases r <;> rfl

theorem local_close (s : List Char) : Local (fun s => (close s).parts) s := by
  cases h : s.dropWhile isSpace with
  | nil =>
    right
    have hcomma : (s ++ [',']).dropWhile isSpace = [','] := by
      rw [(Stop.comma []).dropWhile_append rfl rfl, h]
      rfl
    simp [RunsOver, close, hcomma, Result.parts]
  | cons c rest =>
    left
    refine EndsIn.of_rest (if c == ')' then some [] else none) rest fun y hy => ?_
    have happend : (s ++ y).dropWhile isSpace = c :: (rest ++ y) := by
      rw [hy.dropWhile_append rfl rfl, h]
      rfl
    simp only [close, happend]
    split <;> rfl

theorem scan_escape (h : startsNewline s = false) :
    scan ('\\' :: s) = (scan (Escape.read s).2).cons (Escape.read s).1 := by
  rw [scan]
  simp [isSpace, Text.isNewline, isBreak, h]

/-- A comma at the end belongs to a URL that is not over. -/
theorem scan_comma : scan [','] = .good [','] [] := by
  simp [scan, isSpace, Text.isNewline, isBreak, Result.cons]

/-- A URL ends in the text, unless its parenthesis is missing. -/
theorem local_scan (s : List Char) : Local (fun s => (scan s).parts) s := by
  fun_induction scan s with
  | case1 =>
    right
    rw [RunsOver, List.nil_append, scan_comma, Result.parts]
  | case2 c rest hspace =>
    refine (local_close rest).comp id fun y hy => ?_
    simp [scan, hspace]
  | case3 c rest hspace hparen =>
    left
    refine EndsIn.of_rest (some []) rest fun y hy => ?_
    simp [scan, hspace, hparen, Result.parts]
  | case4 c rest hspace hparen hbreak =>
    left
    refine EndsIn.of_rest none rest fun y hy => ?_
    simp [scan, hspace, hparen, hbreak, Result.parts]
  | case5 c rest hspace hparen hbreak hslash hnewline =>
    left
    refine EndsIn.of_rest none rest fun y hy => ?_
    simp [scan, hspace, hparen, hbreak, hslash, startsNewline_append hy, hnewline, Result.parts]
  | case6 c rest hspace hparen hbreak hslash hnewline _ ih =>
    obtain rfl := beq_iff_eq.1 hslash
    rw [Bool.not_eq_true] at hnewline
    cases rest with
    | nil =>
      -- Again the backslash takes the comma.
      right
      rw [RunsOver, List.singleton_append, scan_escape rfl, Escape.read_comma, scan]
      rfl
    | cons d rest =>
      refine ih.comp (Option.map ((Escape.read (d :: rest)).1 :: ·)) fun y hy => ?_
      rw [List.cons_append, scan_escape (by rw [startsNewline_append hy, hnewline]),
        Escape.endsIn_read d rest y hy, parts_cons]
  | case7 c rest hspace hparen hbreak hslash hnul ih =>
    refine ih.comp (Option.map (replacementChar :: ·)) fun y hy => ?_
    simp [scan, hspace, hparen, hbreak, hslash, hnul, parts_cons]
  | case8 c rest hspace hparen hbreak hslash hnul ih =>
    refine ih.comp (Option.map (c :: ·)) fun y hy => ?_
    simp [scan, hspace, hparen, hbreak, hslash, hnul, parts_cons]

/-- The parenthesis of a broken URL is found in the text, or nowhere. -/
theorem recover_append (s : List Char) :
    (recover s ≠ [] ∧ ∀ y, recover (s ++ y) = recover s ++ y) ∨ recover (s ++ [',']) = [] := by
  fun_induction recover s with
  | case1 => exact .inr rfl
  | case2 c rest hc ih =>
    simpa [recover, hc] using ih
  | case3 c rest hc ih =>
    simpa [recover, hc] using ih
  | case4 c rest _ hc =>
    obtain rfl := beq_iff_eq.1 hc
    exact .inl ⟨by simp, fun y => rfl⟩
  | case5 c rest hescape hc ih =>
    by_cases hslash : c = '\\'
    · -- A backslash that nothing follows is the last character.
      right
      subst hslash
      cases rest with
      | nil => rfl
      | cons d rest => exact absurd rfl (hescape d rest rfl)
    · simpa [recover, hslash, hc] using ih

end Url

namespace Comment

/-- A comment ends in the text, unless its mark is missing. -/
theorem local_read (s : List Char) : Local read s := by
  fun_induction read s with
  | case1 => exact .inr rfl
  | case2 rest =>
    left
    exact EndsIn.of_rest [] rest fun y hy => rfl
  | case3 c rest hmark _ _ _ ih =>
    -- A star at the end could be half of the mark, but a comma does not complete it.
    by_cases hstar : c = '*' ∧ rest = []
    · obtain ⟨rfl, rfl⟩ := hstar
      exact .inr rfl
    · refine ih.comp (c :: ·) fun y hy => ?_
      rw [List.cons_append, read]
      -- The mark would have to stand in the text already.
      rintro after rfl hafter
      cases rest with
      | nil => exact hstar ⟨rfl, rfl⟩
      | cons d rest =>
        obtain rfl : d = '/' := (List.cons.inj hafter).1
        exact hmark rest rfl rfl

end Comment

end Scss
