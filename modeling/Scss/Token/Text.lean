import Scss.Token.Name

/-!
# Strings, URLs and comments

Longer texts inside a stylesheet.  A string runs to its quote, and breaks off at a line end that is
not escaped.  A URL without quotes runs to its parenthesis; blanks around it are dropped, and
anything that cannot stand in it breaks it off.  A comment runs to its closing mark.  The end of
the input ends all three.

## Main definitions

* `QuotedText.read`: a string after its opening quote;
* `Url.scan`: a URL from its first character;
* `Comment.read`: a comment after its opening mark.

## Main results

* `QuotedText.suffix_rest_read`, `Url.suffix_rest_scan`, `Comment.suffix_read`: what follows is an
  end of the text.
-/

namespace Scss

namespace QuotedText

/-- A string that has been read. -/
structure Result where
  /-- The text between the quotes, without its escapes. -/
  text : List Char
  /-- Whether the string ended with its quote or with the input. -/
  complete : Bool
  /-- What follows. -/
  rest : List Char

/-- Puts a character in front. -/
def Result.cons (c : Char) (r : Result) : Result :=
  { r with text := c :: r.text }

/-- Reads a string after its opening quote. -/
def read (quote : Char) (s : List Char) : Result :=
  match s with
  | [] => ⟨[], true, []⟩
  | c :: rest =>
    if c == quote then ⟨[], true, rest⟩
    else if Text.isNewline c then ⟨[], false, s⟩
    else if c == '\\' then
      if rest.isEmpty then ⟨[], true, []⟩
      else if startsNewline rest then
        have := length_dropNewline rest
        read quote (dropNewline rest)
      else
        have := Escape.length_read rest
        (read quote (Escape.read rest).2).cons (Escape.read rest).1
    else if c == '\x00' then (read quote rest).cons replacementChar
    else (read quote rest).cons c
termination_by s.length

theorem suffix_rest_read (quote : Char) (s : List Char) :
    (read quote s).rest <:+ s := by
  fun_induction read quote s with
  | case1 => exact List.suffix_rfl
  | case2 c rest => exact List.suffix_cons c rest
  | case3 => exact List.suffix_rfl
  | case4 => exact List.nil_suffix
  | case5 c rest _ _ _ _ _ _ ih =>
    exact (ih.trans (suffix_dropNewline rest)).trans (List.suffix_cons c rest)
  | case6 c rest _ _ _ _ _ _ ih =>
    exact (ih.trans (Escape.suffix_read rest)).trans (List.suffix_cons c rest)
  | case7 c rest _ _ _ _ ih => exact ih.trans (List.suffix_cons c rest)
  | case8 c rest _ _ _ _ ih => exact ih.trans (List.suffix_cons c rest)

end QuotedText

namespace Url

/-- A URL that has been read. -/
inductive Result where
  /-- A complete URL, without its escapes, and what follows. -/
  | good (text rest : List Char)
  /-- A URL that breaks off; `rest` is where the search for its end starts. -/
  | broken (rest : List Char)

/-- Puts a character in front. -/
def Result.cons (c : Char) : Result → Result
  | good text rest => good (c :: text) rest
  | broken rest => broken rest

/-- What follows, in either case. -/
def Result.rest : Result → List Char
  | good _ rest => rest
  | broken rest => rest

theorem rest_cons (c : Char) (r : Result) : (r.cons c).rest = r.rest := by
  cases r <;> rfl

/-- Whether `c` breaks a URL off: a quote, a parenthesis or a character that cannot be printed. -/
def isBreak (c : Char) : Bool :=
  let n := c.toNat
  c == '"' || c == '\x27' || c == '(' ||
    (1 ≤ n && n ≤ 8) || n == 0x0b || (0x0e ≤ n && n ≤ 0x1f) || n == 0x7f

/-- Reads the end of a URL after blanks. -/
def close (s : List Char) : Result :=
  match s.dropWhile isSpace with
  | [] => .good [] []
  | c :: rest => if c == ')' then .good [] rest else .broken rest

/-- Reads a URL from its first character. -/
def scan (s : List Char) : Result :=
  match s with
  | [] => .good [] []
  | c :: rest =>
    if isSpace c then close rest
    else if c == ')' then .good [] rest
    else if isBreak c then .broken rest
    else if c == '\\' then
      if startsNewline rest then .broken rest
      else
        have := Escape.length_read rest
        (scan (Escape.read rest).2).cons (Escape.read rest).1
    else if c == '\x00' then (scan rest).cons replacementChar
    else (scan rest).cons c
termination_by s.length

/-- Searches the closing parenthesis of a broken URL; an escaped one does not count. -/
def recover : List Char → List Char
  | [] => []
  | '\\' :: c :: rest => if c == ')' || c == '\\' then recover rest else recover (c :: rest)
  | c :: rest => if c == ')' then c :: rest else recover rest

theorem suffix_recover (s : List Char) : recover s <:+ s := by
  fun_induction recover s with
  | case1 => exact List.suffix_rfl
  | case2 c rest _ ih => exact ih.trans (List.suffix_append ['\\', c] rest)
  | case3 c rest _ ih => exact ih.trans (List.suffix_cons _ _)
  | case4 c rest _ => exact List.suffix_rfl
  | case5 c rest _ _ ih => exact ih.trans (List.suffix_cons c rest)

theorem suffix_rest_close (s : List Char) : (close s).rest <:+ s := by
  have hspace := List.dropWhile_suffix isSpace (l := s)
  unfold close
  split
  · exact List.nil_suffix
  · rename_i c rest heq
    rw [heq] at hspace
    split <;> exact (List.suffix_cons c rest).trans hspace

theorem suffix_rest_scan (s : List Char) : (scan s).rest <:+ s := by
  fun_induction scan s with
  | case1 => exact List.suffix_rfl
  | case2 c rest => exact (suffix_rest_close rest).trans (List.suffix_cons c rest)
  | case3 c rest => exact List.suffix_cons c rest
  | case4 c rest => exact List.suffix_cons c rest
  | case5 c rest => exact List.suffix_cons c rest
  | case6 c rest _ _ _ _ _ _ ih =>
    rw [rest_cons]
    exact (ih.trans (Escape.suffix_read rest)).trans (List.suffix_cons c rest)
  | case7 c rest _ _ _ _ _ ih =>
    rw [rest_cons]
    exact ih.trans (List.suffix_cons c rest)
  | case8 c rest _ _ _ _ _ ih =>
    rw [rest_cons]
    exact ih.trans (List.suffix_cons c rest)

end Url

namespace Comment

/-- Reads a comment after its opening mark: its text, and what follows its closing mark. -/
def read : List Char → List Char × List Char
  | [] => ([], [])
  | '*' :: '/' :: rest => ([], rest)
  | c :: rest =>
    let (text, after) := read rest
    (c :: text, after)

theorem suffix_read (s : List Char) : (read s).2 <:+ s := by
  fun_induction read s with
  | case1 => exact List.suffix_rfl
  | case2 rest => exact List.suffix_append ['*', '/'] rest
  | case3 c rest _ text after heq ih =>
    rw [heq] at ih
    exact ih.trans (List.suffix_cons c rest)

end Comment

end Scss
