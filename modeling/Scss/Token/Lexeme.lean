import Scss.Token.Basic
import Scss.Token.Text

/-!
# Lexemes

A lexeme is a token with the text it was read from.  Every text is a sequence of lexemes: what
starts no token of another kind is a token of one character.

## Main definitions

* `Token.read`: the token at the start of a text, and what follows it;
* `Lexeme`, with `Lexeme.readAll`: a text cut into lexemes.

## Main results

* `Token.suffix_read`: what follows a token is an end of the text after its first character.
-/

namespace Scss

namespace Numeral

/-- Whether a numeral, perhaps with a sign, starts the text. -/
def starts (s : List Char) : Bool :=
  startsDigits (scanSign s).2

end Numeral

namespace Token

/-- Reads the percent sign or the unit that follows a number. -/
def readUnit (n : Numeral) (s : List Char) : Token × List Char :=
  match s with
  | '%' :: after => (.percentage n, after)
  | _ =>
    let unit := Name.read s
    if Name.starts s then (.dimension n (String.ofList unit.1), unit.2) else (.number n, s)

/-- Reads a number with the percent sign or the unit that follows it. -/
def readNumeric (s : List Char) : Token × List Char :=
  let numeral := Numeral.scan s
  readUnit numeral.1 numeral.2

/-- Whether `c` is a quote. -/
def isQuote (c : Char) : Bool :=
  c == '"' || c == '\x27'

/-- Reads what follows a name and an opening parenthesis when the name is `url`: a URL, unless it
stands in quotes. -/
def readUrl (name : String) (s : List Char) : Token × List Char :=
  let start := s.dropWhile isSpace
  if start.head?.any isQuote then (.function name, s)
  else
    match Url.scan start with
    | .good text after => (.unquotedUrl (String.ofList text), after)
    | .broken after =>
      let stop := Url.recover after
      (.badUrl (String.ofList (start.take (start.length - stop.length))), stop.drop 1)

/-- Reads the opening parenthesis that may follow a name. -/
def readParen (name : List Char) (s : List Char) : Token × List Char :=
  match s with
  | '(' :: after =>
    if name.map Char.toLower == ['u', 'r', 'l'] then readUrl (String.ofList name) after
    else (.function (String.ofList name), after)
  | _ => (.ident (String.ofList name), s)

/-- Reads a name, a function or a URL. -/
def readName (s : List Char) : Token × List Char :=
  let name := Name.read s
  readParen name.1 name.2

/-- Reads a string after its opening quote. -/
def readString (quote : Char) (s : List Char) : Token × List Char :=
  let r := QuotedText.read quote s
  if r.complete then (.quotedString (String.ofList r.text), r.rest)
  else (.badString (String.ofList r.text), r.rest)

/-- Reads what follows a `#`. -/
def readHash (s : List Char) : Token × List Char :=
  let name := Name.read s
  if Name.starts s then (.idHash (String.ofList name.1), name.2)
  else if s.head?.any (fun c => c.isDigit || c == '-') then (.hash (String.ofList name.1), name.2)
  else (.delim '#', s)

/-- Reads what follows an `@`. -/
def readAt (s : List Char) : Token × List Char :=
  let name := Name.read s
  if Name.starts s then (.atKeyword (String.ofList name.1), name.2) else (.delim '@', s)

/-- Reads a mark that starts with `c`. -/
def readMark (c : Char) (rest : List Char) : Token × List Char :=
  match c, rest with
  | '#', _ => readHash rest
  | '@', _ => readAt rest
  | '/', '*' :: after =>
    let comment := Comment.read after
    (.comment (String.ofList comment.1), comment.2)
  | '~', '=' :: after => (.includeMatch, after)
  | '|', '=' :: after => (.dashMatch, after)
  | '^', '=' :: after => (.prefixMatch, after)
  | '$', '=' :: after => (.suffixMatch, after)
  | '*', '=' :: after => (.substringMatch, after)
  | '<', '!' :: '-' :: '-' :: after => (.commentOpen, after)
  | ':', _ => (.colon, rest)
  | ';', _ => (.semicolon, rest)
  | ',', _ => (.comma, rest)
  | '(', _ => (.opening .round, rest)
  | ')', _ => (.closing .round, rest)
  | '[', _ => (.opening .square, rest)
  | ']', _ => (.closing .square, rest)
  | '\x7b', _ => (.opening .curly, rest)
  | '\x7d', _ => (.closing .curly, rest)
  | _, _ => (.delim c, rest)

/-- Reads the token at the start of the text `c :: rest`. -/
def read (c : Char) (rest : List Char) : Token × List Char :=
  if isSpace c then
    (.whitespace (String.ofList (c :: rest.takeWhile isSpace)), rest.dropWhile isSpace)
  else if isQuote c then readString c rest
  else if Numeral.starts (c :: rest) then readNumeric (c :: rest)
  else if ['-', '-', '>'].isPrefixOf (c :: rest) then (.commentClose, rest.drop 2)
  else if Name.starts (c :: rest) then readName (c :: rest)
  else readMark c rest

end Token

/-! ## Reading makes progress -/

/-- A numeral takes at least one character. -/
theorem Numeral.suffix_scan_of_starts {c : Char} {rest : List Char}
    (h : Numeral.starts (c :: rest) = true) : (Numeral.scan (c :: rest)).2 <:+ rest := by
  by_cases hsign : Numeral.isSign c = true
  · have hsigned : (Numeral.scanSign (c :: rest)).2 = rest := by
      rw [Numeral.scanSign, if_pos hsign]
    have hscan := Numeral.suffix_scan (c :: rest)
    rwa [hsigned] at hscan
  · have hsigned : (Numeral.scanSign (c :: rest)).2 = c :: rest := by
      rw [Numeral.scanSign, if_neg hsign]
    rw [Numeral.starts, hsigned] at h
    have hfraction := Numeral.suffix_scanFraction_of_startsDigits h
    rw [← hsigned] at hfraction
    exact (Numeral.suffix_scanExponent _).trans hfraction

namespace Token

theorem suffix_readUnit (n : Numeral) (s : List Char) : (readUnit n s).2 <:+ s := by
  unfold readUnit
  split
  · exact List.suffix_cons _ _
  · dsimp only
    split
    · exact Name.suffix_read s
    · exact List.suffix_rfl

theorem suffix_readNumeric {c : Char} {rest : List Char} (h : Numeral.starts (c :: rest) = true) :
    (readNumeric (c :: rest)).2 <:+ rest :=
  (suffix_readUnit _ _).trans (Numeral.suffix_scan_of_starts h)

theorem suffix_readUrl (name : String) (s : List Char) : (readUrl name s).2 <:+ s := by
  have hspace := List.dropWhile_suffix isSpace (l := s)
  have hscan := Url.suffix_rest_scan (s.dropWhile isSpace)
  unfold readUrl
  dsimp only
  split
  · exact List.suffix_rfl
  · split
    · rename_i text after heq
      rw [heq] at hscan
      exact hscan.trans hspace
    · rename_i after heq
      rw [heq] at hscan
      exact (List.drop_suffix _ _).trans <| (Url.suffix_recover after).trans <| hscan.trans hspace

theorem suffix_readParen (name s : List Char) : (readParen name s).2 <:+ s := by
  unfold readParen
  split
  · split
    · exact (suffix_readUrl _ _).trans (List.suffix_cons _ _)
    · exact List.suffix_cons _ _
  · exact List.suffix_rfl

theorem suffix_readName {c : Char} {rest : List Char} (h : Name.starts (c :: rest) = true) :
    (readName (c :: rest)).2 <:+ rest :=
  (suffix_readParen _ _).trans (Name.suffix_read_of_starts h)

theorem suffix_readString (quote : Char) (s : List Char) : (readString quote s).2 <:+ s := by
  unfold readString
  dsimp only
  split <;> exact QuotedText.suffix_rest_read quote s

theorem suffix_readMark (c : Char) (rest : List Char) : (readMark c rest).2 <:+ rest := by
  have hname := Name.suffix_read rest
  unfold readMark
  split
  · unfold readHash
    dsimp only
    split
    · exact hname
    · split
      · exact hname
      · exact List.suffix_rfl
  · unfold readAt
    dsimp only
    split
    · exact hname
    · exact List.suffix_rfl
  · exact (Comment.suffix_read _).trans (List.suffix_cons _ _)
  · exact List.suffix_cons _ _
  · exact List.suffix_cons _ _
  · exact List.suffix_cons _ _
  · exact List.suffix_cons _ _
  · exact List.suffix_cons _ _
  · exact List.suffix_append ['!', '-', '-'] _
  all_goals exact List.suffix_rfl

/-- What follows a token is an end of the text after its first character. -/
theorem suffix_read (c : Char) (rest : List Char) : (read c rest).2 <:+ rest := by
  unfold read
  split
  · exact List.dropWhile_suffix _
  · split
    · exact suffix_readString c rest
    · split
      · rename_i hnumeral
        exact suffix_readNumeric hnumeral
      · split
        · exact List.drop_suffix 2 rest
        · split
          · rename_i hname
            exact suffix_readName hname
          · exact suffix_readMark c rest

/-- A token takes at least one character. -/
theorem length_read (c : Char) (rest : List Char) : (read c rest).2.length ≤ rest.length :=
  (suffix_read c rest).length_le

end Token

/-- A token with the text it was read from. -/
structure Lexeme where
  /-- The token. -/
  token : Token
  /-- Its text in the source. -/
  source : List Char
  deriving DecidableEq, Repr

namespace Lexeme

/-- Cuts a text into lexemes. -/
def readAll (s : List Char) : List Lexeme :=
  match s with
  | [] => []
  | c :: rest =>
    have := Token.length_read c rest
    let after := (Token.read c rest).2
    ⟨(Token.read c rest).1, (c :: rest).take ((c :: rest).length - after.length)⟩ ::
      readAll (Token.read c rest).2
termination_by s.length

end Lexeme

end Scss
