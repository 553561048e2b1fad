import Scss.Text.Quoted
import Scss.Token.Numeral

/-!
# Tokens

The tokens of a stylesheet, and how messages show them.

## Main definitions

* `Token`;
* `Bracket`, with `Token.opens?` and `Token.closes?`: the tokens that open and close blocks;
* `Token.describe`: a token as a message shows it.
-/

namespace Scss

/-- The three kinds of brackets. -/
inductive Bracket where
  /-- Parentheses. -/
  | round
  /-- Square brackets. -/
  | square
  /-- Braces. -/
  | curly
  deriving DecidableEq, Repr

/-- A token. -/
inductive Token where
  /-- A name. -/
  | ident (name : String)
  /-- A name after `@`. -/
  | atKeyword (name : String)
  /-- Name characters after `#` that make no name. -/
  | hash (text : String)
  /-- A name after `#`. -/
  | idHash (name : String)
  /-- A string. -/
  | quotedString (text : String)
  /-- A URL without quotes. -/
  | unquotedUrl (text : String)
  /-- Any other character. -/
  | delim (char : Char)
  /-- A number. -/
  | number (numeral : Numeral)
  /-- A number and `%`. -/
  | percentage (numeral : Numeral)
  /-- A number and a unit. -/
  | dimension (numeral : Numeral) (unit : String)
  /-- Blanks and line ends. -/
  | whitespace (text : String)
  /-- What stands inside a comment. -/
  | comment (text : String)
  /-- A colon. -/
  | colon
  /-- A semicolon. -/
  | semicolon
  /-- A comma. -/
  | comma
  /-- The sign `~=`. -/
  | includeMatch
  /-- The sign `|=`. -/
  | dashMatch
  /-- The sign `^=`. -/
  | prefixMatch
  /-- The sign `$=`. -/
  | suffixMatch
  /-- The sign `*=`. -/
  | substringMatch
  /-- The start of an HTML comment. -/
  | commentOpen
  /-- The end of an HTML comment. -/
  | commentClose
  /-- A name and an opening parenthesis. -/
  | function (name : String)
  /-- An opening bracket. -/
  | opening (bracket : Bracket)
  /-- A closing bracket. -/
  | closing (bracket : Bracket)
  /-- A URL that breaks off. -/
  | badUrl (text : String)
  /-- A string that ends with its line. -/
  | badString (text : String)
  deriving DecidableEq, Repr

namespace Token

/-- The bracket that a token opens. -/
def opens? : Token → Option Bracket
  | function _ => some .round
  | opening bracket => some bracket
  | _ => none

/-- The bracket that a token closes. -/
def closes? : Token → Option Bracket
  | closing bracket => some bracket
  | _ => none

/-- Whether the token is whitespace. -/
def isWhitespace : Token → Bool
  | whitespace _ => true
  | _ => false

/-- Whether the token is a comment. -/
def isComment : Token → Bool
  | comment _ => true
  | _ => false

/-- The name of a bracket in messages. -/
def bracketName : Bracket → String
  | .round => "Parenthesis"
  | .square => "SquareBracket"
  | .curly => "CurlyBracket"

/-- The fields of a numeric token in messages; `label` names its value `x`. -/
def describeNumeral (kind label : String) (n : Numeral) (x : Float) (more : String) : String :=
  let integer := n.integer?.elim "None" (s!"Some({·})")
  let value := Single.toText (Single.ofDouble x)
  kind ++ " \x7b has_sign: " ++ toString n.sign.isSome ++ ", " ++ label ++ ": " ++ value ++
    ", int_value: " ++ integer ++ more ++ " \x7d"

/-- A token as a message shows it. -/
def describe : Token → String
  | ident name => s!"Ident({Text.quoted name})"
  | atKeyword name => s!"AtKeyword({Text.quoted name})"
  | hash text => s!"Hash({Text.quoted text})"
  | idHash name => s!"IDHash({Text.quoted name})"
  | quotedString text => s!"QuotedString({Text.quoted text})"
  | unquotedUrl text => s!"UnquotedUrl({Text.quoted text})"
  | delim char => s!"Delim({Text.quotedChar char})"
  | number n => describeNumeral "Number" "value" n n.approximate ""
  | percentage n => describeNumeral "Percentage" "unit_value" n (n.approximate / 100) ""
  | dimension n unit =>
    describeNumeral "Dimension" "value" n n.approximate (", unit: " ++ Text.quoted unit)
  | whitespace text => s!"WhiteSpace({Text.quoted text})"
  | comment text => s!"Comment({Text.quoted text})"
  | colon => "Colon"
  | semicolon => "Semicolon"
  | comma => "Comma"
  | includeMatch => "IncludeMatch"
  | dashMatch => "DashMatch"
  | prefixMatch => "PrefixMatch"
  | suffixMatch => "SuffixMatch"
  | substringMatch => "SubstringMatch"
  | commentOpen => "CDO"
  | commentClose => "CDC"
  | function name => s!"Function({Text.quoted name})"
  | opening bracket => bracketName bracket ++ "Block"
  | closing bracket => "Close" ++ bracketName bracket
  | badUrl text => s!"BadUrl({Text.quoted text})"
  | badString text => s!"BadString({Text.quoted text})"

end Token

end Scss
