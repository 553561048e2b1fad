import Scss.Token.Lexeme
import Scss.Token.Position

/-!
# Components

The lexemes of a text form a tree: a lexeme that opens a bracket holds what follows, up to the
lexeme that closes it or to the end of the text.  Inside a block only its own closing bracket
counts; other closing brackets are ordinary lexemes.

## Main definitions

* `Component`: a lexeme, or a block with its components;
* `Component.ofLexemes`: the components of a sequence of lexemes;
* `Component.read`: the components of a text.
-/

namespace Scss

/-- A lexeme, or a block. -/
inductive Component where
  /-- A lexeme that opens no block. -/
  | leaf (lexeme : Lexeme)
  /-- A block: what opens it, what it holds, and what closes it unless the text ends before. -/
  | block (opener : Lexeme) (inner : List Component) (closer : Option Lexeme)

/-- A block whose end has not been seen. -/
structure OpenBlock where
  /-- What opens the block. -/
  opener : Lexeme
  /-- The bracket to be closed. -/
  bracket : Bracket
  /-- The components before the block, the last one first. -/
  before : List Component

/-- The components read so far: blocks still open, and components in the innermost of them, the
last one first. -/
structure Nesting where
  /-- The open blocks, the innermost first. -/
  blocks : List OpenBlock
  /-- The components after the innermost opening bracket, the last one first. -/
  done : List Component

namespace Nesting

/-- Nothing read. -/
def start : Nesting := ⟨[], []⟩

/-- Closes the innermost block. -/
def close (closer : Option Lexeme) (block : OpenBlock) (blocks : List OpenBlock)
    (done : List Component) : Nesting :=
  ⟨blocks, .block block.opener done.reverse closer :: block.before⟩

/-- Takes the next lexeme in. -/
def feed (n : Nesting) (l : Lexeme) : Nesting :=
  match l.token.opens? with
  | some bracket => ⟨⟨l, bracket, n.done⟩ :: n.blocks, []⟩
  | none =>
    match n.blocks with
    | block :: blocks =>
      if l.token.closes? = some block.bracket then close (some l) block blocks n.done
      else ⟨block :: blocks, .leaf l :: n.done⟩
    | [] => ⟨[], .leaf l :: n.done⟩

/-- The components at the end of the text, which closes all blocks. -/
def finish (blocks : List OpenBlock) (done : List Component) : List Component :=
  match blocks with
  | [] => done.reverse
  | block :: outer => finish outer (close none block outer done).done

end Nesting

mutual

/-- The text of a component. -/
def Component.source : Component → List Char
  | .leaf l => l.source
  | .block opener inner closer =>
    opener.source ++ Component.sourceAll inner ++ closer.elim [] Lexeme.source

/-- The text of some components. -/
def Component.sourceAll : List Component → List Char
  | [] => []
  | c :: rest => c.source ++ Component.sourceAll rest

end

namespace Component

/-- The components that some lexemes form. -/
def ofLexemes (lexemes : List Lexeme) : List Component :=
  let n := lexemes.foldl Nesting.feed .start
  Nesting.finish n.blocks n.done

/-- The components of a text. -/
def read (text : String) : List Component :=
  ofLexemes (Lexeme.readAll text.toList)

/-- The token at the start of a component. -/
def token : Component → Token
  | .leaf l => l.token
  | .block opener _ _ => opener.token

/-- The text of the token at the start of a component. -/
def tokenSource : Component → List Char
  | .leaf l => l.source
  | .block opener _ _ => opener.source

/-- Whether the component is a comment. -/
def isComment (c : Component) : Bool :=
  c.token.isComment

/-- Whether the component is whitespace. -/
def isWhitespace (c : Component) : Bool :=
  c.token.isWhitespace

/-- Whether the component is whitespace or a comment. -/
def isBlank (c : Component) : Bool :=
  c.isWhitespace || c.isComment

end Component

end Scss
