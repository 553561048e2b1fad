import Scss.Token.Component

/-!
# What cannot be read

## Main definitions

* `SyntaxError`: a cause and a position, with `SyntaxError.message` for its wording;
* `SyntaxError.unexpected`, `SyntaxError.atEnd`: the common causes.
-/

namespace Scss

/-- Why a text cannot be read. -/
inductive SyntaxError.Cause where
  /-- A token that cannot stand where it does. -/
  | unexpected (token : Token)
  /-- The text or the block ends too early. -/
  | endOfInput
  /-- The flag `!important` on a variable. -/
  | importantVariable
  /-- The flag `!default` on a property. -/
  | defaultProperty (property : String)
  /-- A colon without a name in front. -/
  | missingProperty
  /-- A flag that does not exist. -/
  | unknownFlag (flag : String)
  deriving DecidableEq, Repr

/-- Why and where a text cannot be read. -/
structure SyntaxError where
  /-- Where. -/
  position : Position
  /-- Why. -/
  cause : SyntaxError.Cause
  deriving DecidableEq, Repr

/-- The wording of a cause. -/
def SyntaxError.Cause.message : SyntaxError.Cause → String
  | unexpected token => s!"unexpected {token.describe}"
  | endOfInput => "unexpected end of input"
  | importantVariable => "'!important' is not allowed on a variable"
  | defaultProperty property => s!"'!default' is not allowed on '{property}'"
  | missingProperty => "missing property name"
  | unknownFlag flag => s!"unknown flag '!{flag}'"

namespace SyntaxError

/-- The wording of an error, without its position. -/
def message (e : SyntaxError) : String :=
  e.cause.message

/-- A component that starts at `p` and cannot stand there, reported after its first token. -/
def unexpected (p : Position) (c : Component) : SyntaxError :=
  ⟨p.advance c.tokenSource, .unexpected c.token⟩

/-- A component that cannot stand after `p`, reported at `p`. -/
def unexpectedAfter (p : Position) (c : Component) : SyntaxError :=
  ⟨p, .unexpected c.token⟩

/-- The end of the input at `p`. -/
def atEnd (p : Position) : SyntaxError :=
  ⟨p, .endOfInput⟩

end SyntaxError

end Scss
