import Scss.Text.Blank
import Scss.Value.Style

/-!
# Stylesheets

A stylesheet is a sequence of statements: declarations of properties and of variables.

## Main definitions

* `Declaration`, with `Declaration.render` and `Declaration.describe`;
* `VariableDeclaration`;
* `Statement`, `Stylesheet`, with `Stylesheet.declarations` and `Stylesheet.variables`.
-/

namespace Scss

/-- The declaration of a property. -/
structure Declaration where
  /-- The name of the property, perhaps with markers. -/
  property : String
  /-- Its value. -/
  value : Value
  /-- Whether the declaration has the flag `!important`. -/
  important : Bool
  /-- The comment after the declaration, with its delimiters. -/
  comment : Option String
  /-- The line where the declaration starts, counted from one. -/
  line : Option Nat
  deriving Repr

/-- The declaration of a variable. -/
structure VariableDeclaration where
  /-- The name, without `$`. -/
  name : String
  /-- The value as written. -/
  expression : Value
  /-- Whether the declaration has the flag `!default`, which yields to an earlier one. -/
  guarded : Bool
  /-- The line where the declaration starts, counted from one. -/
  line : Option Nat
  deriving Repr

namespace Declaration

/-- The declaration as text, in the given style.  A value that is blank leaves only the comment,
which may be asked for or not. -/
def render (d : Declaration) (s : Style) (comments : Bool) : String :=
  let value := s.render d.value
  let body :=
    if (Text.trim value.toList).isEmpty then ""
    else d.property ++ ": " ++ value ++ (if d.important then " !important" else "") ++ ";"
  let comment := if comments then d.comment.getD "" else ""
  body ++ comment

/-- The declaration in a message. -/
def describe (d : Declaration) : String :=
  "Declaration [" ++ d.render .diagnostic true ++ "]"

end Declaration

/-- The declaration of a variable in a message. -/
def VariableDeclaration.describe (v : VariableDeclaration) : String :=
  "Variable [$" ++ v.name ++ ": " ++ Style.diagnostic.render v.expression ++
    (if v.guarded then " !default" else "") ++ "]"

/-- A statement of a stylesheet. -/
inductive Statement where
  /-- A property. -/
  | declaration (declaration : Declaration)
  /-- A variable. -/
  | variable (declaration : VariableDeclaration)
  deriving Repr

namespace Statement

/-- The declaration of a property, if the statement is one. -/
def asDeclaration? : Statement → Option Declaration
  | .declaration d => some d
  | .variable _ => none

/-- The declaration of a variable, if the statement is one. -/
def asVariable? : Statement → Option VariableDeclaration
  | .variable v => some v
  | .declaration _ => none

/-- The statement in a message. -/
def describe : Statement → String
  | .declaration d => d.describe
  | .variable v => v.describe

/-- Attaches a comment to a declaration. -/
def withComment (comment : Option String) : Statement → Statement
  | .declaration d => .declaration { d with comment }
  | .variable v => .variable v

end Statement

/-- The statements of a stylesheet, in source order. -/
abbrev Stylesheet := List Statement

namespace Stylesheet

/-- The declarations of properties, in order. -/
def declarations (sheet : Stylesheet) : List Declaration :=
  sheet.filterMap Statement.asDeclaration?

/-- The declarations of variables, in order. -/
def variableDeclarations (sheet : Stylesheet) : List VariableDeclaration :=
  sheet.filterMap Statement.asVariable?

end Stylesheet

end Scss
