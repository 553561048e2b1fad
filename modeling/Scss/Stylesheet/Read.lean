import Scss.Stylesheet.Basic
import Scss.Value.Read

/-!
# Reading stylesheets

Semicolons outside all blocks divide a text into statements.  A statement that starts with `$`
declares a variable, any other one a property.  A comment that follows the semicolon of a
declaration, with no line feed in between, belongs to the declaration.  The first statement that
cannot be read fails the whole.

## Main definitions

* `Component.statements`: the components between semicolons;
* `Statement.read`: one statement;
* `Stylesheet.read`: the stylesheet of a text.
-/

namespace Scss

namespace Component

/-- The components between semicolons, at least one part. -/
def statements : List Component → List (List Component)
  | [] => [[]]
  | c :: rest =>
    if c.token = .semicolon then [] :: statements rest
    else
      match statements rest with
      | [] => [[c]]
      | part :: parts => (c :: part) :: parts

/-- The comment at the start, if at most whitespace without a line feed stands before it. -/
def leadingComment : List Component → Option String
  | [] => none
  | c :: rest =>
    match c.token with
    | .whitespace text => if text.toList.contains '\n' then none else leadingComment rest
    | .comment text => some ("/*" ++ text ++ "*/")
    | _ => none

/-- Reads the name of a property to its colon: the name, the position after the colon, and what
follows.  The parts of the name are joined; `pending` tells that a `#` waits for its block. -/
def property (p : Position) (pending : Bool) (name : String) :
    List Component → Except SyntaxError (String × Position × List Component)
  | [] => .error (.atEnd p)
  | c :: rest =>
    let after := p.advance c.source
    if c.isComment then property after pending name rest
    else if pending then do
      property after false (name ++ (← marker p c)) rest
    else
      match c.token with
      | .colon => if name.isEmpty then .error ⟨after, .missingProperty⟩ else .ok (name, after, rest)
      | .whitespace _ => property after false name rest
      | .ident part => property after false (name ++ part) rest
      | .delim '#' => property after true name rest
      | _ => .error (.unexpected p c)

/-- Reads a colon, perhaps after blanks: the position after it, and what follows. -/
def colon (p : Position) (cs : List Component) :
    Except SyntaxError (Position × List Component) :=
  match skip isBlank p cs with
  | (q, []) => .error (.atEnd q)
  | (q, c :: rest) =>
    if c.token = .colon then .ok (q.advance c.source, rest) else .error (.unexpectedAfter p c)

end Component

namespace Statement

/-- Reads the value of a statement, with its flags, and the position after it. -/
def readValue (p : Position) (cs : List Component) : Except SyntaxError (Value × Flags × Position) := do
  let draft ← Draft.readAll (.start true) p cs
  return (draft.terms.classify, draft.flags, p.advance (Component.sourceAll cs))

/-- Reads the declaration of a variable after its `$`. -/
def readVariable (line : Nat) (p : Position) (cs : List Component) :
    Except SyntaxError VariableDeclaration := do
  let (name, p, cs) ← Component.name p cs
  let (p, cs) ← Component.colon p cs
  let (value, flags, p) ← readValue p cs
  if flags.important then throw ⟨p, .importantVariable⟩
  return ⟨bareName name, value, flags.default, some line⟩

/-- Reads the declaration of a property. -/
def readDeclaration (line : Nat) (p : Position) (cs : List Component) :
    Except SyntaxError Declaration := do
  let (property, p, cs) ← Component.property p false "" cs
  let (value, flags, p) ← readValue p cs
  if flags.default then throw ⟨p, .defaultProperty property⟩
  return ⟨property, value, flags.important, none, some line⟩

/-- Reads a statement, if there is more than blanks. -/
def read (p : Position) (cs : List Component) : Except SyntaxError (Option Statement) :=
  match Component.skip Component.isBlank p cs with
  | (_, []) => .ok none
  | (p, c :: rest) =>
    if c.token = .delim '$' then
      (readVariable (p.line + 1) (p.advance c.source) rest).map (some ∘ .variable)
    else (readDeclaration (p.line + 1) p (c :: rest)).map (some ∘ .declaration)

/-- Reads statements, the first of which starts at `p`.  Each but the last ends with a semicolon. -/
def readAll (p : Position) : List (List Component) → Except SyntaxError Stylesheet
  | [] => .ok []
  | part :: parts => do
    let statement? ← read p part
    let rest ← readAll ((p.advance (Component.sourceAll part)).nextColumn ';') parts
    match statement? with
    | none => return rest
    | some statement =>
      return statement.withComment (parts.head?.bind Component.leadingComment) :: rest

end Statement

/-- Reads a stylesheet. -/
def Stylesheet.read (text : String) : Except SyntaxError Stylesheet :=
  Statement.readAll .start (Component.statements (Component.read text))

end Scss
