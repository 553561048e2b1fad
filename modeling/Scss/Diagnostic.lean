import Scss.Token.SyntaxError

/-!
# Diagnostics

What is reported about a stylesheet.  Unbound variables and unknown functions are passed through;
everything else is fatal to the declaration, or to the whole compilation when it concerns a
variable or the text itself.

## Main definitions

* `Diagnostic`, with `Diagnostic.message`, `Diagnostic.line?`, `Diagnostic.isFatal`;
* `Diagnostic.ofSyntaxError`.
-/

namespace Scss

/-- A report about a stylesheet.  The context is the property or variable at work; lines count
from one. -/
inductive Diagnostic where
  /-- The text cannot be read. -/
  | parse (message : String) (line column : Nat)
  /-- A variable without a binding. -/
  | unboundVariable (name context : String) (line : Option Nat)
  /-- A function that is not registered. -/
  | unknownFunction (name context : String) (line : Option Nat)
  /-- An evaluation that failed, near an operator. -/
  | arithmetic (context : String) (operator : Option Char) (message : String) (line : Option Nat)
  /-- A function called with arguments that do not fit. -/
  | functionArgument (name context message : String) (line : Option Nat)
  /-- A variable that cannot be given a value. -/
  | invalidVariable (name message : String) (line : Option Nat)
  deriving DecidableEq, Repr

namespace Diagnostic

/-- The line in a message. -/
def atLine : Option Nat → String
  | some line => s!" (line {line})"
  | none => ""

/-- The operator in a message. -/
def near : Option Char → String
  | some operator => s!" near '{operator}'"
  | none => ""

/-- The wording of a diagnostic. -/
def message : Diagnostic → String
  | parse text line column => s!"SCSS parse error at line {line}, column {column}: {text}"
  | unboundVariable name context line =>
    s!"Undefined variable '${name}' in '{context}'{atLine line}"
  | unknownFunction name context line =>
    s!"Unknown function '{name}()' in '{context}'{atLine line}, passed through"
  | arithmetic context operator text line =>
    s!"Arithmetic error in '{context}'{atLine line}{near operator}: {text}"
  | functionArgument name context text line =>
    s!"Invalid call to '{name}()' in '{context}'{atLine line}: {text}"
  | invalidVariable name text line =>
    s!"Invalid variable declaration '${name}'{atLine line}: {text}"

/-- The line a diagnostic refers to, if it is known. -/
def line? : Diagnostic → Option Nat
  | parse _ line _ => some line
  | unboundVariable _ _ line | unknownFunction _ _ line | arithmetic _ _ _ line
  | functionArgument _ _ _ line | invalidVariable _ _ line => line

/-- Whether the diagnostic keeps something from being written. -/
def isFatal : Diagnostic → Bool
  | unboundVariable .. | unknownFunction .. => false
  | _ => true

/-- The report of a text that cannot be read. -/
def ofSyntaxError (e : SyntaxError) : Diagnostic :=
  .parse e.message (e.position.line + 1) e.position.column

end Diagnostic

end Scss
