import Scss.Compile.Settle
import Scss.Stylesheet.Read

/-!
# Compiling stylesheets

A compilation settles the variables of a stylesheet and then resolves each declaration on its own.
A declaration that fails stays as it was and is left out of the text; the others are replaced by
their resolved forms, and those with something to write give a line each.

## Main definitions

* `Options`, with `Options.style`: how the text is written;
* `Compiler`: options and registered functions;
* `Compiler.compile`: a stylesheet compiled, with its statements afterwards;
* `Compiler.compileInPlace`: the compilation or its failure, and the statements in either case;
* `Compiler.compileText`: a compilation from text.
-/

namespace Scss

/-- How a compilation writes its text. -/
structure Options where
  /-- Decimal places of numbers. -/
  places : Nat := Style.defaultPlaces
  /-- Whether comments are written. -/
  comments : Bool := true
  /-- The style; its own number of places does not count. -/
  style : Style := .standard
  deriving DecidableEq, Repr

/-- The style with the number of places in force. -/
def Options.output (o : Options) : Style :=
  match o.style with
  | .canonical _ => .canonical o.places
  | .diagnostic => .diagnostic

/-- What a compilation gives. -/
structure Compilation where
  /-- The text, one declaration a line. -/
  css : String
  /-- What was reported, in order. -/
  diagnostics : List Diagnostic
  deriving Repr

namespace Compilation

/-- The diagnostics of declarations that were left out. -/
def errors (c : Compilation) : List Diagnostic :=
  c.diagnostics.filter Diagnostic.isFatal

/-- The diagnostics that left nothing out. -/
def warnings (c : Compilation) : List Diagnostic :=
  c.diagnostics.filter (!·.isFatal)

/-- Whether a declaration was left out. -/
def hasErrors (c : Compilation) : Bool :=
  c.diagnostics.any Diagnostic.isFatal

end Compilation

/-- A statement after its compilation. -/
structure CompiledStatement where
  /-- The entries it made. -/
  journal : List Entry
  /-- The statement as it is now. -/
  statement : Statement
  /-- The line it gives, if any. -/
  line : Option String

/-- A compiler. -/
structure Compiler where
  /-- How text is written. -/
  options : Options := {}
  /-- The registered functions. -/
  registry : Registry := .builtin

namespace Compiler

/-- What a compilation works with. -/
def scope (c : Compiler) : Scope :=
  ⟨c.registry, c.options.output⟩

/-- Compiles one statement with settled variables. -/
def compileStatement (c : Compiler) (table : Variables) : Statement → CompiledStatement
  | .variable v => ⟨[], .variable v, none⟩
  | .declaration d =>
    let outcome := d.resolve c.scope table
    match outcome.result with
    | .error diagnostic => ⟨outcome.journal ++ [.diagnostic diagnostic], .declaration d, none⟩
    | .ok resolved =>
      let line := resolved.render c.options.output c.options.comments
      if line.isEmpty then
        let dropped : LogEvent := ⟨.debug, s!"Dropping blank declaration '{resolved.property}'"⟩
        ⟨outcome.journal ++ [.event dropped], .declaration resolved, none⟩
      else ⟨outcome.journal, .declaration resolved, some line⟩

/-- Compiles the statements of a stylesheet with settled variables: the text, and the statements
as they are then. -/
def compileAll (c : Compiler) (table : Variables) (sheet : Stylesheet) :
    Outcome (String × Stylesheet) :=
  let statements := sheet.map (c.compileStatement table)
  { journal := statements.flatMap CompiledStatement.journal
    result := .ok
      (String.intercalate "\n" (statements.filterMap CompiledStatement.line),
        statements.map CompiledStatement.statement) }

/-- Compiles a stylesheet: the text, and the statements as they are afterwards. -/
def compile (c : Compiler) (sheet : Stylesheet) : Outcome (String × Stylesheet) := do
  let bindings ← Outcome.ofExcept (Bindings.collect sheet)
  let table ← bindings.settle c.scope
  c.compileAll table sheet

end Compiler

/-- The compilation of an outcome. -/
def Outcome.compilation (x : Outcome (String × Stylesheet)) : Except Diagnostic Compilation :=
  x.result.map fun (css, _) => ⟨css, x.diagnostics⟩

/-- Compiles a stylesheet in place: the compilation or what stopped it, and the statements as they
are afterwards. -/
def Compiler.compileInPlace (c : Compiler) (sheet : Stylesheet) :
    Except Diagnostic Compilation × Stylesheet :=
  let outcome := c.compile sheet
  match outcome.result with
  | .ok (_, after) => (outcome.compilation, after)
  | .error _ => (outcome.compilation, sheet)

/-- Reads a stylesheet. -/
def Stylesheet.load (text : String) : Outcome Stylesheet :=
  match Stylesheet.read text with
  | .error e => .fail (.ofSyntaxError e)
  | .ok sheet => do
    Outcome.trace s!"Read {sheet.length} statements"
    return sheet

/-- Reads and compiles a stylesheet. -/
def Compiler.compileText (c : Compiler) (text : String) : Outcome (String × Stylesheet) := do
  c.compile (← Stylesheet.load text)

end Scss
