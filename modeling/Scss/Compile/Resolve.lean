import Scss.Arithmetic.Division
import Scss.Arithmetic.Evaluate
import Scss.Compile.Journal
import Scss.Function.Registry
import Scss.Stylesheet.Basic
import Scss.Variables.Table

/-!
# Resolving values

A value is resolved in steps: its variables are replaced; if it had operators before, registered
functions beside operators are called and the arithmetic is evaluated; then all functions are
called, inner ones first.  Functions that are not registered stay as they are and are reported.

## Main definitions

* `Scope`, `Site`: the functions and the style in use, and what messages refer to;
* `Value.dispatch`: all functions of a value called;
* `Value.resolve`: a value resolved;
* `Declaration.resolve`: a declaration with its property and value resolved.
-/

namespace Scss

/-- What a compilation works with. -/
structure Scope where
  /-- The registered functions. -/
  registry : Registry
  /-- The style in which values are written. -/
  style : Style

/-- What a message refers to. -/
structure Site where
  /-- The property or variable at work. -/
  context : String
  /-- Its line. -/
  line : Option Nat

/-- The report of a fault in arithmetic. -/
def Site.arithmetic (site : Site) (fault : Fault) : Diagnostic :=
  .arithmetic site.context (fault.operator.map Operator.symbol) fault.message site.line

/-- Evaluates a value for a site. -/
def Site.evaluate (site : Site) (v : Value) : Outcome Value :=
  .ofExcept (v.evaluate.mapError site.arithmetic)

/-- Evaluates the parameters of a call, if there is arithmetic in them. -/
def Site.evaluateParameters (site : Site) (parameters : Value) : Outcome Value :=
  if parameters.hasArithmetic then site.evaluate parameters else pure parameters

/-- The terms that a function gives; empty text gives none. -/
def Generated.terms : Generated → Value
  | .value terms => terms
  | .text s => if s.isEmpty then [] else [.word s]

namespace Scope

/-- Calls a function whose parameters have been dispatched. -/
def invoke (scope : Scope) (site : Site) (name : String) (parameters : Value) : Outcome Value :=
  match scope.registry.find? name with
  | none => do
    let text := Style.diagnostic.render parameters
    Outcome.debug s!"Passing through unknown function {name}({text})"
    Outcome.report (.unknownFunction name site.context site.line)
    return [.call name parameters]
  | some generator => do
    let parameters ← site.evaluateParameters parameters
    let generated ← Outcome.ofExcept ((generator.apply ⟨name, parameters⟩ scope.style).mapError
      fun error => .functionArgument name site.context error.message site.line)
    return generated.terms

end Scope

mutual

/-- Calls the functions of a term, inner ones first. -/
def Term.dispatch (scope : Scope) (site : Site) : Term → Outcome Value
  | .call name parameters => do
    scope.invoke site name (← Value.dispatch scope site parameters)
  | t => pure [t]

/-- Calls the functions of a value, from left to right. -/
def Value.dispatch (scope : Scope) (site : Site) : Value → Outcome Value
  | [] => pure []
  | t :: rest => do
    let first ← t.dispatch scope site
    let others ← Value.dispatch scope site rest
    return first ++ others

end

namespace Value

/-- Whether a term is a call of a registered function. -/
def isRegisteredCall (registry : Registry) : Term → Bool
  | .call name _ => registry.contains name
  | _ => false

/-- Calls a term, if it is an operand and calls a registered function. -/
def dispatchOperand (scope : Scope) (site : Site) (isOperand : Bool) (t : Term) : Outcome Value :=
  if isOperand && isRegisteredCall scope.registry t then t.dispatch scope site else pure [t]

/-- Calls the registered functions beside an operator, among the terms that follow `left`. -/
def dispatchOperandsAfter (scope : Scope) (site : Site) (left : Option Term) : Value → Outcome Value
  | [] => pure []
  | t :: rest => do
    let isOperand := left.any Term.isAnyOperator || rest.head?.any Term.isAnyOperator
    let first ← dispatchOperand scope site isOperand t
    let others ← dispatchOperandsAfter scope site (some t) rest
    return first ++ others

/-- Calls the registered functions beside an operator. -/
def dispatchOperands (scope : Scope) (site : Site) (v : Value) : Outcome Value :=
  dispatchOperandsAfter scope site none v

/-- Evaluates a value, if that is asked for, after the functions beside its operators. -/
def evaluateOperands (scope : Scope) (site : Site) (asked : Bool) (v : Value) : Outcome Value :=
  if asked then do site.evaluate (← dispatchOperands scope site v) else pure v

/-- Resolves a value.  Whether there is arithmetic is seen before variables are replaced. -/
def resolve (scope : Scope) (table : Variables) (site : Site) (v : Value) : Outcome Value := do
  let v := v.classify
  let substituted := v.substitute table scope.style
  Outcome.reportAll
    (substituted.unbound.map fun name => .unboundVariable name site.context site.line)
  let evaluated ← evaluateOperands scope site v.hasArithmetic substituted.terms
  Value.dispatch scope site evaluated

end Value

/-- Resolves the property and the value of a declaration. -/
def Declaration.resolve (scope : Scope) (table : Variables) (d : Declaration) :
    Outcome Declaration := do
  let property := table.interpolate scope.style d.property
  let value ← d.value.resolve scope table ⟨property, d.line⟩
  let resolved := { d with property, value }
  Outcome.trace s!"Resolved {resolved.describe}"
  return resolved

end Scss
