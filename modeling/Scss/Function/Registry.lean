import Scss.Function.Builtin
import Scss.Log
import Scss.Text.Names
import Scss.Text.Quoted

/-!
# Registered functions

A registry gives functions by their exact names.  A function registered under a name that is taken
replaces the earlier one, which is worth a warning.

## Main definitions

* `Registry`, with `Registry.register` and `Registry.find?`;
* `Registry.ofGenerators`: several functions registered in order, with the warnings;
* `Registry.builtin`: the registry of the built-in functions.
-/

namespace Scss

/-- Functions by name. -/
abbrev Registry := Names Generator

namespace Registry

/-- Registers a function under its own name. -/
def register (r : Registry) (g : Generator) : Registry :=
  r.insert g.name g

/-- What there is to say when a function is registered. -/
def registerEvents (r : Registry) (g : Generator) : List LogEvent :=
  if r.contains g.name then
    [⟨.warn, s!"Function '{g.name}' registered twice, keeping the latest"⟩]
  else []

/-- Registers functions in order, with the events on the way. -/
def registerAll (r : Registry) : List Generator → Registry × List LogEvent
  | [] => (r, [])
  | g :: rest =>
    let (final, events) := registerAll (r.register g) rest
    (final, r.registerEvents g ++ events)

/-- The registry of the given functions, with the events on the way. -/
def ofGenerators (generators : List Generator) : Registry × List LogEvent :=
  registerAll Names.empty generators

/-- The registry of the built-in functions. -/
def builtin : Registry :=
  (ofGenerators Generator.builtins).1

/-- The registered names in a message. -/
def describe (r : Registry) : String :=
  let names := String.intercalate ", " (r.keys.map Text.quoted)
  "FunctionRegistry \x7b functions: [" ++ names ++ "] \x7d"

end Registry

end Scss
