import Scss.Text.Blank
import Scss.Text.Names
import Scss.Text.Template
import Scss.Value.Style

/-!
# Variables

A table of variables gives each name, written with or without its `$`, a value.  References are
replaced by copies of the values, and markers `#` with `$name` in braces, in words and strings, by
the values' text.

## Main definitions

* `Variables`, with `Variables.bind`, `Variables.bindDefault`, `Variables.lookup`;
* `Variables.interpolate`: a text with the markers of bound variables replaced;
* `Value.substitute`: a value with its references and markers replaced, and the names of the
  variables that have no binding.
-/

namespace Scss

/-- The bindings of a compilation, by names without `$`. -/
abbrev Variables := Names Value

namespace Variables

/-- Binds a variable, in place of an earlier binding. -/
def bind (t : Variables) (name : String) (v : Value) : Variables :=
  t.insert (bareName name) v

/-- The value of a variable. -/
def lookup (t : Variables) (name : String) : Option Value :=
  t.find? (bareName name)

/-- Whether a variable is bound. -/
def binds (t : Variables) (name : String) : Bool :=
  t.contains (bareName name)

/-- Binds a variable unless it is bound, and tells whether it did. -/
def bindDefault (t : Variables) (name : String) (v : Value) : Variables × Bool :=
  if t.binds name then (t, false) else (t.bind name v, true)

/-- The value that the inner text of a marker names: a `$` and a bound name, perhaps with blanks
around them. -/
def marked (t : Variables) (inner : List Char) : Option Value :=
  match Text.trim inner with
  | '$' :: name => t.lookup (String.ofList name)
  | _ => none

/-- What stands for a marker: the bare text of the value it names, or the marker itself. -/
def expandMarker (t : Variables) (s : Style) (inner : List Char) : List Char :=
  match t.marked inner with
  | some v => (s.renderBare v).toList
  | none => Template.writeMarker inner

/-- Replaces the markers of bound variables in a text. -/
def interpolate (t : Variables) (s : Style) (text : String) : String :=
  String.ofList ((Template.parse text.toList).expand (t.expandMarker s))

/-- A text in which no marker can start stays as it is, so it may be given back before it is cut. -/
theorem interpolate_of_unmarked {text : String} (h : Template.Unmarked text.toList)
    (t : Variables) (s : Style) : t.interpolate s text = text := by
  rw [interpolate, Template.expand_parse_of_unmarked h, String.ofList_toList]

end Variables

/-- A value after substitution. -/
structure Substituted where
  /-- The new terms. -/
  terms : Value
  /-- The names without a binding, in order and with repetitions. -/
  unbound : List String

mutual

/-- Replaces the references and markers in a term. -/
def Term.substitute (t : Variables) (s : Style) : Term → Substituted
  | .variable name =>
    match t.lookup name with
    | some v => ⟨v, []⟩
    | none => ⟨[.variable name], [name]⟩
  | .call name parameters =>
    let inner := Value.substitute t s parameters
    ⟨[.call name inner.terms], inner.unbound⟩
  | .word text => ⟨[.word (t.interpolate s text)], []⟩
  | .string text => ⟨[.string (t.interpolate s text)], []⟩
  | other => ⟨[other], []⟩

/-- Replaces the references and markers in a value; bound values are put in as they are. -/
def Value.substitute (t : Variables) (s : Style) : Value → Substituted
  | [] => ⟨[], []⟩
  | first :: rest =>
    let a := first.substitute t s
    let b := Value.substitute t s rest
    ⟨a.terms ++ b.terms, a.unbound ++ b.unbound⟩

end

end Scss
