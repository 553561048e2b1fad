import Scss.Color.Named
import Scss.Value.Style

/-!
# Calls and their arguments

A function sees a call: its name and its parameters, with the commas between them.  It asks for
arguments of the kinds it needs; what does not fit is an `ArgumentError`.

## Main definitions

* `ArgumentError`, with `ArgumentError.message` for its wording;
* `Call`, with `Call.arguments` for a checked number of arguments;
* `Argument.single`, `Argument.color`, `Argument.number`, `Argument.amount`, `Argument.text`: one
  argument read as a thing of some kind;
* `Generated`: what a function gives back.
-/

namespace Scss

/-- What is wrong with the arguments of a call.  Positions count from one. -/
inductive ArgumentError where
  /-- Fewer than `least` or more than `most` arguments. -/
  | count (least most given : Nat)
  /-- A number of arguments other than the two possible ones. -/
  | countEither (few many given : Nat)
  /-- An argument without terms. -/
  | empty (position : Nat)
  /-- An argument of more than one term. -/
  | several (position : Nat) (argument : Value)
  /-- An argument that is not a thing of the kind asked for. -/
  | kind (position : Nat) (noun : String) (argument : Value)
  /-- A unit where a percentage is asked for. -/
  | notPercentage (position : Nat) (unit : String)
  /-- A percentage beyond 0% to 100%. -/
  | beyondRange (position : Nat) (argument : Value)
  /-- A unit other than `%`. -/
  | notPlain (position : Nat) (unit : String)
  /-- A unit where none is allowed. -/
  | notUnitless (position : Nat) (unit : String)
  /-- A complaint in the function's own words. -/
  | other (message : String)
  deriving Repr

/-- The wording of an argument error. -/
def ArgumentError.message : ArgumentError → String
  | count least most given =>
    let expected := if least = most then toString least else s!"{least} to {most}"
    let plural := if most = 1 then "" else "s"
    s!"expected {expected} argument{plural}, got {given}"
  | countEither few many given => s!"expected {few} or {many} arguments, got {given}"
  | empty position => s!"argument {position} is empty"
  | several position argument =>
    s!"argument {position} must be a single value, got '{Style.diagnostic.render argument}'"
  | kind position noun argument =>
    s!"argument {position} must be a {noun}, got '{Style.diagnostic.render argument}'"
  | notPercentage position unit => s!"argument {position} must be a percentage, got unit '{unit}'"
  | beyondRange position argument =>
    let given := Style.diagnostic.render argument
    s!"argument {position} must be between 0% and 100%, got {given}"
  | notPlain position unit =>
    s!"argument {position} must be unitless or a percentage, got unit '{unit}'"
  | notUnitless position unit => s!"argument {position} must be unitless, got unit '{unit}'"
  | other message => message

/-- A function call. -/
structure Call where
  /-- The name by which the function is called. -/
  name : String
  /-- The parameters, with the commas between them. -/
  parameters : Value

/-- The arguments of a call, if there are at least `least` and at most `most`. -/
def Call.arguments (c : Call) (least most : Nat) : Except ArgumentError (List Value) :=
  let arguments := c.parameters.arguments
  if arguments.length < least ∨ most < arguments.length then
    .error (.count least most arguments.length)
  else .ok arguments

theorem Call.arguments_eq_ok_iff {c : Call} {least most : Nat} {arguments : List Value} :
    c.arguments least most = .ok arguments ↔
      c.parameters.arguments = arguments ∧ least ≤ arguments.length ∧ arguments.length ≤ most := by
  unfold Call.arguments
  dsimp only
  split
  · rename_i h
    refine ⟨nofun, ?_⟩
    rintro ⟨rfl, hleast, hmost⟩
    omega
  · rename_i h
    refine ⟨?_, fun hargs => congrArg _ hargs.1⟩
    rintro ⟨⟩
    exact ⟨rfl, by omega, by omega⟩

/-- What a function gives back. -/
inductive Generated where
  /-- Terms in place of the call. -/
  | value (terms : Value)
  /-- Text to be written in place of the call. -/
  | text (text : String)

namespace Argument

/-- The one term of an argument. -/
def single (position : Nat) (argument : Value) : Except ArgumentError Term :=
  match argument with
  | [] => .error (.empty position)
  | [t] => .ok t
  | _ => .error (.several position argument)

/-- A colour, perhaps given by its name. -/
def color (position : Nat) (argument : Value) : Except ArgumentError Color := do
  match ← single position argument with
  | .color c => return c
  | .word name =>
    match Color.ofName? name with
    | some c => return c
    | none => throw (.kind position "color" argument)
  | _ => throw (.kind position "color" argument)

/-- A number, with its unit if it has one. -/
def number (position : Nat) (argument : Value) : Except ArgumentError (Float × Option String) := do
  match (← single position argument).number? with
  | some x => return x
  | none => throw (.kind position "number" argument)

/-- A percentage from 0% to 100%, as a fraction; the `%` may be left out. -/
def amount (position : Nat) (argument : Value) : Except ArgumentError Float := do
  let (value, unit) ← number position argument
  match unit with
  | none | some "%" =>
    if 0 ≤ value ∧ value ≤ 100 then return value / 100
    else throw (.beyondRange position argument)
  | some unit => throw (.notPercentage position unit)

/-- A text, and whether it is in quotes. -/
def text (position : Nat) (argument : Value) : Except ArgumentError (String × Bool) := do
  match ← single position argument with
  | .string text => return (text, true)
  | .word text => return (text, false)
  | _ => throw (.kind position "string" argument)

/-- A channel from 0 to 255, or a percentage of 255. -/
def channel (position : Nat) (argument : Value) : Except ArgumentError UInt8 := do
  match ← number position argument with
  | (value, none) => return Number.toByte value
  | (value, some "%") => return Number.toByte (value / 100 * 255)
  | (_, some unit) => throw (.notPlain position unit)

/-- An alpha from 0 to 1, or a percentage. -/
def alpha (position : Nat) (argument : Value) : Except ArgumentError Float := do
  match ← number position argument with
  | (value, none) => return Number.clamp value 0 1
  | (value, some "%") => return Number.clamp (value / 100) 0 1
  | (_, some unit) => throw (.notPlain position unit)

end Argument

end Scss
