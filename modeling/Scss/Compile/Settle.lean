import Scss.Compile.Resolve

/-!
# Settling variables

Before anything is written, each variable gets its value.  First the declarations are collected:
of several declarations of one name the last counts, except that one with `!default` yields to an
earlier one.  Then the variables are settled in the order of their names, each after the variables
it refers to; a variable that is reached again while it is being settled makes a circle.

## Main definitions

* `Binding`, `Bindings`: the declarations that count, by name;
* `Bindings.collect`: the bindings of a stylesheet;
* `Bindings.settle`: the table of their values.
-/

namespace Scss

/-- The declaration of a variable that counts. -/
structure Binding where
  /-- The value as written. -/
  expression : Value
  /-- The line of the declaration. -/
  line : Option Nat
  deriving Repr

/-- The declarations that count, by name. -/
abbrev Bindings := Names Binding

namespace Bindings

/-- Records a declaration.  It must have a name and a value. -/
def record (bindings : Bindings) (v : VariableDeclaration) : Except Diagnostic Bindings :=
  if v.name.isEmpty then .error (.invalidVariable "" "missing name" v.line)
  else if v.expression.isEmpty then .error (.invalidVariable v.name "missing value" v.line)
  else if v.guarded && bindings.contains v.name then .ok bindings
  else .ok (bindings.insert v.name ⟨v.expression, v.line⟩)

/-- Records declarations in order. -/
def recordAll (bindings : Bindings) : List VariableDeclaration → Except Diagnostic Bindings
  | [] => .ok bindings
  | v :: rest => do recordAll (← bindings.record v) rest

/-- The bindings of a stylesheet. -/
def collect (sheet : Stylesheet) : Except Diagnostic Bindings :=
  recordAll Names.empty sheet.variableDeclarations

/-- The report of a circle: the way from `name` back to itself along `path`. -/
def circle (path : List String) (name : String) (line : Option Nat) : Diagnostic :=
  let names := (path.dropWhile (· ≠ name) ++ [name]).map ("$" ++ ·)
  .invalidVariable name ("circular reference " ++ String.intercalate " -> " names) line

/-- The names that are not on the path. -/
def remaining (bindings : Bindings) (path : List String) : List String :=
  bindings.keys.filter (· ∉ path)

/-- A name that is put on the path no longer remains. -/
theorem length_remaining {bindings : Bindings} {path : List String} {name : String}
    (hb : name ∈ bindings.keys) (hp : name ∉ path) :
    (bindings.remaining (path ++ [name])).length < (bindings.remaining path).length := by
  have hsub : bindings.remaining (path ++ [name]) = (bindings.remaining path).filter (· ≠ name) := by
    simp [remaining, List.filter_filter, Bool.and_comm]
  have hmem : name ∈ bindings.remaining path := by simp [remaining, hb, hp]
  rw [hsub]
  refine List.length_filter_lt_length_iff_exists.2 ⟨name, hmem, by simp⟩

/-- Settles the named variables, each after the variables it refers to.  The path holds the
variables that are being settled, the outermost first. -/
def settleNames (bindings : Bindings) (scope : Scope) (path : List String) (names : List String)
    (table : Variables) : Outcome Variables :=
  match names with
  | [] => pure table
  | name :: rest =>
    if table.binds name then settleNames bindings scope path rest table
    else
      match h : bindings.find? name with
      | none => settleNames bindings scope path rest table
      | some binding =>
        if hp : name ∈ path then .fail (circle path name binding.line)
        else do
          have := length_remaining (Names.mem_keys_of_find? h) hp
          let table ← settleNames bindings scope (path ++ [name]) binding.expression.references table
          let value ← binding.expression.resolve scope table ⟨"$" ++ name, binding.line⟩
          Outcome.trace s!"Settled ${name} = {Style.diagnostic.render value}"
          settleNames bindings scope path rest (table.bind name value)
termination_by ((bindings.remaining path).length, names.length)

/-- Settles all variables, in the order of their names. -/
def settle (bindings : Bindings) (scope : Scope) : Outcome Variables :=
  bindings.settleNames scope [] bindings.keys Names.empty

end Bindings

end Scss
