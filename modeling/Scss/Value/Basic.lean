import Scss.Color.Basic

/-!
# Values

The value of a property is a list of terms, in the order in which they are written.  A call holds
its parameters as a list of terms of its own, with the commas between them; parentheses are terms
too.

## Main definitions

* `Operator`, `Separator`, `Term`, `Value`;
* `Term.measure`, `Term.reference`: a number with a unit, and a variable with its `$` taken off;
* `Value.arguments`: the parts between top-level commas;
* `Value.references`, `Value.refersTo`: the names of the variables a value refers to, at any depth,
  and whether one is among them.
-/

namespace Scss

/-- Arithmetic signs and parentheses. -/
inductive Operator where
  /-- Sum. -/
  | add
  /-- Difference. -/
  | sub
  /-- Product. -/
  | mul
  /-- Quotient. -/
  | div
  /-- A minus sign that belongs to the term after it. -/
  | neg
  /-- Opening parenthesis. -/
  | leftParen
  /-- Closing parenthesis. -/
  | rightParen
  deriving DecidableEq, Repr

namespace Operator

/-- How the operator is written. -/
def symbol : Operator → Char
  | add => '+'
  | sub | neg => '-'
  | mul => '*'
  | div => '/'
  | leftParen => '('
  | rightParen => ')'

/-- Whether the operator joins two operands. -/
def isArithmetic : Operator → Bool
  | add | sub | mul | div => true
  | _ => false

end Operator

/-- What stands between the parts of a value. -/
inductive Separator where
  /-- A comma. -/
  | comma
  /-- A slash that does not divide. -/
  | slash
  deriving DecidableEq, Repr

/-- One term of a value. -/
inductive Term where
  /-- A number without a unit. -/
  | number (value : Float)
  /-- A number with a unit; a percentage has the unit `%`. -/
  | dimension (value : Float) (unit : String)
  /-- A quoted string. -/
  | string (text : String)
  /-- A bare word. -/
  | word (text : String)
  /-- A colour. -/
  | color (color : Color)
  /-- A function call with its parameters. -/
  | call (name : String) (parameters : List Term)
  /-- A reference to a variable, by its name without the `$`. -/
  | variable (name : String)
  /-- An operator or parenthesis. -/
  | operator (operator : Operator)
  /-- A separator. -/
  | separator (separator : Separator)
  deriving Repr

/-- A list of terms, in source order. -/
abbrev Value := List Term

/-- A variable name without one leading `$`. -/
def bareName (name : String) : String :=
  match name.toList with
  | '$' :: rest => String.ofList rest
  | _ => name

namespace Term

/-- A number with a unit; the empty unit gives a plain number. -/
def measure (value : Float) (unit : String) : Term :=
  if unit.isEmpty then .number value else .dimension value unit

/-- A reference to the variable `name`, which may be given with its `$`. -/
def reference (name : String) : Term :=
  .variable (bareName name)

/-- The number of a numeric term, with its unit if it has one. -/
def number? : Term → Option (Float × Option String)
  | .number value => some (value, none)
  | .dimension value unit => some (value, some unit)
  | _ => none

/-- Whether the term is a number, with or without a unit. -/
def isNumeric (t : Term) : Bool :=
  t.number?.isSome

/-- Whether the term is the operator `o`. -/
def isOperator (o : Operator) : Term → Bool
  | .operator o' => o' == o
  | _ => false

/-- Whether the term is some operator or parenthesis. -/
def isAnyOperator : Term → Bool
  | .operator _ => true
  | _ => false

/-- Whether the term is a comma. -/
def isComma : Term → Bool
  | .separator .comma => true
  | _ => false

/-- Whether the term refers to a variable. -/
def isVariable : Term → Bool
  | .variable _ => true
  | _ => false

end Term

mutual

/-- Equality of terms.  Numbers are compared as numbers, so the two zeros are equal and NaN is not
equal to itself. -/
def Term.same : Term → Term → Bool
  | .number x, .number y => x == y
  | .dimension x u, .dimension y v => x == y && u == v
  | .string s, .string t => s == t
  | .word s, .word t => s == t
  | .color c, .color d => c == d
  | .call f xs, .call g ys => f == g && Value.same xs ys
  | .variable m, .variable n => m == n
  | .operator o, .operator o' => o == o'
  | .separator s, .separator s' => s == s'
  | _, _ => false

/-- Equality of values, term by term. -/
def Value.same : Value → Value → Bool
  | [], [] => true
  | x :: xs, y :: ys => x.same y && Value.same xs ys
  | _, _ => false

end

instance : BEq Term := ⟨Term.same⟩

namespace Value

/-- The parts of a value between its top-level commas, at least one. -/
def commaParts : Value → List Value
  | [] => [[]]
  | t :: rest =>
    if t.isComma then [] :: commaParts rest
    else
      match commaParts rest with
      | [] => [[t]]
      | part :: parts => (t :: part) :: parts

/-- The arguments of a parameter list: none if it is empty, else the parts between commas. -/
def arguments (v : Value) : List Value :=
  if v.isEmpty then [] else commaParts v

end Value

mutual

/-- The variables that a term refers to, at any depth, in order and with repetitions. -/
def Term.references : Term → List String
  | .variable name => [name]
  | .call _ parameters => Value.references parameters
  | _ => []

/-- The variables that a value refers to, at any depth, in order and with repetitions. -/
def Value.references : Value → List String
  | [] => []
  | t :: rest => t.references ++ Value.references rest

end

mutual

/-- Whether the term refers to the variable `name`, at any depth. -/
def Term.refersTo : Term → String → Bool
  | .variable other, name => other == name
  | .call _ parameters, name => Value.refersTo parameters name
  | _, _ => false

/-- Whether the value refers to the variable `name`, at any depth. -/
def Value.refersTo : Value → String → Bool
  | [], _ => false
  | t :: rest, name => t.refersTo name || Value.refersTo rest name

end

end Scss
