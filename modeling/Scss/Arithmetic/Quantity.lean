import Scss.Value.Style

/-!
# Quantities

A quantity is a number with or without a unit.  Sums need equal units or one unit, products one
unit at most, quotients a divisor without a unit or with the unit of the dividend; units are
compared without regard to case.

## Main definitions

* `Arith`: the four operations;
* `Fault`: what stops an evaluation, with `Fault.message` for its wording;
* `Quantity`, with `Quantity.negate` and `Quantity.combine`.
-/

namespace Scss

/-- The four arithmetic operations. -/
inductive Arith where
  /-- Sum. -/
  | add
  /-- Difference. -/
  | sub
  /-- Product. -/
  | mul
  /-- Quotient. -/
  | div
  deriving DecidableEq, Repr

/-- The operator that writes an operation. -/
def Arith.toOperator : Arith → Operator
  | add => .add
  | sub => .sub
  | mul => .mul
  | div => .div

/-- Why an evaluation stops. -/
inductive Fault.Cause where
  /-- An operator stands where a term should start. -/
  | missingLeft (operator : Operator)
  /-- The value ends where an operand is needed. -/
  | missingRight
  /-- An operator stands where an operand is needed. -/
  | unexpected (operator : Operator)
  /-- A parenthesis is not closed. -/
  | unbalanced
  /-- The operand is no number. -/
  | notANumber (term : Term)
  /-- A sum of different units. -/
  | incompatible (left right : String)
  /-- A product of two units. -/
  | cannotMultiply (left right : String)
  /-- A quotient by another unit. -/
  | cannotDivide (left : Option String) (right : String)
  /-- A quotient by zero. -/
  | divisionByZero
  /-- The result is infinite or not a number. -/
  | outOfRange
  deriving Repr

/-- A failed evaluation, with the operator at work. -/
structure Fault where
  /-- The operator being applied. -/
  operator : Option Operator
  /-- What went wrong. -/
  cause : Fault.Cause
  deriving Repr

/-- The wording of a cause. -/
def Fault.Cause.message : Fault.Cause → String
  | missingLeft o => s!"missing left operand for '{o.symbol}'"
  | missingRight => "missing right operand"
  | unexpected o => s!"unexpected '{o.symbol}'"
  | unbalanced => "unbalanced parentheses"
  | notANumber t => s!"'{Style.diagnostic.renderTerm t}' is not a number"
  | incompatible left right => s!"incompatible units '{left}' and '{right}'"
  | cannotMultiply left right => s!"cannot multiply '{left}' by '{right}'"
  | cannotDivide left right =>
    let dividend := left.getD "a unitless number"
    s!"cannot divide '{dividend}' by '{right}'"
  | divisionByZero => "division by zero"
  | outOfRange => "result is out of range"

/-- The wording of a fault. -/
def Fault.message (f : Fault) : String :=
  f.cause.message

/-- Whether two units are the same, in any case. -/
def sameUnit (u v : String) : Bool :=
  u.toList.map Char.toLower == v.toList.map Char.toLower

/-- A number with an optional unit. -/
structure Quantity where
  /-- The number. -/
  value : Float
  /-- The unit, if there is one. -/
  unit : Option String
  deriving Repr

/-- The quantity of a numeric term. -/
def Term.quantity? (t : Term) : Option Quantity :=
  t.number?.map fun (value, unit) => ⟨value, unit⟩

theorem Term.isNumeric_of_quantity? {t : Term} {p : Quantity} (h : t.quantity? = some p) :
    t.isNumeric = true := by
  obtain ⟨x, hx, -⟩ := Option.map_eq_some_iff.1 h
  exact Option.isSome_iff_exists.2 ⟨x, hx⟩

namespace Quantity

/-- The opposite quantity. -/
def negate (q : Quantity) : Quantity :=
  { q with value := -q.value }

/-- The term of a quantity. -/
def toTerm (q : Quantity) : Term :=
  .measure q.value (q.unit.getD "")

/-- The result of an operation on two numbers. -/
def apply : Arith → Float → Float → Float
  | .add, x, y => x + y
  | .sub, x, y => x - y
  | .mul, x, y => x * y
  | .div, x, y => x / y

/-- The unit of a sum or difference. -/
def sumUnit : Option String → Option String → Except Fault.Cause (Option String)
  | some u, some v => if sameUnit u v then .ok (some u) else .error (.incompatible u v)
  | u, v => .ok (u <|> v)

/-- The unit of a product. -/
def productUnit : Option String → Option String → Except Fault.Cause (Option String)
  | some u, some v => .error (.cannotMultiply u v)
  | u, v => .ok (u <|> v)

/-- The unit of a quotient. -/
def quotientUnit : Option String → Option String → Except Fault.Cause (Option String)
  | u, none => .ok u
  | some u, some v => if sameUnit u v then .ok none else .error (.cannotDivide (some u) v)
  | none, some v => .error (.cannotDivide none v)

/-- The unit of the result; a divisor that is zero is refused first. -/
def combineUnit (op : Arith) (p q : Quantity) : Except Fault.Cause (Option String) :=
  match op with
  | .add | .sub => sumUnit p.unit q.unit
  | .mul => productUnit p.unit q.unit
  | .div => if q.value == 0 then .error .divisionByZero else quotientUnit p.unit q.unit

/-- Applies an operation to two quantities. -/
def combine (op : Arith) (p q : Quantity) : Except Fault Quantity :=
  match combineUnit op p q with
  | .error cause => .error ⟨some op.toOperator, cause⟩
  | .ok unit =>
    let value := apply op p.value q.value
    if value.isFinite then .ok ⟨value, unit⟩ else .error ⟨some op.toOperator, .outOfRange⟩

end Quantity

end Scss
