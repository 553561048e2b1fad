import Scss.Value.Basic

/-!
# Slashes that divide and slashes that separate

A slash divides if a variable stands beside it, if a parenthesis closes before it or opens after
it, or if the stretch between commas around it holds another operator.  Any other slash only
separates, as in `12px/1.5`.

## Main definitions

* `Value.classify`: a value with its separating slashes turned into separators, at any depth;
* `Value.hasArithmetic`: whether any operator is left at the top level.
-/

namespace Scss

namespace Value

/-- Whether an operator other than a slash stands before the first comma. -/
def segmentHasOperator (v : Value) : Bool :=
  (v.takeWhile (!·.isComma)).any fun t => t.isAnyOperator && !t.isOperator .div

/-- Whether a slash between `left` and `right` divides, in a segment that holds another operator or
not. -/
def divides (busy : Bool) (left right : Option Term) : Bool :=
  left.any Term.isVariable || right.any Term.isVariable ||
    left.any (Term.isOperator .rightParen) || right.any (Term.isOperator .leftParen) || busy

end Value

mutual

/-- Classifies the slashes in the parameters of a call. -/
def Term.classify : Term → Term
  | .call name parameters =>
    .call name (Value.classifyAfter none (Value.segmentHasOperator parameters) parameters)
  | t => t

/-- Classifies the terms that follow `left`; `busy` tells whether their segment holds an operator
other than a slash. -/
def Value.classifyAfter (left : Option Term) (busy : Bool) : Value → Value
  | [] => []
  | t :: rest =>
    (if t.isOperator .div && !Value.divides busy left rest.head? then .separator .slash
      else t.classify) ::
    Value.classifyAfter (some t) (if t.isComma then Value.segmentHasOperator rest else busy) rest

end

namespace Value

/-- Turns every slash that does not divide into a separator. -/
def classify (v : Value) : Value :=
  classifyAfter none (segmentHasOperator v) v

/-- Whether the top level holds an operator. -/
def hasArithmetic (v : Value) : Bool :=
  v.any Term.isAnyOperator

end Value

end Scss
