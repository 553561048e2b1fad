import Scss.Arithmetic.Quantity
import Scss.Result

/-!
# Evaluating arithmetic

A run of operands and operators is read from left to right.  What still waits for a right operand
is kept in a frame: at most one sum, one product and some minus signs.  A parenthesis opens a new
frame, and its result is the operand of the frame around it.  So products bind tighter than sums,
operators of equal rank associate to the left, and every operation is applied as soon as its right
operand is complete.

## Main definitions

* `Frame`: what waits for an operand;
* `Run.operand`, `Run.operator`: the two states of a run;
* `Value.evaluate`: a value with each of its runs replaced by the result.

## Main results

The steps of a run are told once, by what a successful step reads and where it goes on
(`Run.operand_cons_eq_ok`, `Run.operator_eq_ok`); what holds of runs follows by induction on the
terms that are left.

* `Run.takes_of_run`: a run takes a block of numbers and operators from the front, at least its
  first operand.
-/

namespace Scss

/-- What waits for an operand inside one pair of parentheses. -/
structure Frame where
  /-- A sum or difference without its right side. -/
  sum : Option (Quantity × Arith)
  /-- A product or quotient without its right side. -/
  product : Option (Quantity × Arith)
  /-- The minus signs in front of the operand. -/
  signs : Nat

namespace Frame

/-- The frame at the start of a run. -/
def start : Frame := ⟨none, none, 0⟩

/-- Completes an operation that waits for its right side. -/
def complete (waiting : Option (Quantity × Arith)) (q : Quantity) : Except Fault Quantity :=
  match waiting with
  | none => .ok q
  | some (p, op) => p.combine op q

/-- Applies `n` minus signs. -/
def negateTimes : Nat → Quantity → Quantity
  | 0, q => q
  | n + 1, q => (negateTimes n q).negate

/-- Supplies the operand: the minus signs come first, then the product. -/
def supply (f : Frame) (q : Quantity) : Except Fault Quantity :=
  complete f.product (negateTimes f.signs q)

end Frame

namespace Run

/-- The end of a run before the terms `rest`, with the quantity `q` on the right of `sum`. -/
def finish (outer : List Frame) (sum : Option (Quantity × Arith)) (q : Quantity) (rest : Value) :
    Except Fault (Quantity × Value) := do
  let q ← Frame.complete sum q
  match outer with
  | [] => return (q, rest)
  | _ :: _ => throw ⟨some .leftParen, .unbalanced⟩

mutual

/-- Reads on where an operand is needed.  `last` is the operator read last. -/
def operand (outer : List Frame) (f : Frame) (last : Option Operator) :
    Value → Except Fault (Quantity × Value)
  | [] => .error ⟨last, .missingRight⟩
  | .number x :: rest => do operator outer f.sum (← f.supply ⟨x, none⟩) rest
  | .dimension x unit :: rest => do operator outer f.sum (← f.supply ⟨x, some unit⟩) rest
  | .operator .sub :: rest => operand outer { f with signs := f.signs + 1 } (some .sub) rest
  | .operator .neg :: rest => operand outer { f with signs := f.signs + 1 } (some .neg) rest
  | .operator .leftParen :: rest => operand (f :: outer) .start last rest
  | .operator o :: _ => .error ⟨some o, .unexpected o⟩
  | t :: _ => .error ⟨last, .notANumber t⟩

/-- Reads on after the quantity `q`, which stands on the right of `sum`. -/
def operator (outer : List Frame) (sum : Option (Quantity × Arith)) (q : Quantity) :
    Value → Except Fault (Quantity × Value)
  | .operator .mul :: rest => operand outer ⟨sum, some (q, .mul), 0⟩ (some .mul) rest
  | .operator .div :: rest => operand outer ⟨sum, some (q, .div), 0⟩ (some .div) rest
  | .operator .add :: rest => do
    operand outer ⟨some (← Frame.complete sum q, .add), none, 0⟩ (some .add) rest
  | .operator .sub :: rest => do
    operand outer ⟨some (← Frame.complete sum q, .sub), none, 0⟩ (some .sub) rest
  | .operator .rightParen :: rest =>
    match outer with
    | [] => finish [] sum q (.operator .rightParen :: rest)
    | f :: outer => do operator outer f.sum (← f.supply (← Frame.complete sum q)) rest
  | rest => finish outer sum q rest

end

/-- Reads the run at the start of a value: its result, and the terms after it. -/
def read (v : Value) : Except Fault (Quantity × Value) :=
  operand [] .start none v

/-! ## The steps of a run -/

variable {outer : List Frame} {f : Frame} {last : Option Operator} {t : Term} {ts rest : Value}
  {sum : Option (Quantity × Arith)} {q : Quantity} {r : Quantity × Value}

/-- Where an operand is needed, a number supplies it, a sign is counted and a parenthesis opens a
frame. -/
theorem operand_cons_eq_ok (h : operand outer f last (t :: rest) = .ok r) :
    (∃ p q, t.quantity? = some p ∧ f.supply p = .ok q ∧ operator outer f.sum q rest = .ok r) ∨
    (∃ o, (o = .sub ∨ o = .neg) ∧ t = .operator o ∧
      operand outer { f with signs := f.signs + 1 } (some o) rest = .ok r) ∨
    (t = .operator .leftParen ∧ operand (f :: outer) .start last rest = .ok r) := by
  unfold operand at h
  split at h
  · cases ‹_ :: _ = []›
  · rename_i x rest' heq
    obtain ⟨rfl, rfl⟩ := List.cons.inj heq
    obtain ⟨q, hq, h⟩ := bind_eq_ok_iff.1 h
    exact .inl ⟨⟨x, none⟩, q, rfl, hq, h⟩
  · rename_i x unit rest' heq
    obtain ⟨rfl, rfl⟩ := List.cons.inj heq
    obtain ⟨q, hq, h⟩ := bind_eq_ok_iff.1 h
    exact .inl ⟨⟨x, some unit⟩, q, rfl, hq, h⟩
  · rename_i rest' heq
    obtain ⟨rfl, rfl⟩ := List.cons.inj heq
    exact .inr (.inl ⟨.sub, .inl rfl, rfl, h⟩)
  · rename_i rest' heq
    obtain ⟨rfl, rfl⟩ := List.cons.inj heq
    exact .inr (.inl ⟨.neg, .inr rfl, rfl, h⟩)
  · rename_i rest' heq
    obtain ⟨rfl, rfl⟩ := List.cons.inj heq
    exact .inr (.inr ⟨rfl, h⟩)
  · cases h
  · cases h

/-- A run ends with the sum complete and all parentheses closed. -/
theorem finish_eq_ok (h : finish outer sum q ts = .ok r) :
    outer = [] ∧ ∃ p, Frame.complete sum q = .ok p ∧ r = (p, ts) := by
  obtain ⟨p, hp, h⟩ := bind_eq_ok_iff.1 h
  cases outer with
  | nil => exact ⟨rfl, p, hp, (Except.ok.inj h).symm⟩
  | cons => cases h

/-- After a quantity, a product or a sum goes on, a parenthesis closes, or the run ends before
anything but an operator that joins. -/
theorem operator_eq_ok (h : operator outer sum q ts = .ok r) :
    (∃ op rest, (op = .mul ∨ op = .div) ∧ ts = .operator op.toOperator :: rest ∧
      operand outer ⟨sum, some (q, op), 0⟩ (some op.toOperator) rest = .ok r) ∨
    (∃ op rest p, (op = .add ∨ op = .sub) ∧ ts = .operator op.toOperator :: rest ∧
      Frame.complete sum q = .ok p ∧
      operand outer ⟨some (p, op), none, 0⟩ (some op.toOperator) rest = .ok r) ∨
    (∃ f outer' rest p p', outer = f :: outer' ∧ ts = .operator .rightParen :: rest ∧
      Frame.complete sum q = .ok p ∧ f.supply p = .ok p' ∧
      operator outer' f.sum p' rest = .ok r) ∨
    (outer = [] ∧ (∀ o rest, ts = .operator o :: rest → o.isArithmetic = false) ∧
      ∃ p, Frame.complete sum q = .ok p ∧ r = (p, ts)) := by
  unfold operator at h
  split at h
  · exact .inl ⟨.mul, _, .inl rfl, rfl, h⟩
  · exact .inl ⟨.div, _, .inr rfl, rfl, h⟩
  · obtain ⟨p, hp, h⟩ := bind_eq_ok_iff.1 h
    exact .inr (.inl ⟨.add, _, p, .inl rfl, rfl, hp, h⟩)
  · obtain ⟨p, hp, h⟩ := bind_eq_ok_iff.1 h
    exact .inr (.inl ⟨.sub, _, p, .inr rfl, rfl, hp, h⟩)
  · split at h
    · obtain ⟨houter, p, hp, hr⟩ := finish_eq_ok h
      refine .inr (.inr (.inr ⟨houter, ?_, p, hp, hr⟩))
      rintro o rest heq
      obtain ⟨rfl, -⟩ := by simpa using heq
      rfl
    · rename_i f outer'
      obtain ⟨p, hp, h⟩ := bind_eq_ok_iff.1 h
      obtain ⟨p', hp', h⟩ := bind_eq_ok_iff.1 h
      exact .inr (.inr (.inl ⟨f, outer', _, p, p', rfl, rfl, hp, hp', h⟩))
  · rename_i hmul hdiv hadd hsub _
    obtain ⟨houter, p, hp, hr⟩ := finish_eq_ok h
    refine .inr (.inr (.inr ⟨houter, ?_, p, hp, hr⟩))
    rintro o rest rfl
    cases o with
    | mul => cases hmul rest rfl
    | div => cases hdiv rest rfl
    | add => cases hadd rest rfl
    | sub => cases hsub rest rfl
    | _ => rfl

/-! ## What a run takes -/

/-- The terms in front of `rest` are numbers and operators. -/
def Takes (ts rest : Value) : Prop :=
  ∃ block, ts = block ++ rest ∧ ∀ t ∈ block, t.isNumeric = true ∨ t.isAnyOperator = true

theorem takes_nothing (ts : Value) : Takes ts ts :=
  ⟨[], rfl, by simp⟩

theorem Takes.cons (ht : t.isNumeric = true ∨ t.isAnyOperator = true) (h : Takes ts rest) :
    Takes (t :: ts) rest := by
  obtain ⟨block, rfl, hblock⟩ := h
  exact ⟨t :: block, rfl, List.forall_mem_cons.2 ⟨ht, hblock⟩⟩

theorem Takes.length_le (h : Takes ts rest) : rest.length ≤ ts.length := by
  obtain ⟨block, rfl, -⟩ := h
  exact (List.suffix_append block rest).length_le

theorem Takes.mem (h : Takes ts rest) (ht : t ∈ rest) : t ∈ ts := by
  obtain ⟨block, rfl, -⟩ := h
  exact List.mem_append_right _ ht

/-- A run takes a block of numbers and operators from the front, at least its first operand. -/
theorem takes_of_run (ts : Value) :
    (∀ outer f last r, operand outer f last ts = .ok r →
      Takes ts r.2 ∧ r.2.length < ts.length) ∧
    (∀ outer sum q r, operator outer sum q ts = .ok r → Takes ts r.2) := by
  -- The two loops call each other on what is left, so both are followed at once.
  induction ts with
  | nil =>
    refine ⟨fun _ _ _ _ h => by simp [operand] at h, fun outer sum q r h => ?_⟩
    rcases operator_eq_ok h with ⟨_, _, _, h, _⟩ | ⟨_, _, _, _, h, _⟩ | ⟨_, _, _, _, _, _, h, _⟩ |
      ⟨_, _, p, _, rfl⟩
    · cases h
    · cases h
    · cases h
    · exact takes_nothing _
  | cons t rest ih =>
    obtain ⟨ih₁, ih₂⟩ := ih
    constructor
    · intro outer f last r h
      have hfirst : (t.isNumeric = true ∨ t.isAnyOperator = true) ∧ Takes rest r.2 := by
        rcases operand_cons_eq_ok h with ⟨p, q, ht, _, hr⟩ | ⟨o, _, rfl, hr⟩ | ⟨rfl, hr⟩
        · exact ⟨.inl (Term.isNumeric_of_quantity? ht), ih₂ _ _ _ _ hr⟩
        · exact ⟨.inr rfl, (ih₁ _ _ _ _ hr).1⟩
        · exact ⟨.inr rfl, (ih₁ _ _ _ _ hr).1⟩
      exact ⟨hfirst.2.cons hfirst.1, Nat.lt_succ_of_le hfirst.2.length_le⟩
    · intro outer sum q r h
      rcases operator_eq_ok h with ⟨op, _, _, heq, h⟩ | ⟨op, _, p, _, heq, _, h⟩ |
        ⟨f, _, _, p, p', _, heq, _, _, h⟩ | ⟨_, _, p, _, rfl⟩
      · cases heq
        exact (ih₁ _ _ _ _ h).1.cons (.inr rfl)
      · cases heq
        exact (ih₁ _ _ _ _ h).1.cons (.inr rfl)
      · cases heq
        exact (ih₂ _ _ _ _ h).cons (.inr rfl)
      · exact takes_nothing _

theorem takes_of_read (h : read ts = .ok r) : Takes ts r.2 :=
  ((takes_of_run ts).1 _ _ _ _ h).1

theorem length_of_read (h : read ts = .ok r) : r.2.length < ts.length :=
  ((takes_of_run ts).1 _ _ _ _ h).2

end Run

namespace Value

/-- Whether an operand, perhaps with signs or in parentheses, stands at the start. -/
def startsOperand : Value → Bool
  | .number _ :: _ | .dimension _ _ :: _ | .operator .leftParen :: _ => true
  | .operator .sub :: rest | .operator .neg :: rest => startsOperand rest
  | _ => false

/-- What is wrong with a term that starts no operand and is followed by `rest`: operators need an
operand on their left, and that operand must be a number. -/
def outsideFault (t : Term) (rest : Value) : Option Fault :=
  match t, rest with
  | .operator .neg, _ => none
  | .operator o, _ => some ⟨some o, .missingLeft o⟩
  | t, .operator o :: _ => if o.isArithmetic then some ⟨some o, .notANumber t⟩ else none
  | _, _ => none

/-- Replaces each run of a value without variables by its result.  A run of one term stays as it is
written, and so does a minus sign in front of anything but an operand. -/
def evaluateRuns (v : Value) : Except Fault Value :=
  match v with
  | [] => .ok []
  | t :: rest =>
    if startsOperand (t :: rest) then
      match h : Run.read (t :: rest) with
      | .error fault => .error fault
      | .ok (q, after) =>
        have : after.length ≤ rest.length := Nat.le_of_lt_succ (Run.length_of_read h)
        let result := if after.length = rest.length then t else q.toTerm
        (evaluateRuns after).map (result :: ·)
    else
      match outsideFault t rest with
      | some fault => .error fault
      | none => (evaluateRuns rest).map (t :: ·)
termination_by v.length

/-- Evaluates the arithmetic at the top level; a value that refers to a variable there stays as it
is. -/
def evaluate (v : Value) : Except Fault Value :=
  if v.any Term.isVariable then .ok v else evaluateRuns v

end Value

end Scss
