import Mathlib
import Scss.Proofs.Evaluation

/-!
# Precedence and associativity

An expression is a tree of numbers, operations, minus signs and groups, and its value is computed
along the tree: first the left side of an operation, then the right side, then the operation.  It
is written as a value without nesting, with parentheses where the tree asks for them, and anywhere
else as well.  Evaluating what is written gives the value of the tree, or fails as the tree does.

A run keeps in its frame what waits for an operand.  Which expressions the frame can take as its
operand without parentheses is told by a rank (`Frame.Admits`), and an expression of that rank is
read as if it were one number (`Run.readsAs_of_writes`).

## Main definitions

* `Expression`, `Expression.value`: expressions and their values
* `Expression.Writes`: an expression and a way to write it
* `Expression.flat`: an expression with the parentheses it needs

## Main results

* `Run.readsAs_of_writes`: a written expression is read like a number of its value
* `Expression.evaluate_writes`: evaluating a written expression gives its value
-/

namespace Scss

/-- How tight an operation binds: products bind tighter than sums. -/
def Arith.rank : Arith → Nat
  | add | sub => 0
  | mul | div => 1

/-- An expression. -/
inductive Expression where
  /-- A number without a unit. -/
  | number (value : Float)
  /-- A number with a unit. -/
  | dimension (value : Float) (unit : String) (named : unit ≠ "")
  /-- The opposite of an expression. -/
  | negate (operand : Expression)
  /-- An operation on two expressions. -/
  | binary (op : Arith) (left right : Expression)
  /-- An expression in parentheses. -/
  | group (inner : Expression)

/-- A value in parentheses. -/
def Value.inParens (v : Value) : Value :=
  .operator .leftParen :: (v ++ [.operator .rightParen])

namespace Expression

/-- The value of an expression: the left side comes first, then the right side. -/
def value : Expression → Except Fault Quantity
  | number x => .ok ⟨x, none⟩
  | dimension x unit _ => .ok ⟨x, some unit⟩
  | negate e => do return (← e.value).negate
  | binary op left right => do
    let p ← left.value
    let q ← right.value
    p.combine op q
  | group e => e.value

/-- The value `v` writes the expression in a place that takes expressions from the rank `r` on: sums
have rank 0, products rank 1 and all others rank 2.  The left side of an operation may have the rank
of the operation, the right side must have a higher one; parentheses fit everywhere. -/
inductive Writes : Nat → Expression → Value → Prop
  | number {r : Nat} (x : Float) : Writes r (.number x) [.number x]
  | dimension {r : Nat} (x : Float) (unit : String) (named : unit ≠ "") :
    Writes r (.dimension x unit named) [.dimension x unit]
  | negate {r : Nat} {o : Operator} {e : Expression} {v : Value} :
    o = .sub ∨ o = .neg → Writes 2 e v → Writes r (.negate e) (.operator o :: v)
  | binary {r : Nat} {op : Arith} {left right : Expression} {v w : Value} :
    r ≤ op.rank → Writes op.rank left v → Writes (op.rank + 1) right w →
      Writes r (.binary op left right) (v ++ .operator op.toOperator :: w)
  | group {r : Nat} {e : Expression} {v : Value} :
    Writes 0 e v → Writes r (.group e) v.inParens
  | parens {r : Nat} {e : Expression} {v : Value} :
    Writes 0 e v → Writes r e v.inParens

/-- The expression with the parentheses it needs in a place of rank `r`, and no others. -/
def flat (r : Nat) : Expression → Value
  | number x => [.number x]
  | dimension x unit _ => [.dimension x unit]
  | negate e => .operator .sub :: e.flat 2
  | binary op left right =>
    let v := left.flat op.rank ++ .operator op.toOperator :: right.flat (op.rank + 1)
    if r ≤ op.rank then v else v.inParens
  | group e => (e.flat 0).inParens

variable {r : Nat} {e : Expression} {v : Value}

theorem writes_flat (e : Expression) : ∀ r, Writes r e (e.flat r) := by
  induction e with
  | number x => exact fun _ => .number x
  | dimension x unit named => exact fun _ => .dimension x unit named
  | negate e ih => exact fun _ => .negate (.inl rfl) (ih 2)
  | binary op left right ihl ihr =>
    intro r
    unfold flat
    by_cases hr : r ≤ op.rank
    · rw [if_pos hr]
      exact .binary hr (ihl _) (ihr _)
    · rw [if_neg hr]
      exact .parens (.binary (Nat.zero_le _) (ihl _) (ihr _))
  | group e ih => exact fun _ => .group (ih 0)

/-! ## The terms of a written expression -/

theorem Writes.startsOperand (h : Writes r e v) (rest : Value) :
    Value.startsOperand (v ++ rest) = true := by
  induction h generalizing rest with
  | number | dimension | group | parens => rfl
  | negate ho _ ih =>
    rcases ho with rfl | rfl
    · exact ih rest
    · exact ih rest
  | binary _ _ _ ihl =>
    rw [List.append_assoc]
    exact ihl _

theorem Writes.isVariable (h : Writes r e v) : ∀ t ∈ v, t.isVariable = false := by
  induction h with
  | number | dimension =>
    intro t ht
    rw [List.mem_singleton.1 ht]
    rfl
  | negate _ _ ih => exact List.forall_mem_cons.2 ⟨rfl, ih⟩
  | binary _ _ _ ihl ihr =>
    exact List.forall_mem_append.2 ⟨ihl, List.forall_mem_cons.2 ⟨rfl, ihr⟩⟩
  | group _ ih | parens _ ih =>
    refine List.forall_mem_cons.2 ⟨rfl, List.forall_mem_append.2 ⟨ih, ?_⟩⟩
    exact List.forall_mem_singleton.2 rfl

theorem Writes.ne_nil (h : Writes r e v) : v ≠ [] := by
  rintro rfl
  have := h.startsOperand []
  cases this

/-- What is written as one term is a number and has itself as its value. -/
theorem Writes.toTerm_of_singleton {t : Term} {q : Quantity} (h : Writes r e [t])
    (hq : e.value = .ok q) : q.toTerm = t := by
  generalize hv : [t] = v at h
  cases h with
  | number x =>
    cases hv
    cases hq
    rfl
  | dimension x unit named =>
    cases hv
    cases hq
    simp [Quantity.toTerm, Term.measure, named]
  | negate _ h =>
    cases hv
    exact absurd rfl h.ne_nil
  | binary _ h₁ h₂ =>
    -- Both sides have terms of their own, next to the operator.
    have hlen := congrArg List.length hv
    have hpos := List.length_pos_iff.2 h₁.ne_nil
    simp at hlen
    omega
  | group h | parens h =>
    have hlen := congrArg List.length hv
    simp [Value.inParens] at hlen

end Expression

/-! ## Reading a written expression -/

/-- Whether a product goes on at the start. -/
def Value.continuesProduct : Value → Bool
  | .operator .mul :: _ | .operator .div :: _ => true
  | _ => false

namespace Frame

/-- The frame takes an expression of rank `r` before the terms `rest`: nothing that binds as tight
as the expression waits for an operand, and none of its operands is taken away by what follows. -/
structure Admits (r : Nat) (f : Frame) (rest : Value) : Prop where
  sum : r = 0 → f.sum = none ∧ rest.continuesProduct = false
  product : r ≤ 1 → f.product = none ∧ f.signs = 0

variable {f : Frame} {rest : Value}

theorem admits_start (h : rest.continuesProduct = false) : start.Admits 0 rest :=
  ⟨fun _ => ⟨rfl, h⟩, fun _ => ⟨rfl, rfl⟩⟩

theorem admits_factor (f : Frame) (rest : Value) : f.Admits 2 rest :=
  ⟨nofun, fun h => absurd h (by decide)⟩

theorem Admits.supply {r : Nat} (h : f.Admits r rest) (hr : r ≤ 1) (q : Quantity) :
    f.supply q = .ok q := by
  obtain ⟨hproduct, hsigns⟩ := h.product hr
  rw [Frame.supply, hproduct, hsigns]
  rfl

theorem negateTimes_negate (n : Nat) (q : Quantity) :
    negateTimes n q.negate = (negateTimes n q).negate := by
  induction n with
  | zero => rfl
  | succ n ih => rw [negateTimes, ih, negateTimes]

/-- One more minus sign in front of the operand is the same as the opposite operand. -/
theorem supply_succ_signs (f : Frame) (q : Quantity) :
    { f with signs := f.signs + 1 }.supply q = f.supply q.negate := by
  rw [supply, supply, negateTimes_negate]
  rfl

end Frame

namespace Run

open Expression

/-- Where no product goes on, what waits for the sum is complete. -/
theorem operator_eq_complete {outer : List Frame} {sum : Option (Quantity × Arith)} {q : Quantity}
    {rest : Value} (h : rest.continuesProduct = false) :
    operator outer sum q rest = Frame.complete sum q >>= fun p => operator outer none p rest := by
  unfold operator
  split
  · cases h
  · cases h
  · rfl
  · rfl
  · cases outer <;> rfl
  · rfl

section Steps

variable (outer : List Frame) (f : Frame) (last : Option Operator) (rest : Value)

theorem operand_sign {o : Operator} (ho : o = .sub ∨ o = .neg) :
    operand outer f last (.operator o :: rest) =
      operand outer { f with signs := f.signs + 1 } (some o) rest := by
  rcases ho with rfl | rfl <;> rfl

theorem operand_inParens (v : Value) :
    operand outer f last (v.inParens ++ rest) =
      operand (f :: outer) .start last (v ++ .operator .rightParen :: rest) := by
  rw [Value.inParens, List.cons_append, List.append_assoc]
  rfl

theorem operator_product {op : Arith} (hop : op.rank = 1) (sum : Option (Quantity × Arith))
    (p : Quantity) :
    operator outer sum p (.operator op.toOperator :: rest) =
      operand outer ⟨sum, some (p, op), 0⟩ (some op.toOperator) rest := by
  cases op with
  | add | sub => cases hop
  | mul | div => rfl

theorem operator_sum {op : Arith} (hop : op.rank = 0) (p : Quantity) :
    operator outer none p (.operator op.toOperator :: rest) =
      operand outer ⟨some (p, op), none, 0⟩ (some op.toOperator) rest := by
  cases op with
  | add | sub => rfl
  | mul | div => cases hop

end Steps

/-- In any frame that admits expressions of rank `r`, the value `v` is read like a number of the
value `x`: the run goes on with `x` supplied to the frame, or fails as `x` does. -/
def ReadsAs (r : Nat) (v : Value) (x : Except Fault Quantity) : Prop :=
  ∀ outer f last rest, Frame.Admits r f rest →
    operand outer f last (v ++ rest) =
      x >>= fun q => f.supply q >>= fun p => operator outer f.sum p rest

namespace ReadsAs

variable {r : Nat} {op : Arith} {v w : Value} {x y : Except Fault Quantity}

theorem negate {o : Operator} (h : ReadsAs 2 v x) (ho : o = .sub ∨ o = .neg) :
    ReadsAs r (.operator o :: v) (x >>= fun q => pure q.negate) := by
  intro outer f last rest _
  rw [List.cons_append, operand_sign _ _ _ _ ho, h _ _ _ _ (Frame.admits_factor _ rest)]
  simp only [Frame.supply_succ_signs, bind_assoc, pure_bind]

theorem inParens (h : ReadsAs 0 v x) : ReadsAs r v.inParens x := by
  intro outer f last rest _
  rw [operand_inParens, h _ _ _ _ (Frame.admits_start rfl)]
  rfl

/-- Below the rank of factors, nothing in the frame waits for the value. -/
theorem operand_eq (h : ReadsAs r v x) (hr : r ≤ 1) {f : Frame} {rest : Value}
    (hf : f.Admits r rest) (outer : List Frame) (last : Option Operator) :
    operand outer f last (v ++ rest) = x >>= fun q => operator outer f.sum q rest := by
  rw [h _ _ _ _ hf]
  refine bind_congr fun q => ?_
  rw [hf.supply hr]
  rfl

theorem product (hop : op.rank = 1) (hr : r ≤ 1) (hleft : ReadsAs 1 v x) (hright : ReadsAs 2 w y) :
    ReadsAs r (v ++ .operator op.toOperator :: w)
      (x >>= fun p => y >>= fun q => p.combine op q) := by
  intro outer f last rest hf
  have hfactors : f.Admits 1 (.operator op.toOperator :: (w ++ rest)) :=
    ⟨nofun, fun _ => hf.product hr⟩
  rw [List.append_assoc, List.cons_append, hleft.operand_eq (Nat.le_refl 1) hfactors]
  simp only [bind_assoc]
  refine bind_congr fun p => ?_
  rw [operator_product _ _ hop, hright _ _ _ _ (Frame.admits_factor _ rest)]
  refine bind_congr fun q => ?_
  -- The frame that waits for the right side applies the operation, and the outer one nothing.
  refine bind_congr fun s => ?_
  rw [hf.supply hr]
  rfl

theorem sum (hop : op.rank = 0) (hleft : ReadsAs 0 v x) (hright : ReadsAs 1 w y) :
    ReadsAs 0 (v ++ .operator op.toOperator :: w)
      (x >>= fun p => y >>= fun q => p.combine op q) := by
  intro outer f last rest hf
  obtain ⟨hsum, hrest⟩ := hf.sum rfl
  have hends : Value.continuesProduct (.operator op.toOperator :: (w ++ rest)) = false := by
    cases op with
    | add | sub => rfl
    | mul | div => cases hop
  have hterms : f.Admits 0 (.operator op.toOperator :: (w ++ rest)) :=
    ⟨fun _ => ⟨hsum, hends⟩, hf.product⟩
  rw [List.append_assoc, List.cons_append, hleft.operand_eq (Nat.zero_le 1) hterms, hsum]
  simp only [bind_assoc]
  refine bind_congr fun p => ?_
  have hterm : Frame.Admits 1 ⟨some (p, op), none, 0⟩ rest := ⟨nofun, fun _ => ⟨rfl, rfl⟩⟩
  rw [operator_sum _ _ hop, hright.operand_eq (Nat.le_refl 1) hterm]
  refine bind_congr fun q => ?_
  -- What follows does not take the right side away, so the sum is complete.
  rw [operator_eq_complete hrest]
  refine bind_congr fun s => ?_
  rw [hf.supply (Nat.zero_le 1)]
  rfl

end ReadsAs

/-- A written expression is read like a number of its value. -/
theorem readsAs_of_writes {r : Nat} {e : Expression} {v : Value} (h : Writes r e v) :
    ReadsAs r v e.value := by
  induction h with
  | number | dimension =>
    intro outer f last rest _
    rfl
  | negate ho _ ih => exact ih.negate ho
  | @binary r op _ _ _ _ hr _ _ ihl ihr =>
    cases op with
    | add | sub =>
      obtain rfl : r = 0 := Nat.le_zero.1 hr
      exact .sum rfl ihl ihr
    | mul | div => exact .product rfl hr ihl ihr
  | group _ ih | parens _ ih => exact ih.inParens

/-- A run that is one written expression ends with its value. -/
theorem read_of_writes {e : Expression} {v : Value} (h : Writes 0 e v) :
    read v = e.value.map fun q => (q, []) := by
  have hstart : Frame.start.Admits 0 [] := Frame.admits_start rfl
  have hrun := (readsAs_of_writes h).operand_eq (Nat.zero_le 1) hstart [] none
  rw [List.append_nil] at hrun
  rw [read, hrun]
  cases e.value <;> rfl

end Run

namespace Expression

/-- **Products bind tighter than sums, and operations of equal rank associate to the left.**  Every
expression can be written with the parentheses it needs, and however it is written, with a minus
sign of either kind and with parentheses in any further places, an evaluation gives the one term of
its value, or fails with the fault of the expression. -/
theorem evaluate_writes (e : Expression) :
    Writes 0 e (e.flat 0) ∧
      ∀ v, Writes 0 e v → v.evaluate = e.value.map fun q => [q.toTerm] := by
  refine ⟨e.writes_flat 0, fun v h => ?_⟩
  rw [Value.evaluate_of_no_variable (List.any_eq_false.2 fun t ht => by simp [h.isVariable t ht])]
  obtain ⟨t, rest, rfl⟩ := List.exists_cons_of_ne_nil h.ne_nil
  have hstart : Value.startsOperand (t :: rest) = true := by
    simpa using h.startsOperand []
  rw [Value.evaluateRuns_of_startsOperand hstart, Run.read_of_writes h]
  cases hq : e.value with
  | error fault => rfl
  | ok q =>
    show (Value.evaluateRuns []).map ((if 0 = rest.length then t else q.toTerm) :: ·) = _
    rw [Value.evaluateRuns_nil]
    refine congrArg (fun u => Except.ok [u]) ?_
    by_cases hrest : rest = []
    · -- A single term stays as it is written, which is how its value is written.
      subst hrest
      rw [if_pos List.length_nil.symm, h.toTerm_of_singleton hq]
    · rw [if_neg fun hlen => hrest (List.length_eq_zero_iff.1 hlen.symm)]

/-- An expression with a fault on both sides of a difference. -/
def unlikeUnits : Expression :=
  .binary .sub
    (.negate (.binary .add (.dimension 1 "px" (by decide)) (.dimension 2 "em" (by decide))))
    (.binary .mul (.dimension 3 "px" (by decide)) (.dimension 4 "px" (by decide)))

/-- The expression with parentheses around its product, which needs none. -/
def unlikeUnitsInParens : Value :=
  .operator .neg ::
    Value.inParens [.dimension 1 "px", .operator .add, .dimension 2 "em"] ++
      .operator .sub :: Value.inParens [.dimension 3 "px", .operator .mul, .dimension 4 "px"]

/-- The left side is evaluated first, so the sum of unlike units is what fails. -/
theorem evaluate_writes_unlikeUnits :
    Writes 0 unlikeUnits unlikeUnitsInParens ∧
      unlikeUnitsInParens.evaluate = .error ⟨some .add, .incompatible "px" "em"⟩ := by
  have hwrites : Writes 0 unlikeUnits unlikeUnitsInParens :=
    .binary (Nat.le_refl 0)
      (.negate (.inr rfl) (.parens (.binary (Nat.le_refl 0) (.dimension ..) (.dimension ..))))
      (.parens (.binary (Nat.zero_le 1) (.dimension ..) (.dimension ..)))
  refine ⟨hwrites, ?_⟩
  rw [(evaluate_writes unlikeUnits).2 _ hwrites]
  cbv

end Expression

end Scss
