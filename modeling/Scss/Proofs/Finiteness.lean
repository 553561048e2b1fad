import Mathlib
import Scss.Proofs.Doubles
import Scss.Proofs.Evaluation

/-!
# Evaluations of finite numbers

An operation whose result is infinite or not a number is refused.  The guard stands in one place,
but a number reaches the result in other ways too: as it is written, through parentheses, and with
signs in front.  None of these leaves the finite numbers, so all that waits in the frames of a run
is finite, and so is what the run gives.  The guard refuses nothing else: a result is out of range
only if an operation on two finite numbers has no finite result.

## Main definitions

* `Term.isFinite`: a term without a number, or with a finite one
* `Frame.IsFinite`: all that waits for an operand is finite
* `Fault.Overflows`: the fault of an operation on finite numbers whose result is not finite
* `StaysFinite`: what the steps of an evaluation give

## Main results

* `Quantity.staysFinite_combine`: one operation on finite numbers
* `Run.staysFinite_run`: a run, step by step
* `Value.evaluate_staysFinite`: evaluations of finite numbers
-/

namespace Scss

/-! ## What is finite -/

/-- Whether the number of the term is finite, if it has one. -/
def Term.isFinite : Term → Bool
  | .number x | .dimension x _ => x.isFinite
  | _ => true

/-- The number of the quantity is finite. -/
def Quantity.IsFinite (q : Quantity) : Prop :=
  q.value.isFinite = true

/-- The fault is that of an operation on two finite numbers whose result is not finite. -/
def Fault.Overflows (f : Fault) : Prop :=
  ∃ (op : Arith) (p q : Quantity), p.IsFinite ∧ q.IsFinite ∧ f.operator = some op.toOperator ∧
    (Quantity.apply op p.value q.value).isFinite = false

/-- The result is there and satisfies `P`, or there is a fault, which tells of a result out of range
only if an operation overflows. -/
inductive StaysFinite {α : Type} (P : α → Prop) : Except Fault α → Prop
  | ok {a : α} (h : P a) : StaysFinite P (.ok a)
  | error {f : Fault} (h : f.cause = .outOfRange → f.Overflows) : StaysFinite P (.error f)

namespace StaysFinite

variable {α β : Type} {P : α → Prop} {Q : β → Prop} {x : Except Fault α}

theorem bind {g : α → Except Fault β} (h : StaysFinite P x)
    (hg : ∀ a, x = .ok a → P a → StaysFinite Q (g a)) : StaysFinite Q (x >>= g) := by
  cases h with
  | ok ha => exact hg _ rfl ha
  | error hf => exact .error hf

theorem map {g : α → β} (h : StaysFinite P x) (hg : ∀ a, P a → Q (g a)) :
    StaysFinite Q (x.map g) := by
  cases h with
  | ok ha => exact .ok (hg _ ha)
  | error hf => exact .error hf

/-- A fault for another reason. -/
theorem of_cause {f : Fault} (h : f.cause ≠ .outOfRange) :
    StaysFinite P (.error f) :=
  .error fun hrange => absurd hrange h

end StaysFinite

namespace Quantity

variable {p q : Quantity}

theorem IsFinite.negate (h : q.IsFinite) : q.negate.IsFinite :=
  Number.isFinite_neg h

theorem isFinite_toTerm (h : q.IsFinite) : q.toTerm.isFinite = true := by
  unfold toTerm Term.measure
  split
  · exact h
  · exact h

/-- The units are checked before the result is, and never found out of range. -/
theorem ne_outOfRange_of_combineUnit {op : Arith} {cause : Fault.Cause}
    (h : combineUnit op p q = .error cause) : cause ≠ .outOfRange := by
  rintro rfl
  unfold combineUnit at h
  split at h
  all_goals
    simp only [sumUnit, productUnit, quotientUnit] at h
    grind

/-- An operation on finite numbers gives a finite number, or says what keeps it from that. -/
theorem staysFinite_combine (op : Arith) (hp : p.IsFinite) (hq : q.IsFinite) :
    StaysFinite IsFinite (p.combine op q) := by
  unfold combine
  split
  · rename_i cause hunit
    exact .of_cause (ne_outOfRange_of_combineUnit hunit)
  · dsimp only
    split
    · rename_i hfinite
      exact .ok hfinite
    · rename_i hfinite
      exact .error fun _ => ⟨op, p, q, hp, hq, rfl, Bool.eq_false_iff.2 hfinite⟩

end Quantity

/-! ## Runs -/

namespace Frame

variable {f : Frame} {w : Option (Quantity × Arith)} {q : Quantity}

/-- An operation that waits for its right side has a finite left one. -/
def WaitsFinite (w : Option (Quantity × Arith)) : Prop :=
  ∀ p op, w = some (p, op) → p.IsFinite

/-- All that waits for an operand is finite. -/
structure IsFinite (f : Frame) : Prop where
  sum : WaitsFinite f.sum
  product : WaitsFinite f.product

theorem waitsFinite_none : WaitsFinite none := by
  rintro p op ⟨⟩

theorem waitsFinite_some (h : q.IsFinite) (op : Arith) : WaitsFinite (some (q, op)) := by
  rintro p op' ⟨⟩
  exact h

theorem isFinite_start : start.IsFinite :=
  ⟨waitsFinite_none, waitsFinite_none⟩

theorem IsFinite.addSign (h : f.IsFinite) : IsFinite { f with signs := f.signs + 1 } :=
  ⟨h.sum, h.product⟩

theorem isFinite_negateTimes (n : ℕ) (h : q.IsFinite) : (negateTimes n q).IsFinite := by
  induction n with
  | zero => exact h
  | succ n ih => exact ih.negate

theorem staysFinite_complete (hw : WaitsFinite w) (hq : q.IsFinite) :
    StaysFinite Quantity.IsFinite (complete w q) := by
  match w, hw with
  | none, _ => exact .ok hq
  | some (p, op), hw => exact Quantity.staysFinite_combine op (hw p op rfl) hq

theorem staysFinite_supply (hf : f.IsFinite) (hq : q.IsFinite) :
    StaysFinite Quantity.IsFinite (f.supply q) :=
  staysFinite_complete hf.product (isFinite_negateTimes f.signs hq)

end Frame

namespace Run

/-- The result of a run is finite. -/
abbrev FiniteResult (r : Quantity × Value) : Prop :=
  r.1.IsFinite

theorem staysFinite_finish {outer : List Frame} {sum : Option (Quantity × Arith)} {q : Quantity}
    (hsum : Frame.WaitsFinite sum) (hq : q.IsFinite) (ts : Value) :
    StaysFinite FiniteResult (finish outer sum q ts) := by
  refine (Frame.staysFinite_complete hsum hq).bind fun r _ hr => ?_
  cases outer with
  | nil => exact .ok hr
  | cons => exact .of_cause (by simp)

/-- Both states of a run stay finite, as long as all that waits in their frames is finite. -/
theorem staysFinite_run {ts : Value} (h : ts.all Term.isFinite = true) :
    (∀ outer f last, (∀ g ∈ outer, Frame.IsFinite g) → f.IsFinite →
      StaysFinite FiniteResult (operand outer f last ts)) ∧
    (∀ outer sum q, (∀ g ∈ outer, Frame.IsFinite g) → Frame.WaitsFinite sum → q.IsFinite →
      StaysFinite FiniteResult (operator outer sum q ts)) := by
  induction ts with
  | nil =>
    constructor
    · intro outer f last _ _
      exact .of_cause (by simp)
    · intro outer sum q _ hsum hq
      exact staysFinite_finish hsum hq []
  | cons t rest ih =>
    obtain ⟨ht, hrest⟩ := Bool.and_eq_true_iff.1 h
    obtain ⟨ih₁, ih₂⟩ := ih hrest
    constructor
    · intro outer f last houter hf
      have hsupply : ∀ p : Quantity, p.IsFinite →
          StaysFinite FiniteResult (do operator outer f.sum (← f.supply p) rest) := fun p hp =>
        (Frame.staysFinite_supply hf hp).bind fun q _ hq => ih₂ _ _ _ houter hf.sum hq
      cases t with
      | number x => exact hsupply ⟨x, none⟩ ht
      | dimension x unit => exact hsupply ⟨x, some unit⟩ ht
      | operator o =>
        cases o with
        | sub | neg => exact ih₁ _ _ _ houter hf.addSign
        | leftParen =>
          exact ih₁ _ _ _ (List.forall_mem_cons.2 ⟨hf, houter⟩) Frame.isFinite_start
        | _ => exact .of_cause (by simp)
      | _ => exact .of_cause (by simp)
    · intro outer sum q houter hsum hq
      have hend : StaysFinite FiniteResult (finish outer sum q (t :: rest)) :=
        staysFinite_finish hsum hq _
      cases t with
      | operator o =>
        cases o with
        | mul | div => exact ih₁ _ _ _ houter ⟨hsum, Frame.waitsFinite_some hq _⟩
        | add | sub =>
          exact (Frame.staysFinite_complete hsum hq).bind fun p _ hp =>
            ih₁ _ _ _ houter ⟨Frame.waitsFinite_some hp _, Frame.waitsFinite_none⟩
        | rightParen =>
          cases outer with
          | nil => exact hend
          | cons f outer =>
            -- The result of the parentheses is the operand of the frame around them.
            obtain ⟨hf, houter⟩ := List.forall_mem_cons.1 houter
            exact (Frame.staysFinite_complete hsum hq).bind fun p _ hp =>
              (Frame.staysFinite_supply hf hp).bind fun p' _ hp' => ih₂ _ _ _ houter hf.sum hp'
        | neg | leftParen => exact hend
      | _ => exact hend

theorem staysFinite_read {ts : Value} (h : ts.all Term.isFinite = true) :
    StaysFinite FiniteResult (read ts) :=
  (staysFinite_run h).1 [] .start none (by simp) Frame.isFinite_start

end Run

/-! ## Values -/

namespace Value

variable {v w rest : Value} {t : Term}

/-- Outside of runs no number is looked at. -/
theorem ne_outOfRange_of_outsideFault {fault : Fault} (h : outsideFault t rest = some fault) :
    fault.cause ≠ .outOfRange := by
  unfold outsideFault at h
  split at h
  · cases h
  · cases h
    simp
  · split at h
    · cases h
      simp
    · cases h
  · cases h

theorem staysFinite_evaluateRuns (h : v.all Term.isFinite = true) :
    StaysFinite (fun w => w.all Term.isFinite = true) (evaluateRuns v) := by
  fun_induction evaluateRuns v with
  | case1 => exact .ok rfl
  | case2 t rest _ fault hread =>
    have hrun := Run.staysFinite_read h
    rw [hread] at hrun
    cases hrun with
    | error hf => exact .error hf
  | case3 t rest _ q after hread _ result ih =>
    have hrun := Run.staysFinite_read h
    rw [hread] at hrun
    obtain ⟨ht, -⟩ := Bool.and_eq_true_iff.1 h
    have hafter : after.all Term.isFinite = true :=
      List.all_eq_true.2 fun u hu => List.all_eq_true.1 h u ((Run.takes_of_read hread).mem hu)
    have hresult : result.isFinite = true := by
      cases hrun with
      | ok hq =>
        dsimp only [result]
        split
        · exact ht
        · exact q.isFinite_toTerm hq
    exact (ih hafter).map fun others hothers => Bool.and_eq_true_iff.2 ⟨hresult, hothers⟩
  | case4 t rest _ fault hfault => exact .of_cause (ne_outOfRange_of_outsideFault hfault)
  | case5 t rest _ _ ih =>
    obtain ⟨ht, hrest⟩ := Bool.and_eq_true_iff.1 h
    exact (ih hrest).map fun others hothers => Bool.and_eq_true_iff.2 ⟨ht, hothers⟩

/-- **Evaluations of finite numbers stay finite.**  If all numbers of a value are finite, so are all
numbers of its result, through any nesting of parentheses and signs; and the evaluation is refused
with a result out of range only where an operation on two finite numbers overflows. -/
theorem evaluate_staysFinite (hv : v.all Term.isFinite = true) :
    (∀ w, v.evaluate = .ok w → w.all Term.isFinite = true) ∧
    (∀ fault, v.evaluate = .error fault → fault.cause = .outOfRange → fault.Overflows) := by
  have hstays : StaysFinite (fun w => w.all Term.isFinite = true) v.evaluate := by
    unfold evaluate
    split
    · exact .ok hv
    · exact staysFinite_evaluateRuns hv
  constructor
  · intro w h
    rw [h] at hstays
    cases hstays with
    | ok hw => exact hw
  · intro fault h
    rw [h] at hstays
    cases hstays with
    | error hf => exact hf

/-- Nested parentheses and signs around finite numbers, and a product that leaves the range. -/
theorem evaluate_staysFinite_nested :
    evaluate [.word "auto", .operator .neg, .operator .leftParen, .number 3, .operator .mul,
        .operator .sub, .operator .leftParen, .dimension 2 "px", .operator .add, .dimension 1 "px",
        .operator .rightParen, .operator .rightParen] =
      .ok [.word "auto", .dimension 9 "px"] ∧
    List.all [.word "auto", .dimension 9 "px"] Term.isFinite = true ∧
    evaluate [.dimension (.ofBits 0x7FE0000000000000) "px", .operator .mul, .number 2] =
      .error ⟨some .mul, .outOfRange⟩ ∧
    Fault.Overflows ⟨some .mul, .outOfRange⟩ := by
  have hrun : Run.read [.operator .neg, .operator .leftParen, .number 3, .operator .mul,
      .operator .sub, .operator .leftParen, .dimension 2 "px", .operator .add, .dimension 1 "px",
      .operator .rightParen, .operator .rightParen] = .ok (⟨9, some "px"⟩, []) := rfl
  have hnested : evaluate [.word "auto", .operator .neg, .operator .leftParen, .number 3,
        .operator .mul, .operator .sub, .operator .leftParen, .dimension 2 "px", .operator .add,
        .dimension 1 "px", .operator .rightParen, .operator .rightParen] =
      .ok [.word "auto", .dimension 9 "px"] := by
    rw [evaluate_of_no_variable rfl, evaluateRuns_of_outside rfl]
    dsimp only [outsideFault]
    rw [evaluateRuns_of_startsOperand rfl, hrun]
    dsimp only [bind, Except.bind]
    rw [evaluateRuns_nil]
    rfl
  have hlarge : evaluate [.dimension (.ofBits 0x7FE0000000000000) "px", .operator .mul,
      .number 2] = .error ⟨some .mul, .outOfRange⟩ := by
    rw [evaluate_of_no_variable rfl, evaluateRuns_of_startsOperand rfl]
    rfl
  exact ⟨hnested, (evaluate_staysFinite (by decide)).1 _ hnested, hlarge,
    (evaluate_staysFinite (by decide)).2 _ hlarge rfl⟩

end Value

end Scss
