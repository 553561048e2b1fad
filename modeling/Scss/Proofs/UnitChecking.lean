import Mathlib
import Scss.Proofs.Evaluation

/-!
# Units are checked apart from numbers

Two values that differ only in the numbers they hold are evaluated along the same path: the same
terms are read, the same operations are applied in the same order, and their results have the same
units.  The numbers are looked at in two places only, before a division and after an operation, and
there they can do no more than stop the evaluation.

So the two evaluations are followed together.  What waits for an operand in one of them waits in the
other, with the same unit and the same operator (`Frame.Alike`).  Each step gives results that are
alike, or fails for the same reason on both sides, or fails on one side because of its numbers
(`AgreeOnUnits`).

## Main definitions

* `Term.Alike`, `Value.Alike`: terms and values that differ in their numbers at most
* `Fault.OfNumbers`: the faults that hang on the numbers
* `Fault.Alike`: faults that differ in the numbers they name at most
* `AgreeOnUnits`: what the two evaluations have to do with each other

## Main results

* `Quantity.agree_combine`: one operation on quantities with the same units
* `Run.agree_run`: a run, step by step
* `Value.evaluate_alike`: values that differ in their numbers at most are evaluated alike
-/

namespace Scss

/-! ## What differs in its numbers at most -/

/-- The terms are the same but for the value of a number.  An evaluation does not look into the
parameters of a call, so they may be related in any way. -/
inductive Term.Alike (parameters : Value → Value → Prop) : Term → Term → Prop
  | number (x y : Float) : Term.Alike parameters (.number x) (.number y)
  | dimension (x y : Float) (unit : String) :
    Term.Alike parameters (.dimension x unit) (.dimension y unit)
  | call (name : String) {v w : Value} (h : parameters v w) :
    Term.Alike parameters (.call name v) (.call name w)
  | same (t : Term) : Term.Alike parameters t t

/-- The values are the same, position by position, but for the values of numbers. -/
def Value.Alike (parameters : Value → Value → Prop) (v w : Value) : Prop :=
  List.Forall₂ (Term.Alike parameters) v w

/-- The fault hangs on the numbers: a divisor is zero, or a result is out of range. -/
def Fault.OfNumbers (f : Fault) : Prop :=
  f.cause = .divisionByZero ∨ f.cause = .outOfRange

/-- The faults are the same but for the numbers in the term they name. -/
inductive Fault.Alike (parameters : Value → Value → Prop) : Fault → Fault → Prop
  | notANumber (o : Option Operator) {t u : Term} (h : t.Alike parameters u) :
    Fault.Alike parameters ⟨o, .notANumber t⟩ ⟨o, .notANumber u⟩
  | same (f : Fault) : Fault.Alike parameters f f

/-- The results of two runs are related, or both fail with faults that are alike, or one of them
fails because of its numbers. -/
abbrev AgreeOnUnits (parameters : Value → Value → Prop) {α β : Type} (R : α → β → Prop) :
    Except Fault α → Except Fault β → Prop :=
  Agree Fault.OfNumbers (Fault.Alike parameters) R

section

variable {parameters : Value → Value → Prop}

theorem Term.Alike.isVariable {t u : Term} (h : t.Alike parameters u) :
    t.isVariable = u.isVariable := by
  cases h <;> rfl

namespace Quantity

variable {p p' q q' : Quantity}

/-! ## Operations -/

/-- The unit of a result hangs on the units of the operands, unless a divisor is zero. -/
theorem combineUnit_alike (op : Arith) (hp : p.unit = p'.unit) (hq : q.unit = q'.unit) :
    combineUnit op p q = .error .divisionByZero ∨ combineUnit op p' q' = .error .divisionByZero ∨
      combineUnit op p q = combineUnit op p' q' := by
  cases op with
  | div =>
    by_cases hzero : q.value == 0
    · exact .inl (if_pos hzero)
    · by_cases hzero' : q'.value == 0
      · exact .inr (.inl (if_pos hzero'))
      · refine .inr (.inr ?_)
        rw [combineUnit, combineUnit, if_neg hzero, if_neg hzero', hp, hq]
  | _ => exact .inr (.inr (by rw [combineUnit, combineUnit, hp, hq]))

/-- One operation on quantities with the same units gives quantities with the same unit, or is
refused for the same reason, or one side is refused because of its numbers. -/
theorem agree_combine (op : Arith) (hp : p.unit = p'.unit) (hq : q.unit = q'.unit) :
    AgreeOnUnits parameters (fun r r' => r.unit = r'.unit) (p.combine op q)
      (p'.combine op q') := by
  unfold combine
  rcases combineUnit_alike op hp hq with hzero | hzero | hunit
  · rw [hzero]
    exact .left (.inl rfl) _
  · rw [hzero]
    exact .right (.inl rfl) _
  · rw [hunit]
    cases combineUnit op p' q' with
    | error cause => exact .error (.same _)
    | ok unit =>
      -- Only now the numbers count, and only for whether the result is finite.
      dsimp only
      split
      · split
        · exact .ok rfl
        · exact .right (.inr rfl) _
      · exact .left (.inr rfl) _

/-- The terms of quantities with the same unit are alike. -/
theorem alike_toTerm (h : p.unit = q.unit) : p.toTerm.Alike parameters q.toTerm := by
  unfold toTerm Term.measure
  rw [h]
  split
  · exact .number _ _
  · exact .dimension _ _ _

end Quantity

namespace Frame

variable {f f' : Frame} {w w' : Option (Quantity × Arith)} {q q' : Quantity}

/-- Operations that wait for their right side: none on either side, or the same one on a quantity
with the same unit. -/
def Waits : Option (Quantity × Arith) → Option (Quantity × Arith) → Prop :=
  Option.Rel fun a b => a.1.unit = b.1.unit ∧ a.2 = b.2

/-- The same waits in both frames, with the same units. -/
structure Alike (f f' : Frame) : Prop where
  sum : Waits f.sum f'.sum
  product : Waits f.product f'.product
  signs : f.signs = f'.signs

theorem waits_some (h : q.unit = q'.unit) (op : Arith) : Waits (some (q, op)) (some (q', op)) :=
  .some ⟨h, rfl⟩

theorem alike_start : Alike start start :=
  ⟨.none, .none, rfl⟩

theorem Alike.addSign (h : f.Alike f') :
    Alike { f with signs := f.signs + 1 } { f' with signs := f'.signs + 1 } :=
  ⟨h.sum, h.product, congrArg (· + 1) h.signs⟩

theorem unit_negateTimes (n : Nat) (q : Quantity) : (negateTimes n q).unit = q.unit := by
  induction n with
  | zero => rfl
  | succ n ih => exact ih

theorem agree_complete (hw : Waits w w') (hq : q.unit = q'.unit) :
    AgreeOnUnits parameters (fun r r' => r.unit = r'.unit) (complete w q) (complete w' q') := by
  cases hw with
  | none => exact .ok hq
  | @some a b hab =>
    obtain ⟨p, op⟩ := a
    obtain ⟨p', op'⟩ := b
    obtain ⟨hp, rfl⟩ := hab
    exact Quantity.agree_combine op hp hq

theorem agree_supply (hf : f.Alike f') (hq : q.unit = q'.unit) :
    AgreeOnUnits parameters (fun r r' => r.unit = r'.unit) (f.supply q) (f'.supply q') := by
  apply agree_complete hf.product
  rw [unit_negateTimes, unit_negateTimes, hq]

end Frame

/-! ## Runs -/

namespace Run

/-- What two runs on alike values give: quantities with the same unit, and alike terms after
them. -/
def AlikeResults (parameters : Value → Value → Prop) (r r' : Quantity × Value) : Prop :=
  r.1.unit = r'.1.unit ∧ r.2.Alike parameters r'.2

theorem agree_finish {outer outer' : List Frame} {sum sum' : Option (Quantity × Arith)}
    {q q' : Quantity} {ts ts' : Value} (houter : List.Forall₂ Frame.Alike outer outer')
    (hsum : Frame.Waits sum sum') (hq : q.unit = q'.unit) (hts : ts.Alike parameters ts') :
    AgreeOnUnits parameters (AlikeResults parameters)
      (finish outer sum q ts) (finish outer' sum' q' ts') := by
  refine (Frame.agree_complete hsum hq).bind fun r r' _ _ hr => ?_
  cases houter with
  | nil => exact .ok ⟨hr, hts⟩
  | cons => exact .error (.same _)

/-- Both states of a run agree on alike values, as long as the same waits on both sides. -/
theorem agree_run {ts ts' : Value} (h : ts.Alike parameters ts') :
    (∀ outer outer' f f' last, List.Forall₂ Frame.Alike outer outer' → f.Alike f' →
      AgreeOnUnits parameters (AlikeResults parameters)
        (operand outer f last ts) (operand outer' f' last ts')) ∧
    (∀ outer outer' sum sum' q q', List.Forall₂ Frame.Alike outer outer' →
      Frame.Waits sum sum' → q.unit = q'.unit →
      AgreeOnUnits parameters (AlikeResults parameters)
        (operator outer sum q ts) (operator outer' sum' q' ts')) := by
  induction h with
  | nil =>
    constructor
    · intro outer outer' f f' last houter hf
      exact .error (.same _)
    · intro outer outer' sum sum' q q' houter hsum hq
      exact agree_finish houter hsum hq .nil
  | @cons t u rest rest' htu hrest ih =>
    obtain ⟨ih₁, ih₂⟩ := ih
    constructor
    · intro outer outer' f f' last houter hf
      -- A number supplies the frame, on both sides with the same unit.
      have hsupply : ∀ p p' : Quantity, p.unit = p'.unit →
          AgreeOnUnits parameters (AlikeResults parameters)
            (do operator outer f.sum (← f.supply p) rest)
            (do operator outer' f'.sum (← f'.supply p') rest') := fun p p' hp =>
        (Frame.agree_supply hf hp).bind fun r r' _ _ hr => ih₂ _ _ _ _ _ _ houter hf.sum hr
      cases htu with
      | number x y => exact hsupply ⟨x, none⟩ ⟨y, none⟩ rfl
      | dimension x y unit => exact hsupply ⟨x, some unit⟩ ⟨y, some unit⟩ rfl
      | call name hparameters => exact .error (.notANumber _ (.call name hparameters))
      | same =>
        cases t with
        | number x => exact hsupply ⟨x, none⟩ ⟨x, none⟩ rfl
        | dimension x unit => exact hsupply ⟨x, some unit⟩ ⟨x, some unit⟩ rfl
        | operator o =>
          cases o with
          | sub | neg => exact ih₁ _ _ _ _ _ houter hf.addSign
          | leftParen => exact ih₁ _ _ _ _ _ (.cons hf houter) Frame.alike_start
          | _ => exact .error (.same _)
        | _ => exact .error (.same _)
    · intro outer outer' sum sum' q q' houter hsum hq
      have hend : AgreeOnUnits parameters (AlikeResults parameters)
          (finish outer sum q (t :: rest)) (finish outer' sum' q' (u :: rest')) :=
        agree_finish houter hsum hq (.cons htu hrest)
      cases htu with
      | number | dimension | call => exact hend
      | same =>
        cases t with
        | operator o =>
          cases o with
          | mul | div => exact ih₁ _ _ _ _ _ houter ⟨hsum, Frame.waits_some hq _, rfl⟩
          | add | sub =>
            exact (Frame.agree_complete hsum hq).bind fun r r' _ _ hr =>
              ih₁ _ _ _ _ _ houter ⟨Frame.waits_some hr _, .none, rfl⟩
          | rightParen =>
            cases houter with
            | nil => exact hend
            | cons hf houter =>
              exact (Frame.agree_complete hsum hq).bind fun r r' _ _ hr =>
                (Frame.agree_supply hf hr).bind fun s s' _ _ hs =>
                  ih₂ _ _ _ _ _ _ houter hf.sum hs
          | neg | leftParen => exact hend
        | _ => exact hend

theorem agree_read {ts ts' : Value} (h : ts.Alike parameters ts') :
    AgreeOnUnits parameters (AlikeResults parameters) (read ts) (read ts') :=
  (agree_run h).1 [] [] .start .start none .nil Frame.alike_start

end Run

/-! ## Values -/

namespace Value

variable {v w rest rest' : Value} {t u : Term}

theorem Alike.startsOperand (h : v.Alike parameters w) : v.startsOperand = w.startsOperand := by
  induction h with
  | nil => rfl
  | @cons t u rest rest' htu _ ih =>
    cases htu with
    | same =>
      cases t with
      | operator o =>
        cases o with
        | sub | neg => exact ih
        | _ => rfl
      | _ => rfl
    | _ => rfl

theorem Alike.any_isVariable (h : v.Alike parameters w) :
    v.any Term.isVariable = w.any Term.isVariable := by
  induction h with
  | nil => rfl
  | cons htu _ ih => rw [List.any_cons, List.any_cons, htu.isVariable, ih]

/-- A term that is no operator is refused in front of an operator that joins. -/
theorem outsideFault_of_not_operator (ht : t.isAnyOperator = false) (rest : Value) :
    outsideFault t rest = rest.head?.bind fun
      | .operator o => if o.isArithmetic then some ⟨some o, .notANumber t⟩ else none
      | _ => none := by
  cases t with
  | operator => cases ht
  | _ =>
    rcases rest with _ | ⟨u, rest⟩
    · rfl
    · cases u <;> rfl

/-- Outside of runs the same term is refused on both sides, for the same reason. -/
theorem outsideFault_alike (htu : t.Alike parameters u) (hrest : rest.Alike parameters rest') :
    Option.Rel (Fault.Alike parameters) (outsideFault t rest) (outsideFault u rest') := by
  cases ht : t.isAnyOperator with
  | true =>
    -- Operators are the same on both sides, and what follows them does not matter.
    cases htu with
    | same =>
      cases t with
      | operator o =>
        cases o with
        | neg => exact .none
        | _ => exact .some (.same _)
      | _ => cases ht
    | _ => cases ht
  | false =>
    have hu : u.isAnyOperator = false := by
      cases htu with
      | same => exact ht
      | _ => rfl
    rw [outsideFault_of_not_operator ht, outsideFault_of_not_operator hu]
    cases hrest with
    | nil => exact .none
    | @cons next next' _ _ hnext _ =>
      cases hnext with
      | same =>
        cases next with
        | operator o =>
          dsimp only [List.head?_cons, Option.bind_some]
          split
          · exact .some (.notANumber _ htu)
          · exact .none
        | _ => exact .none
      | _ => exact .none

/-- Evaluations of alike values agree, run by run. -/
theorem agree_evaluateRuns (h : v.Alike parameters w) :
    AgreeOnUnits parameters (Value.Alike parameters) v.evaluateRuns w.evaluateRuns := by
  -- A run may take many terms at once, so the induction is on the length.
  induction hn : v.length using Nat.strongRecOn generalizing v w with
  | ind n ih =>
    cases h with
    | nil =>
      rw [evaluateRuns_nil]
      exact .ok .nil
    | @cons t u rest rest' htu hrest =>
      have hlength : rest.length = rest'.length := hrest.length_eq
      have hstart : startsOperand (t :: rest) = startsOperand (u :: rest') :=
        Alike.startsOperand (.cons htu hrest)
      cases ht : startsOperand (t :: rest) with
      | true =>
        rw [evaluateRuns_of_startsOperand ht, evaluateRuns_of_startsOperand (hstart ▸ ht)]
        refine (Run.agree_read (.cons htu hrest)).bind fun r r' hr _ hrr' => ?_
        have hshorter : r.2.length < n := hn ▸ Run.length_of_read hr
        refine (ih _ hshorter hrr'.2 rfl).map fun others others' hothers => ?_
        -- Both runs take equally many terms, so a run of one term is one on both sides.
        refine .cons ?_ hothers
        rw [← hlength, ← hrr'.2.length_eq]
        split
        · exact htu
        · exact Quantity.alike_toTerm hrr'.1
      | false =>
        have hshorter : rest.length < n := by
          rw [← hn, List.length_cons]
          omega
        rw [evaluateRuns_of_outside ht, evaluateRuns_of_outside (hstart ▸ ht)]
        have hfault := outsideFault_alike htu hrest
        generalize outsideFault t rest = fault at hfault ⊢
        generalize outsideFault u rest' = fault' at hfault ⊢
        cases hfault with
        | none => exact (ih _ hshorter hrest rfl).map fun _ _ hothers => .cons htu hothers
        | some halike => exact .error halike

/-- Evaluations of alike values agree. -/
theorem agree_evaluate (h : v.Alike parameters w) :
    AgreeOnUnits parameters (Value.Alike parameters) v.evaluate w.evaluate := by
  cases hv : v.any Term.isVariable with
  | true =>
    rw [evaluate_of_variable hv, evaluate_of_variable (h.any_isVariable ▸ hv)]
    exact .ok h
  | false =>
    rw [evaluate_of_no_variable hv, evaluate_of_no_variable (h.any_isVariable ▸ hv)]
    exact agree_evaluateRuns h

/-- **Unit checking does not depend on the numbers.**  Of two values that differ in their numbers at
most, the results differ in their numbers at most; and if one evaluation fails for another reason
than its numbers, so does the other, with the same fault unless its own numbers stop it first. -/
theorem evaluate_alike (h : v.Alike parameters w) :
    (∀ v' w', v.evaluate = .ok v' → w.evaluate = .ok w' → v'.Alike parameters w') ∧
    (∀ fault, v.evaluate = .error fault → ¬fault.OfNumbers →
      ∃ fault', w.evaluate = .error fault' ∧ (fault'.OfNumbers ∨ fault.Alike parameters fault')) ∧
    (∀ fault', w.evaluate = .error fault' → ¬fault'.OfNumbers →
      ∃ fault, v.evaluate = .error fault ∧ (fault.OfNumbers ∨ fault.Alike parameters fault')) := by
  have hagree := agree_evaluate h
  generalize v.evaluate = x at hagree ⊢
  generalize w.evaluate = y at hagree ⊢
  cases hagree with
  | ok halike =>
    refine ⟨?_, nofun, nofun⟩
    rintro v' w' ⟨⟩ ⟨⟩
    exact halike
  | @error f f' halike =>
    refine ⟨nofun, ?_, ?_⟩
    · rintro fault ⟨⟩ -
      exact ⟨f', rfl, .inr halike⟩
    · rintro fault' ⟨⟩ -
      exact ⟨f, rfl, .inr halike⟩
  | @left f hnumbers =>
    refine ⟨nofun, ?_, ?_⟩
    · rintro fault ⟨⟩ hnot
      exact absurd hnumbers hnot
    · intro fault' _ _
      exact ⟨f, rfl, .inl hnumbers⟩
  | @right f' hnumbers =>
    refine ⟨nofun, ?_, ?_⟩
    · intro fault _ _
      exact ⟨f', rfl, .inl hnumbers⟩
    · rintro fault' ⟨⟩ hnot
      exact absurd hnumbers hnot

/-- A length in parentheses beside a call keeps its unit whatever its number is, and a product of
two lengths is refused whatever their numbers are. -/
theorem evaluate_alike_lengths :
    Value.Alike Eq [.dimension 3 "px", .call "f" [.number 1]]
      [.dimension 4 "px", .call "f" [.number 1]] ∧
    ∃ fault, evaluate [.dimension 5 "px", .operator .mul, .dimension 0 "em"] = .error fault ∧
      (fault.OfNumbers ∨
        Fault.Alike Eq ⟨some .mul, .cannotMultiply "px" "em"⟩ fault) := by
  have hlengths : Value.Alike Eq
      [.operator .leftParen, .dimension 3 "px", .operator .rightParen, .call "f" [.number 1]]
      [.operator .leftParen, .dimension 4 "px", .operator .rightParen, .call "f" [.number 1]] :=
    .cons (.same _) (.cons (.dimension _ _ _) (.cons (.same _) (.cons (.call _ rfl) .nil)))
  have hproducts : Value.Alike Eq
      [.dimension 1 "px", .operator .mul, .dimension 2 "em"]
      [.dimension 5 "px", .operator .mul, .dimension 0 "em"] :=
    .cons (.dimension _ _ _) (.cons (.same _) (.cons (.dimension _ _ _) .nil))
  have hfault : evaluate [.dimension 1 "px", .operator .mul, .dimension 2 "em"] =
      .error ⟨some .mul, .cannotMultiply "px" "em"⟩ := by
    cbv
  constructor
  · refine (evaluate_alike hlengths).1 _ _ ?_ ?_
    · cbv
    · cbv
  · refine (evaluate_alike hproducts).2.1 _ hfault ?_
    rintro (h | h)
    · cases h
    · cases h

end Value

end

end Scss
