import Mathlib.Data.List.Basic
import Scss.Proofs.Segments

/-!
# What an evaluation does not notice

An evaluation reads numbers and operators, and passes over all other terms.  So a change of other
terms, which makes neither a number nor an operator nor a reference of them, can be made before the
evaluation or after it.

## Main definitions

* `Term.Passive`: changes of terms that an evaluation does not notice

## Main results

* `Run.toOption_map_run`: a run takes the same terms, and leaves the changed ones
* `Value.toOption_evaluate_map`: a passive change and an evaluation commute
-/

namespace Scss

/-- A change of terms that an evaluation does not notice: numbers and operators stay, and what is
neither does not become one of them, nor a reference. -/
structure Term.Passive (φ : Term → Term) : Prop where
  stays : ∀ t, t.endsRun = false → φ t = t
  ends : ∀ t, t.endsRun = true → (φ t).endsRun = true
  isVariable : ∀ t, (φ t).isVariable = t.isVariable

section Passive

variable {φ : Term → Term}

theorem Term.Passive.isAnyOperator (hφ : Term.Passive φ) (t : Term) :
    (φ t).isAnyOperator = t.isAnyOperator := by
  cases ht : t.endsRun with
  | true =>
    have hends := hφ.ends t ht
    simp only [Term.endsRun, Bool.and_eq_true, Bool.not_eq_true'] at ht hends
    rw [ht.2, hends.2]
  | false => rw [hφ.stays t ht]

theorem Term.Passive.joins (hφ : Term.Passive φ) (t : Term) : (φ t).joins = t.joins := by
  cases ht : t.endsRun with
  | true =>
    have hjoins : ∀ u : Term, u.endsRun = true → u.joins = false := by
      intro u hu
      cases u with
      | operator => cases hu
      | _ => rfl
    rw [hjoins t ht, hjoins _ (hφ.ends t ht)]
  | false => rw [hφ.stays t ht]

namespace Run

theorem toOption_finish_map (φ : Term → Term) (outer : List Frame)
    (sum : Option (Quantity × Arith)) (q : Quantity) (ts : Value) :
    (finish outer sum q (ts.map φ)).toOption =
      (finish outer sum q ts).toOption.map (Prod.map id (List.map φ)) := by
  unfold finish
  cases Frame.complete sum q with
  | error fault => rfl
  | ok p => cases outer <;> rfl

/-- A run takes the same terms, and what it leaves is changed as before. -/
theorem toOption_map_run (hφ : Term.Passive φ) (ts : Value) :
    (∀ outer f last, (operand outer f last (ts.map φ)).toOption =
      (operand outer f last ts).toOption.map (Prod.map id (List.map φ))) ∧
    (∀ outer sum q, (operator outer sum q (ts.map φ)).toOption =
      (operator outer sum q ts).toOption.map (Prod.map id (List.map φ))) := by
  induction ts with
  | nil => exact ⟨fun _ _ _ => rfl, fun outer sum q => toOption_finish_map φ outer sum q []⟩
  | cons t ts ih =>
    obtain ⟨ih₁, ih₂⟩ := ih
    cases ht : t.endsRun with
    | true =>
      -- No run takes the term, before or after the change.
      have hends := hφ.ends t ht
      constructor
      · intro outer f last
        rw [List.map_cons, toOption_operand_of_endsRun ht, toOption_operand_of_endsRun hends]
        rfl
      · intro outer sum q
        rw [List.map_cons, operator_of_endsRun ht, operator_of_endsRun hends]
        exact toOption_finish_map φ outer sum q (t :: ts)
    | false =>
      have hmap : (t :: ts).map φ = t :: ts.map φ := by rw [List.map_cons, hφ.stays t ht]
      constructor
      · intro outer f last
        rw [hmap]
        cases t with
        | number x =>
          simp only [operand, toOption_bind, ih₂, Option.map_bind, Function.comp_def]
        | dimension x unit =>
          simp only [operand, toOption_bind, ih₂, Option.map_bind, Function.comp_def]
        | operator o =>
          cases o with
          | sub | neg | leftParen => exact ih₁ _ _ _
          | _ => rfl
        | _ => cases ht
      · intro outer sum q
        have hend := toOption_finish_map φ outer sum q (t :: ts)
        rw [hmap] at hend ⊢
        cases t with
        | operator o =>
          cases o with
          | mul | div => exact ih₁ _ _ _
          | add | sub =>
            simp only [operator, toOption_bind, ih₁, Option.map_bind, Function.comp_def]
          | rightParen =>
            cases outer with
            | nil => exact hend
            | cons f outer =>
              simp only [operator, toOption_bind, ih₂, Option.map_bind, Function.comp_def]
          | neg | leftParen => exact hend
        | number | dimension => exact hend
        | _ => cases ht

end Run

namespace Value

theorem startsOperand_map (hφ : Term.Passive φ) (v : Value) :
    startsOperand (v.map φ) = v.startsOperand := by
  induction v with
  | nil => rfl
  | cons t rest ih =>
    have hends : ∀ (u : Term) (us : Value), u.endsRun = true → startsOperand (u :: us) = false := by
      intro u us hu
      cases u with
      | number | dimension | operator => cases hu
      | _ => rfl
    cases ht : t.endsRun with
    | true => rw [List.map_cons, hends _ _ (hφ.ends t ht), hends _ _ ht]
    | false =>
      rw [List.map_cons, hφ.stays t ht]
      cases t with
      | operator o =>
        cases o with
        | sub | neg => exact ih
        | _ => rfl
      | number | dimension => rfl
      | _ => cases ht

theorem outsideFault_map_eq_none_iff (hφ : Term.Passive φ) (t : Term) (rest : Value) :
    outsideFault (φ t) (rest.map φ) = none ↔ outsideFault t rest = none := by
  have hneg : φ t = .operator .neg ↔ t = .operator .neg := by
    cases ht : t.endsRun with
    | true =>
      have hends := hφ.ends t ht
      constructor
      · intro h
        rw [h] at hends
        cases hends
      · rintro rfl
        cases ht
    | false => rw [hφ.stays t ht]
  have hhead : (rest.map φ).head?.any Term.joins = rest.head?.any Term.joins := by
    rw [List.head?_map, Option.any_map]
    exact congrArg rest.head?.any (funext hφ.joins)
  rw [outsideFault_eq_none_iff, outsideFault_eq_none_iff, hneg, hφ.isAnyOperator, hhead]

theorem endsRun_of_startsOperand {t : Term} {rest : Value}
    (h : startsOperand (t :: rest) = true) : t.endsRun = false := by
  cases t with
  | number | dimension | operator => rfl
  | _ => cases h

theorem toOption_evaluateRuns_map (hφ : Term.Passive φ) (v : Value) :
    (evaluateRuns (v.map φ)).toOption = (evaluateRuns v).toOption.map (List.map φ) := by
  -- The induction is on the length, since a run takes more than one term.
  induction hn : v.length using Nat.strongRecOn generalizing v with
  | ind n ih =>
    rcases v with _ | ⟨t, rest⟩
    · rw [List.map_nil, evaluateRuns_nil]
      rfl
    · have hstart' : startsOperand (φ t :: rest.map φ) = startsOperand (t :: rest) :=
        startsOperand_map hφ (t :: rest)
      rw [List.map_cons]
      cases hstart : startsOperand (t :: rest) with
      | true =>
        -- A run takes the same terms on both sides, and what it gives is a number, which stays.
        have ht := hφ.stays t (endsRun_of_startsOperand hstart)
        have hread : (Run.read (φ t :: rest.map φ)).toOption =
            (Run.read (t :: rest)).toOption.map (Prod.map id (List.map φ)) :=
          (Run.toOption_map_run hφ (t :: rest)).1 [] .start none
        rw [toOption_evaluateRuns_of_startsOperand (hstart'.trans hstart), hread,
          toOption_evaluateRuns_of_startsOperand hstart]
        cases hr : Run.read (t :: rest) with
        | error fault => rfl
        | ok r =>
          obtain ⟨q, after⟩ := r
          have hlt : after.length < n := hn ▸ Run.length_of_read hr
          have hq : φ q.toTerm = q.toTerm := by
            refine hφ.stays _ ?_
            rw [Term.endsRun, q.isNumeric_toTerm]
            rfl
          show Option.map _ (evaluateRuns (after.map φ)).toOption =
            Option.map _ (Option.map _ (evaluateRuns after).toOption)
          rw [ih after.length hlt after rfl, Option.map_map, Option.map_map]
          refine congrArg (Option.map · _) (funext fun others => ?_)
          simp only [Function.comp_apply, Prod.map_apply, List.length_map, List.map_cons,
            apply_ite φ, ht, hq, id_eq]
      | false =>
        -- The term is passed over, unless it is at fault on both sides.
        rw [toOption_evaluateRuns_of_outside (hstart'.trans hstart),
          toOption_evaluateRuns_of_outside hstart]
        simp only [outsideFault_map_eq_none_iff hφ]
        split
        · have hlt : rest.length < n := hn ▸ Nat.lt_succ_self _
          rw [ih rest.length hlt rest rfl, Option.map_map, Option.map_map]
          rfl
        · rfl

/-- **What an evaluation does not notice, it keeps.**  A change of other terms than numbers and
operators can be made before it or after it. -/
theorem toOption_evaluate_map (hφ : Term.Passive φ) (v : Value) :
    (evaluate (v.map φ)).toOption = v.evaluate.toOption.map (List.map φ) := by
  have hvariable : (v.map φ).any Term.isVariable = v.any Term.isVariable := by
    rw [List.any_map]
    exact congrArg v.any (funext hφ.isVariable)
  cases h : v.any Term.isVariable with
  | true =>
    rw [evaluate_of_variable h, evaluate_of_variable (hvariable.trans h)]
    rfl
  | false =>
    rw [evaluate_of_no_variable h, evaluate_of_no_variable (hvariable.trans h)]
    exact toOption_evaluateRuns_map hφ v

end Value

end Passive

end Scss
