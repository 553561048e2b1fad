import Mathlib
import Scss.Proofs.Evaluation

/-!
# The reduced form

An evaluation leaves no operator but minus signs, and a minus sign only where no number follows it:
a sign in front of a number is part of a run.  A value of this form has no run of more than one
term, so a second evaluation changes nothing.

What has to be watched is a minus sign that is passed over: the terms after it are evaluated later,
and none of them may turn into a number that it would belong to.  An evaluation keeps whether an
operand stands at the start, which excludes that.

## Main definitions

* `Value.Reduced`: the form that evaluations leave

## Main results

* `Value.reduced_of_evaluateRuns`: what an evaluation leaves is reduced
* `Value.evaluateRuns_of_reduced`: an evaluation changes nothing in the reduced form
* `Value.evaluate_reduces`: evaluating twice is the same as evaluating once
-/

namespace Scss

namespace Value

/-- No operator is left but minus signs, and no number stands behind a minus sign, with or without
more of them in between. -/
structure Reduced (v : Value) : Prop where
  operators : ∀ o, .operator o ∈ v → o = .neg
  negated : ∀ before n t after,
    v = before ++ List.replicate (n + 1) (.operator .neg) ++ t :: after → t.isNumeric = false

variable {v w rest : Value} {t : Term}

/-! ## The form, term by term -/

theorem startsOperand_negated (n : Nat) (ht : t.isNumeric = true) (after : Value) :
    startsOperand (List.replicate n (.operator .neg) ++ t :: after) = true := by
  induction n with
  | zero =>
    cases t with
    | number | dimension => rfl
    | _ => cases ht
  | succ n ih => exact ih

/-- Where no operator is left but minus signs, an operand that starts is a number behind such
signs. -/
theorem exists_negated_of_startsOperand (hops : ∀ o, .operator o ∈ v → o = .neg)
    (h : startsOperand v = true) :
    ∃ n t after, v = List.replicate n (.operator .neg) ++ t :: after ∧ t.isNumeric = true := by
  induction v with
  | nil => cases h
  | cons t rest ih =>
    cases t with
    | number | dimension => exact ⟨0, _, rest, rfl, rfl⟩
    | operator o =>
      obtain rfl := hops o List.mem_cons_self
      obtain ⟨n, t, after, rfl, ht⟩ := ih (fun o ho => hops o (List.mem_cons_of_mem _ ho)) h
      exact ⟨n + 1, t, after, rfl, ht⟩
    | _ => cases h

theorem reduced_nil : Reduced [] where
  operators := nofun
  negated before n t after h := by simp at h

/-- A value is reduced if it is from its second term on, and its first term is an operator only if
it is a minus sign without an operand behind it. -/
theorem reduced_cons_iff :
    Reduced (t :: rest) ↔
      rest.Reduced ∧ ∀ o, t = .operator o → o = .neg ∧ rest.startsOperand = false := by
  constructor
  · intro h
    have hrest : rest.Reduced := by
      refine ⟨fun o ho => h.operators o (List.mem_cons_of_mem _ ho), ?_⟩
      rintro before n u after rfl
      exact h.negated (t :: before) n u after rfl
    refine ⟨hrest, ?_⟩
    rintro o rfl
    obtain rfl := h.operators o List.mem_cons_self
    refine ⟨rfl, ?_⟩
    cases hstart : startsOperand rest with
    | false => rfl
    | true =>
      -- A number behind more signs would be behind this one too.
      obtain ⟨n, u, after, rfl, hu⟩ := exists_negated_of_startsOperand hrest.operators hstart
      have hnot := h.negated [] n u after rfl
      rw [hu] at hnot
      cases hnot
  · rintro ⟨hrest, hfirst⟩
    constructor
    · intro o ho
      rcases List.mem_cons.1 ho with rfl | ho
      · exact (hfirst o rfl).1
      · exact hrest.operators o ho
    · intro before n u after heq
      cases before with
      | nil =>
        obtain ⟨rfl, rfl⟩ := List.cons.inj heq
        have hstart := (hfirst .neg rfl).2
        cases hu : u.isNumeric with
        | false => rfl
        | true =>
          cases hstart.symm.trans (startsOperand_negated n hu after)
      | cons b before =>
        obtain ⟨-, rfl⟩ := List.cons.inj heq
        exact hrest.negated before n u after rfl

/-! ## What an evaluation leaves -/

theorem startsOperand_cons_congr (h : startsOperand v = startsOperand w) (t : Term) :
    startsOperand (t :: v) = startsOperand (t :: w) := by
  cases t with
  | operator o =>
    cases o with
    | sub | neg => exact h
    | _ => rfl
  | _ => rfl

/-- What an evaluation leaves is reduced, and an operand stands at its start if one did before. -/
theorem reduced_of_evaluateRuns :
    ∀ w, evaluateRuns v = .ok w → w.Reduced ∧ startsOperand w = startsOperand v := by
  fun_induction evaluateRuns v with
  | case1 =>
    rintro w ⟨⟩
    exact ⟨reduced_nil, rfl⟩
  | case2 =>
    rintro w ⟨⟩
  | case3 t rest hstart q after hread _ result ih =>
    intro w h
    obtain ⟨others, hothers, rfl⟩ := map_eq_ok_iff.1 h
    have hresult : result.isNumeric = true := Run.isNumeric_result hread
    refine ⟨reduced_cons_iff.2 ⟨(ih others hothers).1, ?_⟩, ?_⟩
    · intro o ho
      rw [ho] at hresult
      cases hresult
    · rw [hstart]
      exact startsOperand_negated 0 hresult others
  | case4 =>
    rintro w ⟨⟩
  | case5 t rest hstart hfault ih =>
    intro w h
    obtain ⟨others, hothers, rfl⟩ := map_eq_ok_iff.1 h
    obtain ⟨hreduced, hsame⟩ := ih others hothers
    refine ⟨reduced_cons_iff.2 ⟨hreduced, ?_⟩, startsOperand_cons_congr hsame t⟩
    rintro o rfl
    obtain rfl := eq_neg_of_outsideFault hfault
    -- No operand stands behind the sign, so none does after the evaluation.
    refine ⟨rfl, ?_⟩
    rw [hsame]
    exact Bool.eq_false_iff.2 hstart

/-! ## Evaluating again -/

theorem read_of_reduced (ht : t.isNumeric = true) (hrest : rest.Reduced) :
    ∃ q, Run.read (t :: rest) = .ok (q, rest) := by
  have hend : ∀ q, Run.operator [] none q rest = .ok (q, rest) := by
    intro q
    rcases rest with _ | ⟨u, rest⟩
    · rfl
    · cases u with
      | operator o =>
        obtain rfl := hrest.operators o List.mem_cons_self
        rfl
      | _ => rfl
  cases t with
  | number x => exact ⟨⟨x, none⟩, hend _⟩
  | dimension x unit => exact ⟨⟨x, some unit⟩, hend _⟩
  | _ => cases ht

theorem joins_head_of_reduced (h : v.Reduced) : v.head?.any Term.joins = false := by
  rcases v with _ | ⟨t, rest⟩
  · rfl
  · cases t with
    | operator o =>
      obtain rfl := h.operators o List.mem_cons_self
      rfl
    | _ => rfl

/-- An evaluation changes nothing in the reduced form. -/
theorem evaluateRuns_of_reduced (h : v.Reduced) : evaluateRuns v = .ok v := by
  induction v with
  | nil => exact evaluateRuns_nil
  | cons t rest ih =>
    obtain ⟨hrest, hfirst⟩ := reduced_cons_iff.1 h
    cases hstart : startsOperand (t :: rest) with
    | true =>
      -- The operand that starts here is a number, and its run ends at once.
      have ht : t.isNumeric = true := by
        cases t with
        | number | dimension => rfl
        | operator o =>
          obtain ⟨rfl, hnot⟩ := hfirst o rfl
          cases hnot.symm.trans hstart
        | _ => cases hstart
      obtain ⟨q, hread⟩ := read_of_reduced ht hrest
      rw [evaluateRuns_of_startsOperand hstart, hread]
      show (evaluateRuns rest).map ((if rest.length = rest.length then t else q.toTerm) :: ·) = _
      rw [ih hrest, if_pos rfl]
      rfl
    | false =>
      have hfault : outsideFault t rest = none := by
        refine outsideFault_eq_none_iff.2 ?_
        cases t with
        | operator o => exact .inl (congrArg _ (hfirst o rfl).1)
        | _ => exact .inr ⟨rfl, joins_head_of_reduced hrest⟩
      rw [evaluateRuns_of_outside hstart, hfault, ih hrest]
      rfl

theorem no_variable_of_evaluate (hv : v.any Term.isVariable = false) (h : v.evaluate = .ok w) :
    w.any Term.isVariable = false := by
  rw [List.any_eq_false] at hv ⊢
  intro t ht hvariable
  rcases mem_or_isNumeric_of_evaluate h t ht with hmem | hnumeric
  · exact hv t hmem hvariable
  · cases t with
    | «variable» => cases hnumeric
    | _ => cases hvariable

/-- **Evaluating twice is the same as evaluating once.**  What an evaluation gives is not changed by
another one; and without references it holds no operator but minus signs, none of them with a number
behind it. -/
theorem evaluate_reduces (h : v.evaluate = .ok w) :
    w.evaluate = .ok w ∧ (v.any Term.isVariable = false → w.Reduced) := by
  cases hv : v.any Term.isVariable with
  | true =>
    have hsame := evaluate_of_variable hv
    cases hsame.symm.trans h
    exact ⟨hsame, nofun⟩
  | false =>
    have hw := no_variable_of_evaluate hv h
    rw [evaluate_of_no_variable hv] at h
    have hreduced := (reduced_of_evaluateRuns w h).1
    rw [evaluate_of_no_variable hw]
    exact ⟨evaluateRuns_of_reduced hreduced, fun _ => hreduced⟩

/-- Two minus signs in front of a word stay, and a number loses its parentheses. -/
theorem evaluate_reduces_negatedWord :
    evaluate [.operator .neg, .operator .neg, .word "auto", .operator .leftParen, .number 3,
        .operator .rightParen] =
      .ok [.operator .neg, .operator .neg, .word "auto", .number 3] ∧
    evaluate [.operator .neg, .operator .neg, .word "auto", .number 3] =
      .ok [.operator .neg, .operator .neg, .word "auto", .number 3] ∧
    Reduced [.operator .neg, .operator .neg, .word "auto", .number 3] := by
  have h : evaluate [.operator .neg, .operator .neg, .word "auto", .operator .leftParen, .number 3,
        .operator .rightParen] =
      .ok [.operator .neg, .operator .neg, .word "auto", .number 3] := by
    cbv
  obtain ⟨hagain, hreduced⟩ := evaluate_reduces h
  exact ⟨h, hagain, hreduced rfl⟩

end Value

end Scss
