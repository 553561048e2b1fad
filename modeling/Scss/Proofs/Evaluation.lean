import Scss.Arithmetic.Evaluate

/-!
# What an evaluation leaves

An evaluation reads runs of numbers and operators and puts their results in place.  All other
terms stay, and of the operators only a minus sign in front of something that is no number.

The steps between runs have one equation each (`Value.evaluateRuns_nil`,
`Value.evaluateRuns_of_startsOperand`, `Value.evaluateRuns_of_outside`).

## Main results

* `Value.mem_or_isNumeric_of_evaluate`: a term of the result was there before or is a number
* `Value.eq_neg_of_evaluate`: without references, no operator is left but a minus sign
-/

namespace Scss

theorem Quantity.isNumeric_toTerm (q : Quantity) : q.toTerm.isNumeric = true := by
  unfold toTerm Term.measure
  split <;> rfl

/-- Whether the term is an operator that joins two operands. -/
def Term.joins : Term → Bool
  | .operator o => o.isArithmetic
  | _ => false

namespace Run

variable {t : Term} {rest : Value} {r : Quantity × Value}

/-! ## The result of a run -/

/-- A run of one term is a number. -/
theorem isNumeric_of_read (h : read (t :: rest) = .ok r) (hlen : r.2.length = rest.length) :
    t.isNumeric = true := by
  -- After a sign or a parenthesis another operand is needed, and the run cannot end at once.
  have hshort : ∀ outer f last, operand outer f last rest ≠ .ok r := fun outer f last hr =>
    Nat.ne_of_lt ((takes_of_run rest).1 outer f last r hr).2 hlen
  rcases operand_cons_eq_ok h with ⟨p, q, ht, _⟩ | ⟨o, _, _, h⟩ | ⟨_, h⟩
  · exact Term.isNumeric_of_quantity? ht
  · exact absurd h (hshort _ _ _)
  · exact absurd h (hshort _ _ _)

/-- A run of one term keeps the term as it is written, a longer one gives a quantity; both are
numbers. -/
theorem isNumeric_result (h : read (t :: rest) = .ok r) :
    (if r.2.length = rest.length then t else r.1.toTerm).isNumeric = true := by
  split
  · exact isNumeric_of_read h ‹_›
  · exact r.1.isNumeric_toTerm

end Run

namespace Value

variable {v w rest : Value} {t : Term}

/-! ## One step of an evaluation -/

theorem evaluateRuns_nil : evaluateRuns [] = .ok [] := by
  rw [evaluateRuns]

/-- Where an operand starts, the result of its run takes its place; a run of one term stays as it is
written. -/
theorem evaluateRuns_of_startsOperand (h : startsOperand (t :: rest) = true) :
    evaluateRuns (t :: rest) = Run.read (t :: rest) >>= fun r =>
      (evaluateRuns r.2).map ((if r.2.length = rest.length then t else r.1.toTerm) :: ·) := by
  rw [evaluateRuns, if_pos h]
  split
  · rename_i fault hread
    rw [hread]
    rfl
  · rename_i q after hread
    simp only [hread]
    rfl

/-- Where no operand starts, a term with which nothing is wrong is passed over. -/
theorem evaluateRuns_of_outside (h : startsOperand (t :: rest) = false) :
    evaluateRuns (t :: rest) =
      match outsideFault t rest with
      | some fault => .error fault
      | none => (evaluateRuns rest).map (t :: ·) := by
  rw [evaluateRuns]
  exact if_neg (by simp [h])

/-- Outside of runs a minus sign is passed over, and so is any other term but an operator, unless it
stands in the place of a left operand. -/
theorem outsideFault_eq_none_iff :
    outsideFault t rest = none ↔
      t = .operator .neg ∨ t.isAnyOperator = false ∧ rest.head?.any Term.joins = false := by
  cases t with
  | operator o => cases o <;> simp [outsideFault, Term.isAnyOperator]
  | _ =>
    rcases rest with _ | ⟨u, rest⟩
    · simp [outsideFault, Term.isAnyOperator]
    · cases u <;> simp [outsideFault, Term.joins, Term.isAnyOperator]

/-! ## What an evaluation gives -/

/-- A term that starts no operand and is passed over is no operator but a minus sign. -/
theorem eq_neg_of_outsideFault {o : Operator} {rest : Value}
    (h : outsideFault (.operator o) rest = none) : o = .neg := by
  rcases outsideFault_eq_none_iff.1 h with h | ⟨h, -⟩
  · exact Term.operator.inj h
  · cases h

/-- An evaluation gives terms that were there before, or numbers, and leaves no operator but a
minus sign. -/
theorem evaluateRuns_spec :
    ∀ w, evaluateRuns v = .ok w →
      ∀ t ∈ w, (t ∈ v ∨ t.isNumeric = true) ∧ ∀ o, t = .operator o → o = .neg := by
  fun_induction evaluateRuns v with
  | case1 =>
    rintro w ⟨⟩
    simp
  | case2 =>
    rintro w ⟨⟩
  | case3 t rest _ q after hread _ result ih =>
    intro w h
    obtain ⟨others, hothers, rfl⟩ := map_eq_ok_iff.1 h
    have htakes : Run.Takes (t :: rest) after := Run.takes_of_read hread
    have hresult : result.isNumeric = true := Run.isNumeric_result hread
    intro u hu
    rcases List.mem_cons.1 hu with rfl | hu
    · refine ⟨.inr hresult, ?_⟩
      rintro o ho
      rw [ho] at hresult
      cases hresult
    · obtain ⟨hmem, hneg⟩ := ih others hothers u hu
      exact ⟨hmem.imp_left htakes.mem, hneg⟩
  | case4 =>
    rintro w ⟨⟩
  | case5 t rest _ hfault ih =>
    intro w h
    obtain ⟨others, hothers, rfl⟩ := map_eq_ok_iff.1 h
    intro u hu
    rcases List.mem_cons.1 hu with rfl | hu
    · -- Outside of runs no other operator is passed over.
      refine ⟨.inl List.mem_cons_self, ?_⟩
      rintro o rfl
      exact eq_neg_of_outsideFault hfault
    · obtain ⟨hmem, hneg⟩ := ih others hothers u hu
      exact ⟨hmem.imp_left (List.mem_cons_of_mem _), hneg⟩

theorem evaluate_of_variable (h : v.any Term.isVariable = true) : v.evaluate = .ok v :=
  if_pos h

theorem evaluate_of_no_variable (h : v.any Term.isVariable = false) :
    v.evaluate = v.evaluateRuns :=
  if_neg (by simp [h])

/-- A term of the result was there before, or is a number. -/
theorem mem_or_isNumeric_of_evaluate (h : v.evaluate = .ok w) :
    ∀ t ∈ w, t ∈ v ∨ t.isNumeric = true := by
  cases hv : v.any Term.isVariable with
  | true =>
    rw [evaluate_of_variable hv] at h
    cases h
    exact fun t ht => .inl ht
  | false =>
    rw [evaluate_of_no_variable hv] at h
    exact fun t ht => (evaluateRuns_spec w h t ht).1

/-- Without references, no operator is left but a minus sign. -/
theorem eq_neg_of_evaluate (hv : v.any Term.isVariable = false) (h : v.evaluate = .ok w)
    {o : Operator} (ho : .operator o ∈ w) : o = .neg := by
  rw [evaluate_of_no_variable hv] at h
  exact (evaluateRuns_spec w h _ ho).2 o rfl

end Value

end Scss
