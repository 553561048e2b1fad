import Mathlib
import Scss.Proofs.RoundTrip
import Scss.Proofs.Segments

/-!
# What an evaluation keeps

A run takes numbers and operators and nothing else, so the terms of any other kind come through an
evaluation as they are, in their order.  The parentheses of a run belong together: a run that opens
one closes it, and one that finds a parenthesis it did not open ends there.  Outside of runs no
parenthesis is passed over.  So a value that can be evaluated nests its parentheses properly.

The two states of a run know how many parentheses are open, one for each frame around the innermost
one.  What is left to be nested from there on is what has to be nested after the run
(`Run.nests_of_run`).

## Main results

* `Run.nests_of_read`: the parentheses of a run belong together
* `Value.filter_of_evaluateRuns`: the terms that belong to no run are kept
* `Value.nests_of_evaluateRuns`: what can be evaluated nests its parentheses properly
* `Value.evaluate_conserves`: both, and what is not nested properly is refused
-/

namespace Scss

variable {t : Term} {ts rest v w : Value}

/-! ## Terms that open and close nothing -/

theorem Value.nests_cons_of_ne (hleft : t.isOperator .leftParen = false)
    (hright : t.isOperator .rightParen = false) (depth : Nat) :
    nests depth (t :: rest) = nests depth rest := by
  cases t with
  | operator o =>
    cases o with
    | leftParen => cases hleft
    | rightParen => cases hright
    | _ => rw [nests] <;> simp
  | _ => rw [nests] <;> simp

theorem Value.nests_numeric (ht : t.isNumeric = true) (depth : Nat) :
    nests depth (t :: rest) = nests depth rest := by
  cases t with
  | number | dimension => exact nests_cons_of_ne rfl rfl depth
  | _ => cases ht

theorem Value.nests_arith (op : Arith) (depth : Nat) :
    nests depth (.operator op.toOperator :: rest) = nests depth rest := by
  apply nests_cons_of_ne
  · cases op <;> rfl
  · cases op <;> rfl

theorem Term.endsRun_of_isNumeric (ht : t.isNumeric = true) : t.endsRun = false := by
  rw [Term.endsRun, ht]
  rfl

/-! ## Runs -/

namespace Run

/-- A run takes no term that belongs to no run. -/
theorem Takes.filter_endsRun (h : Takes ts rest) :
    rest.filter Term.endsRun = ts.filter Term.endsRun := by
  obtain ⟨block, rfl, hblock⟩ := h
  have hnone : block.filter Term.endsRun = [] := by
    rw [List.filter_eq_nil_iff]
    intro t ht
    rcases hblock t ht with hnumeric | hoperator
    · simp [Term.endsRun, hnumeric]
    · simp [Term.endsRun, hoperator]
  rw [List.filter_append, hnone, List.nil_append]

/-- While a run goes on, one parenthesis is open for each frame around the innermost one; when it
has ended, none of its own is. -/
theorem nests_of_run (ts : Value) :
    (∀ outer f last r, operand outer f last ts = .ok r → ts.nests outer.length = r.2.nests 0) ∧
      (∀ outer sum q r, operator outer sum q ts = .ok r →
        ts.nests outer.length = r.2.nests 0) := by
  induction ts with
  | nil =>
    constructor
    · intro outer f last r h
      simp [operand] at h
    · intro outer sum q r h
      obtain ⟨rfl, p, -, rfl⟩ := finish_eq_ok h
      rfl
  | cons t rest ih =>
    obtain ⟨ih₁, ih₂⟩ := ih
    constructor
    · intro outer f last r h
      rcases operand_cons_eq_ok h with ⟨p, q, ht, -, hr⟩ | ⟨o, ho, rfl, hr⟩ | ⟨rfl, hr⟩
      · rw [Value.nests_numeric (Term.isNumeric_of_quantity? ht)]
        exact ih₂ _ _ _ _ hr
      · have hsign : Value.nests outer.length (.operator o :: rest) =
            Value.nests outer.length rest := by
          rcases ho with rfl | rfl
          · exact Value.nests_cons_of_ne rfl rfl _
          · exact Value.nests_cons_of_ne rfl rfl _
        rw [hsign]
        exact ih₁ _ _ _ _ hr
      · -- The frame that was innermost is now around another one.
        exact ih₁ (f :: outer) _ _ _ hr
    · intro outer sum q r h
      rcases operator_eq_ok h with ⟨op, _, -, heq, hr⟩ | ⟨op, _, p, -, heq, -, hr⟩ |
        ⟨f, outer', _, p, p', rfl, heq, -, -, hr⟩ | ⟨rfl, -, p, -, rfl⟩
      · cases heq
        rw [Value.nests_arith]
        exact ih₁ _ _ _ _ hr
      · cases heq
        rw [Value.nests_arith]
        exact ih₁ _ _ _ _ hr
      · -- The frame around the one that is closed goes on.
        cases heq
        exact ih₂ outer' _ _ _ hr
      · rfl

/-- The parentheses of a run belong together: what is nested properly after it is so with it. -/
theorem nests_of_read {r : Quantity × Value} (h : read ts = .ok r) : ts.nests 0 = r.2.nests 0 :=
  (nests_of_run ts).1 [] .start none r h

end Run

/-! ## Values -/

namespace Value

/-- The terms that belong to no run are kept, in their order, and none is added. -/
theorem filter_of_evaluateRuns :
    ∀ w, evaluateRuns v = .ok w → w.filter Term.endsRun = v.filter Term.endsRun := by
  fun_induction evaluateRuns v with
  | case1 =>
    rintro w ⟨⟩
    rfl
  | case2 =>
    rintro w ⟨⟩
  | case3 t rest _ q after hread _ result ih =>
    intro w h
    obtain ⟨others, hothers, rfl⟩ := map_eq_ok_iff.1 h
    have hresult : result.endsRun = false := Term.endsRun_of_isNumeric (Run.isNumeric_result hread)
    have htakes : Run.Takes (t :: rest) after := Run.takes_of_read hread
    rw [List.filter_cons_of_neg (by simp [hresult]), ih others hothers, htakes.filter_endsRun]
  | case4 =>
    rintro w ⟨⟩
  | case5 t rest _ hfault ih =>
    intro w h
    obtain ⟨others, hothers, rfl⟩ := map_eq_ok_iff.1 h
    rw [List.filter_cons, List.filter_cons, ih others hothers]

/-- What can be evaluated nests its parentheses properly. -/
theorem nests_of_evaluateRuns : ∀ w, evaluateRuns v = .ok w → v.nests 0 = true := by
  fun_induction evaluateRuns v with
  | case1 =>
    intro w _
    rfl
  | case2 =>
    rintro w ⟨⟩
  | case3 t rest _ q after hread _ result ih =>
    intro w h
    obtain ⟨others, hothers, -⟩ := map_eq_ok_iff.1 h
    rw [Run.nests_of_read hread]
    exact ih others hothers
  | case4 =>
    rintro w ⟨⟩
  | case5 t rest _ hfault ih =>
    intro w h
    obtain ⟨others, hothers, -⟩ := map_eq_ok_iff.1 h
    -- A parenthesis is an operator, and of those only a minus sign is passed over.
    have hparen : ∀ o, o ≠ .neg → t.isOperator o = false := by
      intro o ho
      rcases outsideFault_eq_none_iff.1 hfault with rfl | ⟨ht, -⟩
      · simpa [Term.isOperator] using ho.symm
      · cases t with
        | operator => cases ht
        | _ => rfl
    rw [nests_cons_of_ne (hparen .leftParen (by simp)) (hparen .rightParen (by simp))]
    exact ih others hothers

/-- **An evaluation loses nothing, and accepts only nested parentheses.**  Without references, what
is neither a number nor an operator stands in the result as it did before, in the same order and
with nothing added; and a value whose parentheses are not nested properly is refused. -/
theorem evaluate_conserves (hv : v.any Term.isVariable = false) :
    (∀ w, v.evaluate = .ok w →
      w.filter Term.endsRun = v.filter Term.endsRun ∧ v.nests 0 = true) ∧
    (v.nests 0 = false → ∃ fault, v.evaluate = .error fault) := by
  rw [evaluate_of_no_variable hv]
  constructor
  · intro w h
    exact ⟨filter_of_evaluateRuns w h, nests_of_evaluateRuns w h⟩
  · intro hnests
    cases h : v.evaluateRuns with
    | error fault => exact ⟨fault, rfl⟩
    | ok w =>
      have hnested := nests_of_evaluateRuns w h
      rw [hnests] at hnested
      cases hnested

/-- A number in two pairs of parentheses, between a word and a string, and a value that closes one
parenthesis too many. -/
theorem evaluate_conserves_nestedNumber :
    evaluate [.word "auto", .operator .leftParen, .operator .leftParen, .dimension 3 "px",
        .operator .rightParen, .operator .rightParen, .separator .comma, .string "a"] =
      .ok [.word "auto", .dimension 3 "px", .separator .comma, .string "a"] ∧
    List.filter Term.endsRun [.word "auto", .dimension 3 "px", .separator .comma, .string "a"] =
      List.filter Term.endsRun [.word "auto", .operator .leftParen, .operator .leftParen,
        .dimension 3 "px", .operator .rightParen, .operator .rightParen, .separator .comma,
        .string "a"] ∧
    ∃ fault, evaluate [.operator .leftParen, .number 2, .operator .rightParen,
      .operator .rightParen, .word "auto"] = .error fault := by
  have h : evaluate [.word "auto", .operator .leftParen, .operator .leftParen, .dimension 3 "px",
        .operator .rightParen, .operator .rightParen, .separator .comma, .string "a"] =
      .ok [.word "auto", .dimension 3 "px", .separator .comma, .string "a"] := by
    cbv
  exact ⟨h, ((evaluate_conserves rfl).1 _ h).1, (evaluate_conserves rfl).2 rfl⟩

end Value

end Scss
