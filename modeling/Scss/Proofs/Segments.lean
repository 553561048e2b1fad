import Mathlib.Data.List.Forall2
import Scss.Proofs.Arguments
import Scss.Proofs.Evaluation

/-!
# The parts of a value between commas

A run ends before a term that is neither a number nor an operator, whatever comes after it.  So a
value is evaluated in parts, which do not see each other: it can be evaluated if its parts can, and
the results stand side by side.

A comma is more than an end.  Like any term outside of runs it is refused as the left operand of an
operator that joins, and a minus sign that starts the next part counts as one, although the part
alone has a value.  Apart from that, the parts between commas are evaluated on their own.

## Main results

* `Run.toOption_append`: a run does not see what comes after its end
* `Value.toOption_evaluateRuns_append`: the parts of a value are evaluated on their own
* `Value.evaluate_comma_iff`: the parts around a comma, and the minus sign that comes between
* `Value.evaluate_between_commas`: the same with the results, and for the arguments of a call
* `Value.minus_after_comma`: two parts that can be evaluated, but not with a comma between them
-/

namespace Scss

theorem toOption_bind {ε α β : Type} (x : Except ε α) (f : α → Except ε β) :
    (x >>= f).toOption = x.toOption.bind fun a => (f a).toOption := by
  cases x <;> rfl

theorem toOption_map {ε α β : Type} (x : Except ε α) (f : α → β) :
    (x.map f).toOption = x.toOption.map f := by
  cases x <;> rfl

/-- Whether the term is neither a number nor an operator, so that no run takes it. -/
def Term.endsRun (t : Term) : Bool :=
  !t.isNumeric && !t.isAnyOperator

section Ends

variable {s : Term} {rest : Value}

/-! ## Runs -/

namespace Run

theorem toOption_operand_of_endsRun (hs : s.endsRun = true) (outer : List Frame) (f : Frame)
    (last : Option Operator) : (operand outer f last (s :: rest)).toOption = none := by
  cases s with
  | number | dimension | operator => cases hs
  | _ => rfl

theorem operator_of_endsRun (hs : s.endsRun = true) (outer : List Frame)
    (sum : Option (Quantity × Arith)) (q : Quantity) :
    operator outer sum q (s :: rest) = finish outer sum q (s :: rest) := by
  cases s with
  | number | dimension | operator => cases hs
  | _ => rfl

theorem toOption_finish (outer : List Frame) (sum : Option (Quantity × Arith)) (q : Quantity)
    (ts ts' : Value) :
    (finish outer sum q (ts ++ ts')).toOption =
      (finish outer sum q ts).toOption.map (Prod.map id (· ++ ts')) := by
  unfold finish
  cases Frame.complete sum q with
  | error fault => rfl
  | ok p => cases outer <;> rfl

/-- A run that cannot end before the term `s` cannot end there in the longer value, and one that
can does not see what comes after. -/
theorem toOption_append (hs : s.endsRun = true) (ts : Value) :
    (∀ outer f last, (operand outer f last (ts ++ s :: rest)).toOption =
      (operand outer f last ts).toOption.map (Prod.map id (· ++ s :: rest))) ∧
    (∀ outer sum q, (operator outer sum q (ts ++ s :: rest)).toOption =
      (operator outer sum q ts).toOption.map (Prod.map id (· ++ s :: rest))) := by
  induction ts with
  | nil =>
    constructor
    · intro outer f last
      exact toOption_operand_of_endsRun hs outer f last
    · intro outer sum q
      rw [List.nil_append, operator_of_endsRun hs]
      exact toOption_finish outer sum q [] (s :: rest)
  | cons t ts ih =>
    obtain ⟨ih₁, ih₂⟩ := ih
    constructor
    · intro outer f last
      cases t with
      | number x =>
        simp only [List.cons_append, operand, toOption_bind, ih₂, Option.map_bind,
          Function.comp_def]
      | dimension x unit =>
        simp only [List.cons_append, operand, toOption_bind, ih₂, Option.map_bind,
          Function.comp_def]
      | operator o =>
        cases o with
        | sub | neg | leftParen => exact ih₁ _ _ _
        | _ => rfl
      | _ => rfl
    · intro outer sum q
      have hend := toOption_finish outer sum q (t :: ts) (s :: rest)
      cases t with
      | operator o =>
        cases o with
        | mul | div => exact ih₁ _ _ _
        | add | sub =>
          simp only [List.cons_append, operator, toOption_bind, ih₁, Option.map_bind,
            Function.comp_def]
        | rightParen =>
          cases outer with
          | nil => exact hend
          | cons f outer =>
            simp only [List.cons_append, operator, toOption_bind, ih₂, Option.map_bind,
              Function.comp_def]
        | neg | leftParen => exact hend
      | _ => exact hend

theorem toOption_read_append (hs : s.endsRun = true) (ts : Value) :
    (read (ts ++ s :: rest)).toOption = (read ts).toOption.map (Prod.map id (· ++ s :: rest)) :=
  (toOption_append hs ts).1 [] .start none

end Run

/-! ## Values -/

namespace Value

theorem startsOperand_append (hs : s.endsRun = true) (v : Value) :
    startsOperand (v ++ s :: rest) = startsOperand v := by
  induction v with
  | nil =>
    cases s with
    | number | dimension | operator => cases hs
    | _ => rfl
  | cons t ts ih =>
    cases t with
    | operator o =>
      cases o with
      | sub | neg => exact ih
      | _ => rfl
    | _ => rfl

theorem joins_head_append (hs : s.endsRun = true) (v : Value) :
    (v ++ s :: rest).head?.any Term.joins = v.head?.any Term.joins := by
  cases v with
  | nil =>
    cases s with
    | number | dimension | operator => cases hs
    | _ => rfl
  | cons => rfl

theorem toOption_evaluateRuns_of_startsOperand {t : Term} (h : startsOperand (t :: rest) = true) :
    (evaluateRuns (t :: rest)).toOption = (Run.read (t :: rest)).toOption.bind fun r =>
      (evaluateRuns r.2).toOption.map
        ((if r.2.length = rest.length then t else r.1.toTerm) :: ·) := by
  simp only [evaluateRuns_of_startsOperand h, toOption_bind, toOption_map]

theorem toOption_evaluateRuns_of_outside {t : Term} (h : startsOperand (t :: rest) = false) :
    (evaluateRuns (t :: rest)).toOption =
      if outsideFault t rest = none then (evaluateRuns rest).toOption.map (t :: ·) else none := by
  rw [evaluateRuns_of_outside h]
  cases outsideFault t rest with
  | none => exact toOption_map _ _
  | some fault => rfl

/-- A run at the start takes the same terms and leaves the second part in place. -/
theorem toOption_evaluateRuns_run_append (hs : s.endsRun = true) {t : Term} {ts : Value}
    (h : startsOperand (t :: ts) = true) :
    (evaluateRuns (t :: ts ++ s :: rest)).toOption =
      (Run.read (t :: ts)).toOption.bind fun r =>
        (evaluateRuns (r.2 ++ s :: rest)).toOption.map
          ((if r.2.length = ts.length then t else r.1.toTerm) :: ·) := by
  have hstart : startsOperand (t :: (ts ++ s :: rest)) = true :=
    (startsOperand_append hs (t :: ts)).trans h
  rw [List.cons_append, toOption_evaluateRuns_of_startsOperand hstart, ← List.cons_append,
    Run.toOption_read_append hs, Option.bind_map]
  simp only [Function.comp_def, Prod.map_fst, Prod.map_snd, List.length_append,
    Nat.add_right_cancel_iff, id_eq]

/-- A term outside of runs is passed over in both values or in none. -/
theorem toOption_evaluateRuns_outside_append (hs : s.endsRun = true) {t : Term} {ts : Value}
    (h : startsOperand (t :: ts) = false) :
    (evaluateRuns (t :: ts ++ s :: rest)).toOption =
      if outsideFault t ts = none then (evaluateRuns (ts ++ s :: rest)).toOption.map (t :: ·)
      else none := by
  have hstart : startsOperand (t :: (ts ++ s :: rest)) = false :=
    (startsOperand_append hs (t :: ts)).trans h
  have hfault : outsideFault t (ts ++ s :: rest) = none ↔ outsideFault t ts = none := by
    rw [outsideFault_eq_none_iff, outsideFault_eq_none_iff, joins_head_append hs]
  rw [List.cons_append, toOption_evaluateRuns_of_outside hstart]
  simp only [hfault]

/-- A value is evaluated in parts: up to a term that ends every run, and from there on. -/
theorem toOption_evaluateRuns_append (hs : s.endsRun = true) (v : Value) :
    (evaluateRuns (v ++ s :: rest)).toOption =
      (evaluateRuns v).toOption.bind fun w =>
        (evaluateRuns (s :: rest)).toOption.map (w ++ ·) := by
  fun_induction evaluateRuns v with
  | case1 => exact Option.map_id'.symm
  | case2 t ts hstart fault hread =>
    rw [toOption_evaluateRuns_run_append hs hstart, hread]
    rfl
  | case3 t ts hstart q after hread _ result ih =>
    rw [toOption_evaluateRuns_run_append hs hstart, hread]
    show Option.map (result :: ·) (evaluateRuns (after ++ s :: rest)).toOption = _
    rw [ih, toOption_map, Option.map_bind, Option.bind_map]
    simp [Function.comp_def]
  | case4 t ts hstart fault hfault =>
    rw [toOption_evaluateRuns_outside_append hs (by simpa using hstart), hfault]
    rfl
  | case5 t ts hstart hfault ih =>
    rw [toOption_evaluateRuns_outside_append hs (by simpa using hstart), if_pos hfault, ih,
      toOption_map, Option.map_bind, Option.bind_map]
    simp [Function.comp_def]

end Value

end Ends

/-! ## Commas -/

namespace Value

variable {v w u : Value}

theorem evaluateRuns_eq_ok_iff : evaluateRuns v = .ok w ↔ (evaluateRuns v).toOption = some w := by
  cases evaluateRuns v <;> simp [Except.toOption]

theorem toOption_evaluateRuns_comma (v : Value) :
    (evaluateRuns (.separator .comma :: v)).toOption =
      if v.head?.any Term.joins = false then (evaluateRuns v).toOption.map (.separator .comma :: ·)
      else none := by
  have hfault : outsideFault (.separator .comma) v = none ↔ v.head?.any Term.joins = false := by
    simp [outsideFault_eq_none_iff, Term.isAnyOperator]
  rw [toOption_evaluateRuns_of_outside rfl]
  simp only [hfault]

/-- Of the operators that join, only the one of a difference can start a value. -/
theorem joins_head_iff (h : evaluateRuns v = .ok w) :
    v.head?.any Term.joins = true ↔ v.head? = some (.operator .sub) := by
  constructor
  · intro hjoins
    rcases v with _ | ⟨t, rest⟩
    · cases hjoins
    · cases t with
      | operator o =>
        cases o with
        | sub => rfl
        | add | mul | div =>
          rw [evaluateRuns_of_outside rfl] at h
          cases h
        | _ => cases hjoins
      | _ => cases hjoins
  · intro hsub
    rw [hsub]
    rfl

/-- The parts before and after a comma are evaluated on their own, unless a minus sign follows the
comma. -/
theorem evaluateRuns_comma_iff :
    evaluateRuns (v ++ .separator .comma :: w) = .ok u ↔
      w.head? ≠ some (.operator .sub) ∧ ∃ v' w', evaluateRuns v = .ok v' ∧
        evaluateRuns w = .ok w' ∧ u = v' ++ .separator .comma :: w' := by
  rw [evaluateRuns_eq_ok_iff, toOption_evaluateRuns_append rfl, toOption_evaluateRuns_comma,
    Option.bind_eq_some_iff]
  constructor
  · rintro ⟨v', hv, h⟩
    split at h
    · rename_i hjoins
      simp only [Option.map_eq_some_iff] at h
      obtain ⟨_, ⟨w', hw, rfl⟩, rfl⟩ := h
      have hw' := evaluateRuns_eq_ok_iff.2 hw
      refine ⟨?_, v', w', evaluateRuns_eq_ok_iff.2 hv, hw', rfl⟩
      rw [Ne, ← joins_head_iff hw', hjoins]
      exact Bool.false_ne_true
    · cases h
  · rintro ⟨hsub, v', w', hv, hw, rfl⟩
    have hjoins : w.head?.any Term.joins = false := by
      rwa [Ne, ← joins_head_iff hw, Bool.not_eq_true] at hsub
    refine ⟨v', evaluateRuns_eq_ok_iff.1 hv, ?_⟩
    rw [if_pos hjoins, evaluateRuns_eq_ok_iff.1 hw]
    rfl

theorem evaluate_comma_iff (hv : v.any Term.isVariable = false)
    (hw : w.any Term.isVariable = false) :
    evaluate (v ++ .separator .comma :: w) = .ok u ↔
      w.head? ≠ some (.operator .sub) ∧ ∃ v' w', v.evaluate = .ok v' ∧ w.evaluate = .ok w' ∧
        u = v' ++ .separator .comma :: w' := by
  have hvw : (v ++ .separator .comma :: w).any Term.isVariable = false := by
    rw [List.any_append, List.any_cons, hv, hw]
    rfl
  rw [evaluate_of_no_variable hv, evaluate_of_no_variable hw, evaluate_of_no_variable hvw]
  exact evaluateRuns_comma_iff

/-! ## Arguments -/

theorem comma_notMem_of_evaluate (hv : .separator .comma ∉ v) (h : v.evaluate = .ok w) :
    .separator .comma ∉ w := by
  intro hmem
  rcases mem_or_isNumeric_of_evaluate h _ hmem with hmem | hnumeric
  · exact hv hmem
  · cases hnumeric

theorem forall₂_commaParts_of_evaluate (hv : v.any Term.isVariable = false)
    (h : v.evaluate = .ok u) :
    List.Forall₂ (fun part part' => evaluate part = .ok part') v.commaParts u.commaParts := by
  induction v using comma_induction generalizing u with
  | last part hpart =>
    rw [commaParts_of_no_comma hpart, commaParts_of_no_comma (comma_notMem_of_evaluate hpart h)]
    exact .cons h .nil
  | append part rest hpart ih =>
    rw [List.any_append, List.any_cons, Bool.or_eq_false_iff, Bool.or_eq_false_iff] at hv
    obtain ⟨-, part', rest', hpart', hrest', rfl⟩ := (evaluate_comma_iff hv.1 hv.2.2).1 h
    rw [commaParts_append hpart, commaParts_append (comma_notMem_of_evaluate hpart hpart')]
    exact .cons hpart' (ih hv.2.2 hrest')

theorem isEmpty_of_evaluate (hv : v.any Term.isVariable = false) (h : v.evaluate = .ok u) :
    u.isEmpty = v.isEmpty := by
  rw [evaluate_of_no_variable hv] at h
  rcases v with _ | ⟨t, rest⟩
  · rw [evaluateRuns_nil] at h
    cases h
    rfl
  · cases hstart : startsOperand (t :: rest) with
    | true =>
      rw [evaluateRuns_of_startsOperand hstart] at h
      obtain ⟨r, -, h⟩ := bind_eq_ok_iff.1 h
      obtain ⟨others, -, rfl⟩ := map_eq_ok_iff.1 h
      rfl
    | false =>
      rw [evaluateRuns_of_outside hstart] at h
      split at h
      · cases h
      · obtain ⟨others, -, rfl⟩ := map_eq_ok_iff.1 h
        rfl

/-- The arguments of an evaluated value are its arguments evaluated. -/
theorem forall₂_arguments_of_evaluate (hv : v.any Term.isVariable = false)
    (h : v.evaluate = .ok u) :
    List.Forall₂ (fun argument argument' => evaluate argument = .ok argument') v.arguments
      u.arguments := by
  unfold arguments
  rw [isEmpty_of_evaluate hv h]
  split
  · exact .nil
  · exact forall₂_commaParts_of_evaluate hv h

/-- **The parts around a comma are evaluated on their own, unless a minus sign follows the comma.**
Without references, the whole can be evaluated if and only if both parts can and the second one does
not start with the sign of a difference, and then the results stand around the comma.  In
particular each argument of the whole is evaluated as it is on its own. -/
theorem evaluate_between_commas (hv : v.any Term.isVariable = false)
    (hw : w.any Term.isVariable = false) :
    (∀ u, evaluate (v ++ .separator .comma :: w) = .ok u ↔
      w.head? ≠ some (.operator .sub) ∧ ∃ v' w', v.evaluate = .ok v' ∧ w.evaluate = .ok w' ∧
        u = v' ++ .separator .comma :: w') ∧
    ∀ u, evaluate (v ++ .separator .comma :: w) = .ok u →
      List.Forall₂ (fun argument argument' => evaluate argument = .ok argument')
        (arguments (v ++ .separator .comma :: w)) u.arguments := by
  refine ⟨fun u => evaluate_comma_iff hv hw, fun u h => ?_⟩
  refine forall₂_arguments_of_evaluate ?_ h
  rw [List.any_append, List.any_cons, hv, hw]
  rfl

theorem evaluate_sign_number {o : Operator} (ho : o = .sub ∨ o = .neg) (x : Float) :
    evaluate [.operator o, .number x] = .ok [.number (-x)] := by
  have hrun : evaluateRuns [.operator o, .number x] =
      (evaluateRuns []).map (.number (-x) :: ·) := by
    rcases ho with rfl | rfl
    · exact evaluateRuns_of_startsOperand rfl
    · exact evaluateRuns_of_startsOperand rfl
  rw [evaluate_of_no_variable rfl, hrun, evaluateRuns_nil]
  rfl

/-- A number with a minus sign of either kind on both sides of a comma. -/
theorem evaluate_between_commas_signs :
    evaluate [.operator .sub, .number 2, .separator .comma, .operator .neg, .number 3] =
      .ok [.number (-2), .separator .comma, .number (-3)] := by
  have hparts := evaluate_between_commas (v := [.operator .sub, .number 2])
    (w := [.operator .neg, .number 3]) rfl rfl
  exact (hparts.1 _).2 ⟨nofun, _, _, evaluate_sign_number (.inl rfl) 2,
    evaluate_sign_number (.inr rfl) 3, rfl⟩

/-- The sign of a difference after a comma takes the comma for its left operand: the whole cannot be
evaluated, although both parts can. -/
theorem minus_after_comma :
    evaluate [.number 1] = .ok [.number 1] ∧
    evaluate [.operator .sub, .number 2] = .ok [.number (-2)] ∧
    evaluate ([.number 1] ++ .separator .comma :: [.operator .sub, .number 2]) =
      .error ⟨some .sub, .notANumber (.separator .comma)⟩ := by
  refine ⟨?_, evaluate_sign_number (.inl rfl) 2, ?_⟩
  · cbv
  · cbv

end Value

end Scss
