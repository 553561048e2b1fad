import Scss.Compile.Journal
import Scss.Result

/-!
# Laws of outcomes

An outcome is a journal and a result.  Steps compose: the result of two steps is known from the
results of each, and the journal of the first comes first.

## Main definitions

* `Outcome.SameOrFailed`: the same outcome twice, or two failures

## Main results

* `Outcome.result_bind_eq_ok_iff`, `Outcome.result_bind_eq_error_iff`: when two steps in a row
  succeed, and when they fail
* `Outcome.bind_congr_of_result`: only the results of the first step matter to the second
* `Outcome.diagnostics_bind_of_ok`, `Outcome.diagnostics_bind_of_error`: what two steps report
-/

namespace Scss

namespace Outcome

variable {α β : Type} {x : Outcome α} {f g : α → Outcome β}

protected theorem ext {x y : Outcome α} (hj : x.journal = y.journal) (hr : x.result = y.result) :
    x = y := by
  cases x
  cases y
  cases hj
  cases hr
  rfl

instance : LawfulMonad Outcome :=
  LawfulMonad.mk' Outcome
    (fun x => by
      obtain ⟨journal, result⟩ := x
      cases result with
      | ok a => exact Outcome.ext (List.append_nil journal) rfl
      | error d => rfl)
    (fun _ _ => rfl)
    (fun x f g => by
      cases hx : x.result with
      | error d => rw [bind_of_error hx, bind_of_error hx, bind_of_error rfl]
      | ok a =>
        rw [bind_of_ok hx, bind_of_ok hx]
        cases hf : (f a).result with
        | error d => rw [bind_of_error rfl, bind_of_error hf]
        | ok b => rw [bind_of_ok rfl, bind_of_ok hf, List.append_assoc])

theorem map_eq {γ : Type} (f : α → γ) (x : Outcome α) :
    f <$> x = ⟨x.journal, x.result.map f⟩ := by
  rw [map_eq_pure_bind]
  cases hx : x.result with
  | ok a => rw [bind_of_ok hx, journal_pure, List.append_nil]; rfl
  | error d => rw [bind_of_error hx]; rfl

/-! ## Results -/

theorem result_bind_eq_ok_iff {b : β} :
    (x >>= f).result = .ok b ↔ ∃ a, x.result = .ok a ∧ (f a).result = .ok b := by
  cases hx : x.result with
  | ok a => simp [bind_of_ok hx]
  | error d => simp [bind_of_error hx]

theorem result_bind_eq_error_iff {d : Diagnostic} :
    (x >>= f).result = .error d ↔
      x.result = .error d ∨ ∃ a, x.result = .ok a ∧ (f a).result = .error d := by
  cases hx : x.result with
  | ok a => simp [bind_of_ok hx]
  | error e => simp [bind_of_error hx]

/-- The second step matters only for the results of the first. -/
theorem bind_congr_of_result (h : ∀ a, x.result = .ok a → f a = g a) : x >>= f = x >>= g := by
  cases hx : x.result with
  | ok a => rw [bind_of_ok hx, bind_of_ok hx, h a hx]
  | error d => rw [bind_of_error hx, bind_of_error hx]

@[simp]
theorem result_ofExcept (r : Except Diagnostic α) : (ofExcept r).result = r :=
  rfl

@[simp]
theorem result_fail (d : Diagnostic) : (fail d : Outcome α).result = .error d :=
  rfl

@[simp]
theorem result_trace (message : String) : (trace message).result = .ok ⟨⟩ :=
  rfl

@[simp]
theorem result_debug (message : String) : (debug message).result = .ok ⟨⟩ :=
  rfl

@[simp]
theorem result_report (d : Diagnostic) : (report d).result = .ok ⟨⟩ :=
  rfl

@[simp]
theorem result_reportAll (ds : List Diagnostic) : (reportAll ds).result = .ok ⟨⟩ :=
  rfl

/-! ## Diagnostics -/

@[simp]
theorem diagnostics_pure (a : α) : (pure a : Outcome α).diagnostics = [] :=
  rfl

@[simp]
theorem diagnostics_ofExcept (r : Except Diagnostic α) : (ofExcept r).diagnostics = [] :=
  rfl

@[simp]
theorem diagnostics_trace (message : String) : (trace message).diagnostics = [] :=
  rfl

@[simp]
theorem diagnostics_debug (message : String) : (debug message).diagnostics = [] :=
  rfl

@[simp]
theorem diagnostics_report (d : Diagnostic) : (report d).diagnostics = [d] :=
  rfl

@[simp]
theorem diagnostics_reportAll (ds : List Diagnostic) : (reportAll ds).diagnostics = ds := by
  simp [diagnostics, reportAll, List.filterMap_map, Function.comp_def, Entry.diagnostic?]

theorem diagnostics_bind_of_ok {a : α} (h : x.result = .ok a) :
    (x >>= f).diagnostics = x.diagnostics ++ (f a).diagnostics := by
  rw [bind_of_ok h]
  exact List.filterMap_append

theorem diagnostics_bind_of_error {d : Diagnostic} (h : x.result = .error d) :
    (x >>= f).diagnostics = x.diagnostics := by
  rw [bind_of_error h]
  rfl

/-! ## Two outcomes -/

/-- The two outcomes are the same, or both are failures. -/
def SameOrFailed (x y : Outcome α) : Prop :=
  x = y ∨ (∃ d, x.result = .error d) ∧ ∃ e, y.result = .error e

theorem SameOrFailed.after {y z : Outcome β} (h : SameOrFailed y z) (x : Outcome α) :
    SameOrFailed (x >>= fun _ => y) (x >>= fun _ => z) := by
  rcases h with rfl | ⟨⟨d, hy⟩, e, hz⟩
  · exact .inl rfl
  · cases hx : x.result with
    | error d =>
      rw [bind_of_error hx, bind_of_error hx]
      exact .inl rfl
    | ok a =>
      rw [bind_of_ok hx, bind_of_ok hx]
      exact .inr ⟨⟨d, hy⟩, e, hz⟩

/-- Steps whose results look alike through `k` can be followed by one that sees no more of them. -/
theorem SameOrFailed.bind_of_map_eq {γ : Type} {y : Outcome α} {k : α → γ}
    (h : k <$> x = k <$> y) (hf : ∀ a b, k a = k b → SameOrFailed (f a) (f b)) :
    SameOrFailed (x >>= f) (y >>= f) := by
  rw [map_eq, map_eq, Outcome.mk.injEq] at h
  obtain ⟨hjournal, hresult⟩ := h
  cases hx : x.result with
  | error d =>
    cases hy : y.result with
    | error e =>
      rw [hx, hy] at hresult
      rw [bind_of_error hx, bind_of_error hy, hjournal, Except.error.inj hresult]
      exact .inl rfl
    | ok b => rw [hx, hy] at hresult; cases hresult
  | ok a =>
    cases hy : y.result with
    | error e => rw [hx, hy] at hresult; cases hresult
    | ok b =>
      rw [hx, hy] at hresult
      rw [bind_of_ok hx, bind_of_ok hy]
      rcases hf a b (Except.ok.inj hresult) with heq | ⟨⟨d, ha⟩, e, hb⟩
      · rw [heq, hjournal]
        exact .inl rfl
      · exact .inr ⟨⟨d, ha⟩, e, hb⟩

end Outcome

end Scss
