import Scss.Compile.Resolve
import Scss.Proofs.Outcomes
import Scss.Proofs.Values

/-!
# Resolution, step by step

What the steps of a resolution give when they succeed, and what they report on the way.  A
resolution reports unbound variables and unknown functions and nothing else; what stops it is a
fault of arithmetic or of arguments, at the line it was given.

## Main definitions

* `Diagnostic.StopsAt`: what may stop a resolution at a line
* `Outcome.Reports`: a step that reports nothing fatal and stops as described

## Main results

* `Scope.result_invoke_eq_ok`, `Value.result_dispatch_cons_eq_ok_iff`,
  `Value.result_resolve_eq_ok_iff`: the successful steps
* `Value.diagnostics_dispatch`: the unknown functions that calling the functions of a value reports
* `Value.reports_resolve`, `Declaration.reports_resolve`: what resolutions report
-/

namespace Scss

variable {scope : Scope} {site : Site} {table : Variables} {v w : Value} {name : String}

/-! ## Results -/

theorem Site.result_evaluate_eq_ok_iff : (site.evaluate v).result = .ok w ↔ v.evaluate = .ok w :=
  mapError_eq_ok_iff

/-- A call that succeeds stays as it is, if its function is not registered, or gives way to what
the function makes of its parameters. -/
theorem Scope.result_invoke_eq_ok (h : (scope.invoke site name v).result = .ok w) :
    (scope.registry.find? name = none ∧ w = [.call name v]) ∨
      ∃ g parameters out, scope.registry.find? name = some g ∧
        g.apply ⟨name, parameters⟩ scope.style = .ok out ∧ w = out.terms := by
  unfold invoke at h
  split at h
  · rename_i hg
    exact .inl ⟨hg, (Except.ok.inj h).symm⟩
  · rename_i g hg
    simp only [Outcome.result_bind_eq_ok_iff, Outcome.result_ofExcept, mapError_eq_ok_iff,
      Outcome.result_pure, Except.ok.injEq] at h
    obtain ⟨parameters, -, out, hout, rfl⟩ := h
    exact .inr ⟨g, parameters, out, hg, hout, rfl⟩

namespace Value

theorem dispatch_nil : Value.dispatch scope site [] = pure [] := by
  rw [Value.dispatch]

theorem dispatch_of_isCall_eq_false {t : Term} (h : t.isCall = false) :
    t.dispatch scope site = pure [t] := by
  cases t with
  | call => cases h
  | _ => rw [Term.dispatch]; simp

theorem result_dispatch_cons_eq_ok_iff {t : Term} :
    (Value.dispatch scope site (t :: v)).result = .ok w ↔
      ∃ first others, (t.dispatch scope site).result = .ok first ∧
        (Value.dispatch scope site v).result = .ok others ∧ first ++ others = w := by
  rw [Value.dispatch]
  simp [Outcome.result_bind_eq_ok_iff, -bind_pure_comp]

theorem result_dispatch_singleton_eq_ok {t : Term} (h : (t.dispatch scope site).result = .ok w) :
    (Value.dispatch scope site [t]).result = .ok w :=
  result_dispatch_cons_eq_ok_iff.2 ⟨w, [], h, by rw [dispatch_nil]; rfl, List.append_nil w⟩

theorem result_dispatch_call_eq_ok_iff {parameters : Value} :
    ((Term.call name parameters).dispatch scope site).result = .ok w ↔
      ∃ inner, (Value.dispatch scope site parameters).result = .ok inner ∧
        (scope.invoke site name inner).result = .ok w := by
  rw [Term.dispatch, Outcome.result_bind_eq_ok_iff]

theorem result_dispatchOperand_eq_ok {isOperand : Bool} {t : Term}
    (h : (dispatchOperand scope site isOperand t).result = .ok w) :
    (t.dispatch scope site).result = .ok w ∨ w = [t] := by
  unfold dispatchOperand at h
  split at h
  · exact .inl h
  · exact .inr (Except.ok.inj h).symm

theorem result_dispatchOperandsAfter_cons_eq_ok {left : Option Term} {t : Term}
    (h : (dispatchOperandsAfter scope site left (t :: v)).result = .ok w) :
    ∃ first others, ((t.dispatch scope site).result = .ok first ∨ first = [t]) ∧
      (dispatchOperandsAfter scope site (some t) v).result = .ok others ∧ first ++ others = w := by
  rw [dispatchOperandsAfter] at h
  simp only [Outcome.result_bind_eq_ok_iff, Outcome.result_pure, Except.ok.injEq] at h
  obtain ⟨first, hfirst, others, hothers, rfl⟩ := h
  exact ⟨first, others, result_dispatchOperand_eq_ok hfirst, hothers, rfl⟩

theorem result_evaluateOperands_eq_ok_iff {asked : Bool} :
    (evaluateOperands scope site asked v).result = .ok w ↔
      if asked then ∃ operands, (dispatchOperands scope site v).result = .ok operands ∧
        operands.evaluate = .ok w
      else v = w := by
  cases asked
  · simp [evaluateOperands]
  · simp [evaluateOperands, Outcome.result_bind_eq_ok_iff, Site.result_evaluate_eq_ok_iff]

/-- A resolution that succeeds: the value with its variables replaced is evaluated, if it had
arithmetic before, and then all its functions are called. -/
theorem result_resolve_eq_ok_iff :
    (v.resolve scope table site).result = .ok w ↔
      ∃ e, (evaluateOperands scope site v.classify.hasArithmetic
          (v.classify.substitute table scope.style).terms).result = .ok e ∧
        (Value.dispatch scope site e).result = .ok w := by
  simp [resolve, Outcome.result_bind_eq_ok_iff]

end Value

/-! ## Unknown functions -/

theorem Site.diagnostics_evaluateParameters (site : Site) (v : Value) :
    (site.evaluateParameters v).diagnostics = [] := by
  unfold evaluateParameters
  split <;> rfl

/-- A call that succeeds is reported if its function is not registered, and only then. -/
theorem Scope.diagnostics_invoke (h : (scope.invoke site name v).result = .ok w) :
    (scope.invoke site name v).diagnostics =
      if scope.registry.contains name then []
      else [.unknownFunction name site.context site.line] := by
  unfold invoke at h ⊢
  split at h
  · rename_i hg
    rw [Names.contains, hg]
    rfl
  · rename_i g hg
    obtain ⟨parameters, hparameters, h⟩ := Outcome.result_bind_eq_ok_iff.1 h
    obtain ⟨out, hout, -⟩ := Outcome.result_bind_eq_ok_iff.1 h
    rw [Outcome.diagnostics_bind_of_ok hparameters, Outcome.diagnostics_bind_of_ok hout,
      site.diagnostics_evaluateParameters, Names.contains, hg]
    rfl

namespace Value

theorem diagnostics_dispatch_cons {t : Term} {first others : Value}
    (hfirst : (t.dispatch scope site).result = .ok first)
    (hothers : (Value.dispatch scope site v).result = .ok others) :
    (Value.dispatch scope site (t :: v)).diagnostics =
      (t.dispatch scope site).diagnostics ++ (Value.dispatch scope site v).diagnostics := by
  rw [Value.dispatch, Outcome.diagnostics_bind_of_ok hfirst, Outcome.diagnostics_bind_of_ok hothers,
    Outcome.diagnostics_pure, List.append_nil]

/-- **Each unknown function is reported once, after those in its parameters.**  Calling the functions
of a value, if it succeeds, reports the calls whose functions are not registered, at any depth, inner
ones before outer ones and from left to right, and reports nothing else.  What a registered function
gives back is not looked at again. -/
theorem diagnostics_dispatch (h : (Value.dispatch scope site v).result = .ok w) :
    (Value.dispatch scope site v).diagnostics =
      (v.calls.filter fun name => !scope.registry.contains name).map fun name =>
        .unknownFunction name site.context site.line := by
  induction v using Value.induction generalizing w with
  | nil =>
    rw [dispatch_nil]
    rfl
  | call name ps rest ihps ihrest =>
    obtain ⟨first, others, hfirst, hothers, -⟩ := result_dispatch_cons_eq_ok_iff.1 h
    obtain ⟨inner, hinner, hinvoke⟩ := result_dispatch_call_eq_ok_iff.1 hfirst
    -- The reports of the parameters come first, then the one of the call itself, if there is one.
    rw [diagnostics_dispatch_cons hfirst hothers, ihrest hothers, Term.dispatch,
      Outcome.diagnostics_bind_of_ok hinner, ihps hinner, scope.diagnostics_invoke hinvoke, calls,
      Term.calls, List.filter_append, List.filter_append, List.map_append, List.map_append]
    cases hname : scope.registry.contains name <;> simp [hname]
  | other t rest ht ih =>
    obtain ⟨first, others, hfirst, hothers, -⟩ := result_dispatch_cons_eq_ok_iff.1 h
    rw [diagnostics_dispatch_cons hfirst hothers, ih hothers, dispatch_of_isCall_eq_false ht, calls,
      Term.calls_of_isCall_eq_false ht, Outcome.diagnostics_pure, List.nil_append, List.nil_append]

/-- A scope with one function, which gives back a call of another. -/
def wrapping : Scope :=
  ⟨Registry.register ∅ ⟨"wrap", fun _ _ => .ok (.value [.call "inner" []])⟩, .standard⟩

/-- The calls in the parameters of a registered function are reported, and the call that it gives
back is not. -/
theorem diagnostics_dispatch_wrapping :
    ∃ v : Value, v = [.call "wrap" [.call "f" [.call "g" [], .word "a"]], .call "h" []] ∧
      (Value.dispatch wrapping ⟨"width", some 3⟩ v).result = .ok [.call "inner" [], .call "h" []] ∧
      (Value.dispatch wrapping ⟨"width", some 3⟩ v).diagnostics =
        [.unknownFunction "g" "width" (some 3), .unknownFunction "f" "width" (some 3),
          .unknownFunction "h" "width" (some 3)] := by
  have hresult : (Value.dispatch wrapping ⟨"width", some 3⟩
      [.call "wrap" [.call "f" [.call "g" [], .word "a"]], .call "h" []]).result =
      .ok [.call "inner" [], .call "h" []] := by
    rfl
  exact ⟨_, rfl, hresult, (diagnostics_dispatch hresult).trans rfl⟩

end Value

/-! ## Reports -/

/-- What may stop a resolution at a line: a fault of arithmetic or of arguments. -/
def Diagnostic.StopsAt (line : Option Nat) : Diagnostic → Prop
  | .arithmetic _ _ _ l | .functionArgument _ _ _ l => l = line
  | _ => False

theorem Diagnostic.StopsAt.isFatal {line : Option Nat} {d : Diagnostic} (h : d.StopsAt line) :
    d.isFatal = true := by
  cases d with
  | arithmetic | functionArgument => rfl
  | _ => cases h

theorem Diagnostic.StopsAt.line?_eq {line : Option Nat} {d : Diagnostic} (h : d.StopsAt line) :
    d.line? = line := by
  cases d with
  | arithmetic | functionArgument => exact h
  | _ => cases h

/-- The step reports nothing fatal, and what stops it is as described. -/
structure Outcome.Reports {α : Type} (stop : Diagnostic → Prop) (x : Outcome α) : Prop where
  passes : ∀ d ∈ x.diagnostics, d.isFatal = false
  stops : ∀ d, x.result = .error d → stop d

namespace Outcome

variable {α β : Type} {stop stop' : Diagnostic → Prop} {x : Outcome α} {f : α → Outcome β}

theorem Reports.mono (h : x.Reports stop) (hstop : ∀ d, stop d → stop' d) : x.Reports stop' :=
  ⟨h.passes, fun d hd => hstop d (h.stops d hd)⟩

theorem reports_pure (a : α) : (pure a : Outcome α).Reports stop :=
  ⟨by simp, by simp⟩

theorem Reports.bind (hx : x.Reports stop) (hf : ∀ a, (f a).Reports stop) :
    (x >>= f).Reports stop := by
  cases hr : x.result with
  | ok a =>
    refine ⟨?_, ?_⟩
    · rw [diagnostics_bind_of_ok hr]
      intro d hd
      exact (List.mem_append.1 hd).elim (hx.passes d) ((hf a).passes d)
    · rw [bind_of_ok hr]
      exact (hf a).stops
  | error e =>
    refine ⟨?_, ?_⟩
    · rw [diagnostics_bind_of_error hr]
      exact hx.passes
    · rw [bind_of_error hr]
      rintro d hd
      cases hd
      exact hx.stops e hr

theorem reports_foldlM {g : β → α → Outcome β} (h : ∀ b a, (g b a).Reports stop) (as : List α) :
    ∀ b, (as.foldlM g b).Reports stop := by
  induction as with
  | nil => exact reports_pure
  | cons a rest ih =>
    intro b
    rw [List.foldlM_cons]
    exact (h b a).bind ih

theorem reports_trace (message : String) : (trace message).Reports stop :=
  ⟨by simp, by simp⟩

theorem reports_mapError {ε : Type} {r : Except ε α} {g : ε → Diagnostic} (h : ∀ e, stop (g e)) :
    (ofExcept (r.mapError g)).Reports stop := by
  refine ⟨by simp, fun d hd => ?_⟩
  cases r with
  | ok a => cases hd
  | error e =>
    cases hd
    exact h e

end Outcome

theorem Site.reports_evaluate (site : Site) (v : Value) :
    (site.evaluate v).Reports (Diagnostic.StopsAt site.line) :=
  Outcome.reports_mapError fun _ => rfl

theorem Scope.reports_invoke (scope : Scope) (site : Site) (name : String) (v : Value) :
    (scope.invoke site name v).Reports (Diagnostic.StopsAt site.line) := by
  unfold invoke
  split
  · refine Outcome.Reports.bind ⟨by simp, by simp⟩ fun _ => ?_
    refine Outcome.Reports.bind ⟨by simp [Diagnostic.isFatal], by simp⟩ fun _ => ?_
    exact Outcome.reports_pure _
  · refine Outcome.Reports.bind ?_ fun _ => ?_
    · unfold Site.evaluateParameters
      split
      · exact site.reports_evaluate v
      · exact Outcome.reports_pure _
    · refine Outcome.Reports.bind (Outcome.reports_mapError fun _ => rfl) fun _ => ?_
      exact Outcome.reports_pure _

namespace Value

theorem reports_dispatch (scope : Scope) (site : Site) (v : Value) :
    (Value.dispatch scope site v).Reports (Diagnostic.StopsAt site.line) := by
  induction v using Value.induction with
  | nil =>
    rw [dispatch_nil]
    exact Outcome.reports_pure _
  | call name ps rest ihps ihrest =>
    rw [Value.dispatch, Term.dispatch]
    refine (ihps.bind fun _ => scope.reports_invoke site name _).bind fun _ => ?_
    exact ihrest.bind fun _ => Outcome.reports_pure _
  | other t rest ht ih =>
    rw [Value.dispatch, dispatch_of_isCall_eq_false ht]
    refine (Outcome.reports_pure _).bind fun _ => ?_
    exact ih.bind fun _ => Outcome.reports_pure _

theorem reports_dispatchTerm (scope : Scope) (site : Site) (t : Term) :
    (t.dispatch scope site).Reports (Diagnostic.StopsAt site.line) := by
  cases t with
  | call name ps =>
    rw [Term.dispatch]
    exact (reports_dispatch scope site ps).bind fun _ => scope.reports_invoke site name _
  | _ =>
    rw [dispatch_of_isCall_eq_false rfl]
    exact Outcome.reports_pure _

theorem reports_dispatchOperandsAfter (scope : Scope) (site : Site) (v : Value) :
    ∀ left, (dispatchOperandsAfter scope site left v).Reports (Diagnostic.StopsAt site.line) := by
  induction v with
  | nil =>
    intro left
    rw [dispatchOperandsAfter]
    exact Outcome.reports_pure _
  | cons t rest ih =>
    intro left
    rw [dispatchOperandsAfter]
    refine Outcome.Reports.bind ?_ fun _ => ?_
    · unfold dispatchOperand
      split
      · exact reports_dispatchTerm scope site t
      · exact Outcome.reports_pure _
    · exact (ih _).bind fun _ => Outcome.reports_pure _

/-- A resolution reports nothing fatal, and stops only at a fault of arithmetic or of arguments. -/
theorem reports_resolve (scope : Scope) (table : Variables) (site : Site) (v : Value) :
    (v.resolve scope table site).Reports (Diagnostic.StopsAt site.line) := by
  unfold resolve
  refine Outcome.Reports.bind ⟨?_, by simp⟩ fun _ => Outcome.Reports.bind ?_ fun _ => ?_
  · rw [Outcome.diagnostics_reportAll]
    intro d hd
    obtain ⟨name, -, rfl⟩ := List.mem_map.1 hd
    rfl
  · unfold evaluateOperands
    split
    · refine (reports_dispatchOperandsAfter scope site _ none).bind fun _ => ?_
      exact site.reports_evaluate _
    · exact Outcome.reports_pure _
  · exact reports_dispatch scope site _

end Value

namespace Declaration

variable {d d' : Declaration}

/-- A declaration that is resolved gets a new property and value, and keeps the rest. -/
theorem result_resolve_eq_ok_iff :
    (d.resolve scope table).result = .ok d' ↔
      ∃ value, (d.value.resolve scope table
          ⟨table.interpolate scope.style d.property, d.line⟩).result = .ok value ∧
        { d with property := table.interpolate scope.style d.property, value := value } = d' := by
  simp [Declaration.resolve, Outcome.result_bind_eq_ok_iff, -bind_pure_comp]

/-- The resolution of a declaration reports and stops at the line of the declaration. -/
theorem reports_resolve (scope : Scope) (table : Variables) (d : Declaration) :
    (d.resolve scope table).Reports (Diagnostic.StopsAt d.line) := by
  unfold Declaration.resolve
  refine (Value.reports_resolve scope table ⟨_, d.line⟩ d.value).bind fun _ => ?_
  exact (Outcome.reports_trace _).bind fun _ => Outcome.reports_pure _

end Declaration

end Scss
