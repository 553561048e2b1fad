import Scss.Proofs.Builtins
import Scss.Proofs.Compilation
import Scss.Proofs.Evaluation
import Scss.Proofs.Resolution
import Scss.Proofs.SettlingOrder
import Scss.Proofs.Substitution

/-!
# The form of resolved values

A resolved value calls no registered function and refers to no declared variable, at any depth;
and unless a reference is left at its top level, no operator is left there but minus signs.

The form is kept along the way.  A substitution puts in settled values, which have the form; an
evaluation removes the operators, if no reference stands in its way; and the functions that are
called last give literals.

## Main definitions

* `Value.Resolved`: the form of resolved values
* `Value.Dispatched`: a value and the same value with its calls made

## Main results

* `Value.resolved_of_resolve`: a resolution with settled variables gives the form
* `Bindings.resolved_of_settle`: settled variables have the form
* `Compiler.compileInPlace_resolved`: compiled declarations have the form
-/

namespace Scss

/-- The value calls no function of the registry and refers to no declared variable, at any depth,
and has no operator but minus signs at its top level, unless a reference stands there. -/
structure Value.Resolved (registry : Registry) (declared : String → Prop) (v : Value) : Prop where
  calls : ∀ name ∈ v.calls, registry.contains name = false
  references : ∀ name ∈ v.references, ¬ declared name
  operators : v.any Term.isVariable = false → ∀ o, .operator o ∈ v → o = .neg

namespace Value

variable {scope : Scope} {site : Site} {table : Variables} {v w : Value} {declared : String → Prop}

theorem references_of_literals (h : ∀ t ∈ v, t.isLiteral = true) : v.references = [] := by
  rw [references_eq_flatMap, List.flatMap_eq_nil_iff]
  exact fun t ht => Term.references_of_isLiteral (h t ht)

theorem calls_of_literals (h : ∀ t ∈ v, t.isLiteral = true) : v.calls = [] := by
  rw [calls_eq_flatMap, List.flatMap_eq_nil_iff]
  exact fun t ht => Term.calls_of_isLiteral (h t ht)

/-! ## Calling functions -/

/-- The second value is the first with its calls made: a call gave way to literals, or its function
is not registered and only the calls in its parameters were made. -/
inductive Dispatched (registry : Registry) : Value → Value → Prop
  | nil : Dispatched registry [] []
  | called {name : String} {parameters out rest after : Value} :
    (∀ t ∈ out, t.isLiteral = true) → Dispatched registry rest after →
      Dispatched registry (.call name parameters :: rest) (out ++ after)
  | kept {name : String} {parameters inner rest after : Value} :
    registry.contains name = false → Dispatched registry parameters inner →
      Dispatched registry rest after →
      Dispatched registry (.call name parameters :: rest) (.call name inner :: after)
  | other {t : Term} {rest after : Value} :
    t.isCall = false → Dispatched registry rest after →
      Dispatched registry (t :: rest) (t :: after)

theorem dispatched_of_dispatch (hr : scope.registry.GivesLiterals) (v : Value) :
    ∀ w, (Value.dispatch scope site v).result = .ok w → Dispatched scope.registry v w := by
  induction v using Value.induction with
  | nil =>
    intro w h
    rw [dispatch_nil] at h
    cases h
    exact .nil
  | call name ps rest ihps ihrest =>
    intro w h
    obtain ⟨first, others, hfirst, hothers, rfl⟩ := result_dispatch_cons_eq_ok_iff.1 h
    obtain ⟨inner, hinner, hcall⟩ := result_dispatch_call_eq_ok_iff.1 hfirst
    rcases Scope.result_invoke_eq_ok hcall with ⟨hnone, rfl⟩ | ⟨g, evaluated, out, hg, hout, rfl⟩
    · have hname : scope.registry.contains name = false := by simp [Names.contains, hnone]
      exact .kept hname (ihps inner hinner) (ihrest others hothers)
    · exact .called (hr name g hg _ _ out hout) (ihrest others hothers)
  | other t rest ht ih =>
    intro w h
    obtain ⟨first, others, hfirst, hothers, rfl⟩ := result_dispatch_cons_eq_ok_iff.1 h
    rw [dispatch_of_isCall_eq_false ht] at hfirst
    cases hfirst
    exact .other ht (ih others hothers)

namespace Dispatched

variable {registry : Registry}

/-- No registered function is left. -/
theorem unregistered (h : Dispatched registry v w) :
    ∀ name ∈ w.calls, registry.contains name = false := by
  induction h with
  | nil => simp [calls]
  | called hlit _ ih =>
    rw [calls_append, calls_of_literals hlit, List.nil_append]
    exact ih
  | kept hname _ _ ihps ihrest =>
    intro f hf
    simp only [calls, Term.calls, List.mem_append, List.mem_singleton] at hf
    rcases hf with (hf | rfl) | hf
    · exact ihps f hf
    · exact hname
    · exact ihrest f hf
  | other ht _ ih =>
    rw [calls, Term.calls_of_isCall_eq_false ht, List.nil_append]
    exact ih

/-- No reference is new. -/
theorem references_subset (h : Dispatched registry v w) : w.references ⊆ v.references := by
  induction h with
  | nil => exact List.Subset.refl _
  | called hlit _ ih =>
    rw [references_append, references_of_literals hlit, List.nil_append, references]
    exact List.subset_append_of_subset_right _ ih
  | kept _ _ _ ihps ihrest =>
    simp only [references, Term.references]
    exact List.append_subset.2 ⟨List.subset_append_of_subset_left _ ihps,
      List.subset_append_of_subset_right _ ihrest⟩
  | other _ _ ih =>
    simp only [references]
    exact List.append_subset.2 ⟨List.subset_append_left _ _,
      List.subset_append_of_subset_right _ ih⟩

/-- At the top level, only calls give way, and only to literals. -/
theorem mem_iff (h : Dispatched registry v w) {t : Term} (hcall : t.isCall = false)
    (hlit : t.isLiteral = false) : t ∈ w ↔ t ∈ v := by
  have hne {name : String} {ps : Value} : t ≠ .call name ps := by
    rintro rfl
    cases hcall
  induction h with
  | nil => rfl
  | @called _ _ out _ _ hout _ ih =>
    have hnot : t ∉ out := fun hmem => by simp [hout t hmem] at hlit
    simp [hnot, hne, ih]
  | kept _ _ _ _ ih => simp [hne, ih]
  | other _ _ ih => simp [ih]

end Dispatched

/-! ## Evaluation -/

theorem references_of_dispatchTerm (hr : scope.registry.GivesLiterals) {t : Term}
    (h : (t.dispatch scope site).result = .ok w) : w.references ⊆ t.references := by
  have hdispatched := dispatched_of_dispatch hr [t] w (result_dispatch_singleton_eq_ok h)
  simpa [references] using hdispatched.references_subset

theorem references_of_dispatchOperandsAfter (hr : scope.registry.GivesLiterals) (v : Value) :
    ∀ left w, (dispatchOperandsAfter scope site left v).result = .ok w →
      w.references ⊆ v.references := by
  induction v with
  | nil =>
    rintro left w ⟨⟩
    exact List.Subset.refl _
  | cons t rest ih =>
    intro left w h
    obtain ⟨first, others, hfirst, hothers, rfl⟩ := result_dispatchOperandsAfter_cons_eq_ok h
    have hsub : first.references ⊆ t.references := by
      rcases hfirst with hfirst | rfl
      · exact references_of_dispatchTerm hr hfirst
      · simp [references]
    rw [references_append, references]
    exact List.append_subset.2 ⟨List.subset_append_of_subset_left _ hsub,
      List.subset_append_of_subset_right _ (ih _ _ hothers)⟩

theorem references_of_evaluate (h : v.evaluate = .ok w) : w.references ⊆ v.references := by
  intro name hname
  obtain ⟨t, ht, hname⟩ := mem_references_iff.1 hname
  rcases mem_or_isNumeric_of_evaluate h t ht with hmem | hnum
  · exact mem_references_iff.2 ⟨t, hmem, hname⟩
  · rw [Term.references_of_isLiteral (Term.isLiteral_of_isNumeric hnum)] at hname
    cases hname

theorem references_of_evaluateOperands (hr : scope.registry.GivesLiterals) {asked : Bool}
    (h : (evaluateOperands scope site asked v).result = .ok w) :
    w.references ⊆ v.references := by
  rw [result_evaluateOperands_eq_ok_iff] at h
  split at h
  · obtain ⟨operands, hoperands, heval⟩ := h
    exact List.Subset.trans (references_of_evaluate heval)
      (references_of_dispatchOperandsAfter hr v none operands hoperands)
  · rw [h]
    exact List.Subset.refl _

/-- An evaluation that was asked for leaves only minus signs, unless it leaves a reference. -/
theorem eq_neg_of_evaluateOperands (h : (evaluateOperands scope site true v).result = .ok w)
    (hw : w.any Term.isVariable = false) {o : Operator} (ho : .operator o ∈ w) : o = .neg := by
  rw [result_evaluateOperands_eq_ok_iff, if_pos rfl] at h
  obtain ⟨operands, -, heval⟩ := h
  cases hv : operands.any Term.isVariable with
  | false => exact eq_neg_of_evaluate hv heval ho
  | true =>
    -- A reference among the operands would have kept them all, and itself, in place.
    rw [evaluate_of_variable hv] at heval
    cases heval
    rw [hv] at hw
    cases hw

/-! ## Resolution -/

/-- A substitution by values in resolved form leaves no declared reference, if all declared ones
have values. -/
theorem not_declared_of_substitute {registry : Registry} {style : Style}
    (htable : ∀ name value, table.lookup name = some value → Resolved registry declared value)
    (hbound : ∀ name ∈ v.references, declared name → table.binds name = true) :
    ∀ name ∈ (v.substitute table style).terms.references, ¬ declared name := by
  intro name hname hdeclared
  rw [references_substitute, List.mem_flatMap] at hname
  obtain ⟨source, hsource, hname⟩ := hname
  cases hl : table.lookup source with
  | some value =>
    simp only [Variables.referencesFor, hl] at hname
    exact (htable source value hl).references name hname hdeclared
  | none =>
    simp only [Variables.referencesFor, hl, List.mem_singleton] at hname
    have hbinds := hbound source hsource (hname ▸ hdeclared)
    obtain ⟨value, hvalue⟩ := Variables.binds_eq_true_iff.1 hbinds
    rw [hl] at hvalue
    cases hvalue

/-- Where no evaluation was asked for, operators can only have come with a value. -/
theorem eq_neg_of_substitute {registry : Registry} {style : Style} {o : Operator}
    (htable : ∀ name value, table.lookup name = some value → Resolved registry declared value)
    (hv : v.hasArithmetic = false)
    (hnone : (v.substitute table style).terms.any Term.isVariable = false)
    (ho : .operator o ∈ (v.substitute table style).terms) : o = .neg := by
  rcases operator_mem_substitute ho with hmem | ⟨name, value, hl, hmem, hall⟩
  · simp only [hasArithmetic, List.any_eq_false] at hv
    exact absurd rfl (hv _ hmem)
  · refine (htable name value hl).operators ?_ o hmem
    rw [List.any_eq_false] at hnone ⊢
    exact fun t ht => hnone t (hall t ht)

/-- A resolution gives the resolved form, if the values of variables have it and all declared
references have a value. -/
theorem resolved_of_resolve (hr : scope.registry.GivesLiterals)
    (htable : ∀ name value, table.lookup name = some value →
      Resolved scope.registry declared value)
    (hbound : ∀ name ∈ v.references, declared name → table.binds name = true)
    (h : (v.resolve scope table site).result = .ok w) : Resolved scope.registry declared w := by
  obtain ⟨e, he, hw⟩ := result_resolve_eq_ok_iff.1 h
  -- The calls come last, so what holds before them of references and operators holds after them.
  have hdispatched := dispatched_of_dispatch hr e w hw
  refine ⟨hdispatched.unregistered, fun name hname => ?_, fun hvar o ho => ?_⟩
  · refine not_declared_of_substitute (v := v.classify) htable ?_ name
      (references_of_evaluateOperands hr he (hdispatched.references_subset hname))
    rw [references_classify]
    exact hbound
  · have hvar' : e.any Term.isVariable = false := by
      rw [List.any_eq_false] at hvar ⊢
      intro t ht hisvar
      cases t with
      | «variable» name => exact hvar _ ((hdispatched.mem_iff rfl rfl).2 ht) rfl
      | _ => cases hisvar
    have ho' := (hdispatched.mem_iff rfl rfl).1 ho
    cases hasked : v.classify.hasArithmetic with
    | true => exact eq_neg_of_evaluateOperands (hasked ▸ he) hvar' ho'
    | false =>
      -- Nothing was evaluated: operators can only have come in with the values of variables.
      rw [hasked, result_evaluateOperands_eq_ok_iff, if_neg (by simp)] at he
      subst he
      exact eq_neg_of_substitute htable hasked hvar' ho'

end Value

/-! ## Settled variables -/

namespace Bindings

variable {bindings : Bindings} {scope : Scope} {table : Variables}

/-- Settled variables have the resolved form. -/
theorem resolved_of_settle (hr : scope.registry.GivesLiterals) (hplain : bindings.PlainNames)
    (h : (bindings.settle scope).result = .ok table) :
    ∀ name value, table.find? name = some value →
      value.Resolved scope.registry fun x => bindings.contains x = true := by
  -- Along the plan, what the next variable refers to is settled and so far all is resolved.
  let P (done : List String) (t : Variables) : Prop :=
    bindings.Holds t done ∧ ∀ name value, t.find? name = some value →
      value.Resolved scope.registry fun x => bindings.contains x = true
  have hP : P bindings.plan.order table := by
    refine settle_induction hplain ?_ ⟨bindings.holds_empty, by simp⟩ h
    rintro done x b t v hb - hrefs ⟨hholds, hresolved⟩ hv
    refine ⟨hholds.bind hplain (Names.contains_of_find? hb) v, fun name value hvalue => ?_⟩
    rw [Variables.bind, Names.find?_insert] at hvalue
    split at hvalue
    · cases hvalue
      refine Value.resolved_of_resolve hr (fun name => hresolved (bareName name)) ?_ hv
      exact fun y hy hcontains => (hholds y hcontains).2 (hrefs y ⟨b, hb, hy, hcontains⟩)
    · exact hresolved name value hvalue
  exact hP.2

end Bindings

/-! ## Compiled declarations -/

namespace Compiler

/-- **Compiled values are in resolved form.**  After a compilation with the built-in functions that
does not fail, every declared variable has a value, and the values of all variables and of all
declarations that were resolved call no built-in function, refer to no declared variable, and hold
no operator but minus signs at their top level, unless a reference stands there. -/
theorem compileInPlace_resolved (options : Options) (sheet : Stylesheet)
    (hplain : sheet.PlainVariables) (compilation : Compilation) (after : Stylesheet)
    (h : (Compiler.mk options .builtin).compileInPlace sheet = (.ok compilation, after)) :
    ∃ bindings table, Bindings.collect sheet = .ok bindings ∧
      (bindings.settle ⟨.builtin, options.output⟩).result = .ok table ∧
      (∀ x, sheet.Declares x → table.binds x = true) ∧
      (∀ x value, table.lookup x = some value → value.Resolved .builtin sheet.Declares) ∧
      ∀ (i : Nat) d, sheet[i]? = some (.declaration d) →
        (Compiler.mk options .builtin).fault? table d = none →
        ∃ d', after[i]? = some (.declaration d') ∧
          d'.value.Resolved .builtin sheet.Declares := by
  obtain ⟨bindings, table, hc, hs, hall, -⟩ := compileInPlace_eq_ok h
  obtain ⟨-, rfl⟩ := Prod.mk.inj (Except.ok.inj hall)
  have hnames := Bindings.plainNames_of_collect hc hplain
  have hdeclares : (fun x => bindings.contains x = true) = sheet.Declares :=
    funext fun x => propext (Bindings.contains_collect_iff hc x)
  have hbinds : ∀ x, sheet.Declares x → table.binds x = true := fun x hx =>
    Bindings.binds_of_settle hnames hs ((Bindings.contains_collect_iff hc x).2 hx)
  have htable : ∀ x value, table.lookup x = some value →
      value.Resolved .builtin sheet.Declares := fun x value hx =>
    hdeclares ▸ Bindings.resolved_of_settle Registry.builtin_givesLiterals hnames hs _ value hx
  refine ⟨bindings, table, hc, hs, hbinds, htable, fun i d hi hfault => ?_⟩
  rcases (Compiler.mk options .builtin).resolved_or_fault table d with ⟨d', hd⟩ | ⟨e, he⟩
  · refine ⟨d', by simp [hi, (compileStatement_of_resolved hd).1], ?_⟩
    obtain ⟨value, hvalue, rfl⟩ :=
      Declaration.result_resolve_eq_ok_iff.1 (resolved?_eq_some_iff.1 hd)
    exact Value.resolved_of_resolve Registry.builtin_givesLiterals htable
      (fun name _ => hbinds name) hvalue
  · rw [hfault] at he
    cases he

/-- A variable that refers to one further down, and a declaration between them. -/
def hoisted : Stylesheet :=
  [.variable ⟨"a", [.variable "b", .separator .comma, .word "x"], false, some 1⟩,
    .declaration ⟨"content", [.variable "a"], true, none, some 2⟩,
    .variable ⟨"b", [.operator .neg, .word "y"], false, some 3⟩]

theorem resolve_hoisted (scope : Scope) (site : Site) :
    (((Bindings.ofSheet hoisted).settle scope).result >>= fun table =>
      (Value.resolve scope table site [.variable "a"]).result) =
        .ok [.operator .neg, .word "y", .separator .comma, .word "x"] := by
  cbv

/-- The declaration between the two variables is resolved. -/
theorem compileInPlace_resolved_hoisted :
    hoisted.PlainVariables ∧ ∃ compilation after d',
      (Compiler.mk {} .builtin).compileInPlace hoisted = (.ok compilation, after) ∧
      after[1]? = some (.declaration d') ∧ d'.value.Resolved .builtin hoisted.Declares := by
  let c : Compiler := ⟨{}, .builtin⟩
  have hplain : hoisted.PlainVariables := by decide
  have hcollect : Bindings.collect hoisted = .ok (Bindings.ofSheet hoisted) := rfl
  obtain ⟨_, hsettle, -⟩ := bind_eq_ok_iff.1 (resolve_hoisted c.scope ⟨"content", some 2⟩)
  obtain ⟨compilation, after, h⟩ := exists_compileInPlace_eq_ok hcollect hsettle
  obtain ⟨bindings, table, hc, hs, -, -, hresolved⟩ :=
    compileInPlace_resolved {} hoisted hplain compilation after h
  cases hcollect.symm.trans hc
  -- The declaration does not fail: its value is resolved, whatever its property is written as.
  obtain ⟨table', hs', hvalue⟩ := bind_eq_ok_iff.1
    (resolve_hoisted c.scope ⟨table.interpolate c.scope.style "content", some 2⟩)
  cases hs.symm.trans hs'
  have hd : c.fault? table ⟨"content", [.variable "a"], true, none, some 2⟩ = none :=
    fault?_of_resolved <| resolved?_eq_some_iff.2 <|
      Declaration.result_resolve_eq_ok_iff.2 ⟨_, hvalue, rfl⟩
  obtain ⟨d', hd', hform⟩ := hresolved 1 _ rfl hd
  exact ⟨hplain, compilation, after, d', h, hd', hform⟩

end Compiler

end Scss
