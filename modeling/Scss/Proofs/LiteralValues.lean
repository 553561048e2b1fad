import Mathlib
import Scss.Proofs.OutputStyle
import Scss.Proofs.Slashes

/-!
# Literal values pass through a resolution

A value is literal if there is nothing in it to be replaced or called: no reference, no marker and
no registered function, at any depth.  If it has no operator at its top level either, slashes apart,
then each step of a resolution finds it as it is.  Its slashes separate, so there is no arithmetic;
without arithmetic nothing is evaluated; and calls of unknown functions are put together again as
they were, with the operators in their parameters.

## Main definitions

* `Value.Literal`: values with nothing in them to be replaced or called

## Main results

* `Value.hasArithmetic_classify_of_slashes`: slashes alone make no arithmetic
* `Value.substitute_of_literal`: there is nothing to substitute in a literal value
* `Value.result_dispatch_of_unregistered`: unknown functions stay as they are
* `Declaration.resolve_literal`: a literal value without operators is resolved to itself, with its
  slashes told apart
-/

namespace Scss

/-- There is nothing in the value to be replaced or called: it has no references, no markers and no
calls of functions in the registry, at any depth. -/
structure Value.Literal (registry : Registry) (v : Value) : Prop where
  references : v.references = []
  unmarked : v.Unmarked
  calls : ∀ name ∈ v.calls, registry.contains name = false

namespace Value

variable {registry : Registry} {v rest parameters : Value} {t : Term} {name : String}

theorem Literal.of_cons (h : Literal registry (t :: rest)) : Literal registry rest where
  references := (List.append_eq_nil_iff.1 h.references).2
  unmarked text ht := h.unmarked text (by simp [texts, ht])
  calls f hf := h.calls f (by simp [Value.calls, hf])

theorem Literal.of_call (h : Literal registry (.call name parameters :: rest)) :
    Literal registry parameters where
  references := (List.append_eq_nil_iff.1 h.references).1
  unmarked text ht := h.unmarked text (by simp [texts, Term.texts, ht])
  calls f hf := h.calls f (by simp [Value.calls, Term.calls, hf])

theorem Literal.isVariable_eq_false (h : Literal registry v) : v.any Term.isVariable = false := by
  rw [List.any_eq_false]
  intro t ht hvariable
  cases t with
  | «variable» name =>
    have hmem : name ∈ v.references := mem_references_iff.2 ⟨_, ht, by simp [Term.references]⟩
    rw [h.references] at hmem
    cases hmem
  | _ => cases hvariable

theorem Literal.classify (h : Literal registry v) : Literal registry v.classify where
  references := by rw [references_classify, h.references]
  unmarked := by
    unfold Unmarked
    rw [texts_classify]
    exact h.unmarked
  calls := by
    rw [calls_classify]
    exact h.calls

/-! ## Slashes that separate -/

/-- The term is no variable, and no operator but perhaps a slash. -/
def AllowsSeparation (t : Term) : Prop :=
  t.isVariable = false ∧ ∀ o, o ≠ .div → t.isOperator o = false

theorem segmentHasOperator_of_allowsSeparation (h : ∀ t ∈ v, AllowsSeparation t) :
    v.segmentHasOperator = false := by
  unfold segmentHasOperator
  rw [List.any_eq_false]
  intro t ht hother
  obtain ⟨o, ho, hoperator⟩ := Term.isAnyOperator_and_not_div_iff.1 hother
  rw [(h t (List.takeWhile_sublist _ |>.subset ht)).2 o ho] at hoperator
  cases hoperator

/-- Between terms that allow it, a slash separates. -/
theorem divides_of_allowsSeparation {left right : Option Term}
    (hl : ∀ t ∈ left, AllowsSeparation t) (hr : ∀ t ∈ right, AllowsSeparation t) :
    divides false left right = false := by
  cases left <;> cases right <;> simp_all [divides, AllowsSeparation]

theorem isAnyOperator_classifyAfter (v : Value) :
    ∀ left : Option Term, (∀ t ∈ left, AllowsSeparation t) → (∀ t ∈ v, AllowsSeparation t) →
      (classifyAfter left false v).any Term.isAnyOperator = false := by
  induction v with
  | nil =>
    intro left _ _
    rw [classifyAfter]
    rfl
  | cons t rest ih =>
    intro left hleft hv
    obtain ⟨ht, hrest⟩ := List.forall_mem_cons.1 hv
    have hseparates : divides false left rest.head? = false :=
      divides_of_allowsSeparation hleft fun u hu => hrest u (List.mem_of_mem_head? hu)
    have hbusy : (if t.isComma then segmentHasOperator rest else false) = false := by
      rw [segmentHasOperator_of_allowsSeparation hrest, ite_self]
    rw [classifyAfter, hseparates, hbusy, List.any_cons, ih (some t) (by simpa using ht) hrest,
      Bool.or_false]
    cases t with
    | operator o =>
      -- The only operator left is a slash, which separates here.
      obtain rfl : o = .div := by
        by_contra ho
        simpa [Term.isOperator] using ht.2 o ho
      rfl
    | call => rfl
    | _ => rfl

/-- Slashes alone make no arithmetic, where no variable stands. -/
theorem hasArithmetic_classify_of_slashes (hv : v.any Term.isVariable = false)
    (hoperators : ∀ o, .operator o ∈ v → o = .div) : v.classify.hasArithmetic = false := by
  have hall : ∀ t ∈ v, AllowsSeparation t := by
    intro t ht
    refine ⟨by simpa using List.any_eq_false.1 hv t ht, fun o ho => ?_⟩
    cases t with
    | operator o' =>
      rw [hoperators o' ht]
      simpa [Term.isOperator] using ho.symm
    | _ => rfl
  unfold hasArithmetic Value.classify
  rw [segmentHasOperator_of_allowsSeparation hall]
  exact isAnyOperator_classifyAfter v none (by simp) hall

/-! ## The steps of a resolution -/

/-- There is nothing to substitute in a literal value. -/
theorem substitute_of_literal (table : Variables) (style : Style) (h : Literal registry v) :
    v.substitute table style = ⟨v, []⟩ := by
  induction v using Value.induction with
  | nil => rw [Value.substitute]
  | call name parameters rest ihparameters ihrest =>
    rw [Value.substitute, Term.substitute, ihparameters h.of_call, ihrest h.of_cons]
    rfl
  | other t rest hcall ih =>
    -- Only references and texts with markers are replaced.
    have hfirst : t.substitute table style = ⟨[t], []⟩ := by
      cases t with
      | call => cases hcall
      | «variable» name => cases h.references
      | word text =>
        have htext := h.unmarked text (by simp [texts, Term.texts])
        rw [Term.substitute, Variables.interpolate_of_unmarked htext]
      | string text =>
        have htext := h.unmarked text (by simp [texts, Term.texts])
        rw [Term.substitute, Variables.interpolate_of_unmarked htext]
      | _ => rw [Term.substitute] <;> simp
    rw [Value.substitute, hfirst, ih h.of_cons]
    rfl

end Value

theorem Scope.result_invoke_of_unregistered {scope : Scope} {name : String}
    (h : scope.registry.contains name = false) (site : Site) (v : Value) :
    (scope.invoke site name v).result = .ok [.call name v] := by
  have hnone : scope.registry.find? name = none := by simpa [Names.contains] using h
  unfold invoke
  rw [hnone]
  rfl

/-- Functions that are not registered stay as they are, with all that is in their parameters. -/
theorem Value.result_dispatch_of_unregistered {scope : Scope} {v : Value}
    (h : ∀ name ∈ v.calls, scope.registry.contains name = false) (site : Site) :
    (Value.dispatch scope site v).result = .ok v := by
  induction v using Value.induction with
  | nil =>
    rw [dispatch_nil]
    rfl
  | call name parameters rest ihparameters ihrest =>
    simp only [calls, Term.calls, List.mem_append, List.mem_singleton] at h
    refine result_dispatch_cons_eq_ok_iff.2 ⟨[.call name parameters], rest, ?_, ?_, rfl⟩
    · refine result_dispatch_call_eq_ok_iff.2 ⟨parameters, ?_, ?_⟩
      · exact ihparameters fun f hf => h f (.inl (.inl hf))
      · exact Scope.result_invoke_of_unregistered (h name (.inl (.inr rfl))) site parameters
    · exact ihrest fun f hf => h f (.inr hf)
  | other t rest hcall ih =>
    refine result_dispatch_cons_eq_ok_iff.2 ⟨[t], rest, ?_, ?_, rfl⟩
    · rw [dispatch_of_isCall_eq_false hcall]
      rfl
    · exact ih fun f hf => h f (by simp [calls, hf])

/-- A literal value without operators is resolved to itself, with its slashes told apart. -/
theorem Value.result_resolve_of_literal {scope : Scope} {v : Value}
    (h : v.Literal scope.registry) (hoperators : ∀ o, .operator o ∈ v → o = .div)
    (table : Variables) (site : Site) :
    (v.resolve scope table site).result = .ok v.classify := by
  refine result_resolve_eq_ok_iff.2 ⟨v.classify, ?_, ?_⟩
  · rw [hasArithmetic_classify_of_slashes h.isVariable_eq_false hoperators,
      substitute_of_literal table scope.style h.classify]
    rfl
  · exact result_dispatch_of_unregistered h.classify.calls site

/-- **Literal values pass through.**  If there is nothing in the value of a declaration to be
replaced or called, at any depth, and no operator at its top level but slashes, the declaration can
be resolved with any table, and its new value is the old one with its slashes told apart. -/
theorem Declaration.resolve_literal {scope : Scope} {d : Declaration}
    (h : d.value.Literal scope.registry) (hoperators : ∀ o, .operator o ∈ d.value → o = .div)
    (table : Variables) :
    (d.resolve scope table).result = .ok
      { d with
        property := table.interpolate scope.style d.property
        value := d.value.classify } :=
  Declaration.result_resolve_eq_ok_iff.2
    ⟨d.value.classify, Value.result_resolve_of_literal h hoperators table _, rfl⟩

/-- A font with a slash, and a length whose arithmetic is left to `calc`. -/
def Declaration.shorthand : Declaration :=
  ⟨"font", [.dimension 12 "px", .operator .div, .number 1.5, .word "serif", .separator .comma,
    .call "calc" [.dimension 1 "em", .operator .add, .call "var" [.word "--gap"], .operator .mul,
      .number 2]], false, none, some 3⟩

theorem Declaration.literal_shorthand : Declaration.shorthand.value.Literal .builtin where
  references := rfl
  unmarked := by decide
  calls := by
    show ∀ name ∈ ["var", "calc"], _
    simp only [List.forall_mem_cons]
    exact ⟨Registry.contains_builtin_eq_false (by decide),
      Registry.contains_builtin_eq_false (by decide), by simp⟩

/-- The slash of a font separates, and the operators inside `calc` stay. -/
theorem Declaration.resolve_literal_shorthand :
    (∀ o, .operator o ∈ Declaration.shorthand.value → o = .div) ∧
    (Declaration.shorthand.resolve ⟨.builtin, .standard⟩ .empty).result = .ok
      ⟨"font", [.dimension 12 "px", .separator .slash, .number 1.5, .word "serif",
        .separator .comma, .call "calc" [.dimension 1 "em", .operator .add,
          .call "var" [.word "--gap"], .operator .mul, .number 2]], false, none, some 3⟩ := by
  have hoperators : ∀ o, .operator o ∈ Declaration.shorthand.value → o = .div := by
    simp [Declaration.shorthand]
  have hproperty : Variables.interpolate .empty .standard Declaration.shorthand.property = "font" :=
    Variables.interpolate_of_unmarked (by decide) _ _
  refine ⟨hoperators, ?_⟩
  rw [Declaration.resolve_literal Declaration.literal_shorthand hoperators .empty, hproperty]
  simp [Declaration.shorthand, Value.classify, Value.classifyAfter, Term.classify,
    Value.segmentHasOperator, Value.divides, Term.isComma, Term.isOperator, Term.isVariable,
    Term.isAnyOperator]

end Scss
