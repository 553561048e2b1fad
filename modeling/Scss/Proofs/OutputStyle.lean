import Scss.Proofs.Fixpoint
import Scss.Proofs.Independence
import Scss.Proofs.ResolvedForm

/-!
# The style of the text does not change values

A compilation carries the style of its text through all its steps, since a marker and a function
may turn a value into text on the way.  Where no marker can start, and no function is called that
asks for the style, the style is carried and never read: two compilations in different styles
resolve the same values, report the same diagnostics and fail for the same reasons.  Of the
built-in functions, `unquote` alone asks for the style.

The functions that are called are not only those that are written.  A value may be put in for a
reference, and a function may give one, so that no call may come in on these ways either: settled
values and the results of functions hold no call that could still be made.

## Main definitions

* `Generator.IgnoresStyle`, `Value.IgnoresStyle`, `Variables.IgnoresStyle`: functions, values and
  tables in which the style plays no role
* `Stylesheet.MakesNoText`: stylesheets that turn no value into text before the text is written

## Main results

* `Value.resolve_style`: a resolution is the same in all styles
* `Bindings.settleNames_style`: settling is the same in all styles
* `Compiler.compileInPlace_style`: options change the text of a compilation and nothing else
-/

namespace Scss

/-! ## Functions and calls -/

/-- The function gives the same in all styles. -/
def Generator.IgnoresStyle (g : Generator) : Prop :=
  ∀ call s s', g.apply call s = g.apply call s'

/-- Of the built-in functions, only `unquote` asks for the style. -/
theorem Generator.ignoresStyle_of_mem_builtins :
    ∀ g ∈ builtins, g.name ≠ "unquote" → g.IgnoresStyle := by
  simp only [builtins, List.forall_mem_cons]
  exact ⟨fun _ _ _ _ => rfl, fun _ _ _ _ => rfl, fun _ _ _ _ => rfl, fun _ _ _ _ => rfl,
    fun _ _ _ _ => rfl, fun _ _ _ _ => rfl, fun _ _ _ _ => rfl, fun _ _ _ _ => rfl,
    fun _ _ _ _ => rfl, fun _ _ _ _ => rfl, fun _ _ _ _ => rfl, fun hname => absurd rfl hname,
    fun _ _ _ _ => rfl, fun _ _ _ _ => rfl, fun _ _ _ _ => rfl, List.forall_mem_nil _⟩

/-- The registered functions that the value calls, at any depth, ignore the style. -/
def Value.IgnoresStyle (registry : Registry) (v : Value) : Prop :=
  ∀ name ∈ v.calls, ∀ g, registry.find? name = some g → g.IgnoresStyle

/-- The values in the table ignore the style. -/
def Variables.IgnoresStyle (registry : Registry) (table : Variables) : Prop :=
  ∀ name value, table.find? name = some value → value.IgnoresStyle registry

variable {registry : Registry} {site : Site} {table : Variables} {v w : Value} {name : String}

namespace Value

theorem mem_calls_iff : name ∈ v.calls ↔ ∃ t ∈ v, name ∈ t.calls := by
  rw [calls_eq_flatMap, List.mem_flatMap]

theorem ignoresStyle_append_iff :
    IgnoresStyle registry (v ++ w) ↔ v.IgnoresStyle registry ∧ w.IgnoresStyle registry := by
  unfold IgnoresStyle
  rw [calls_append, List.forall_mem_append]

theorem ignoresStyle_cons_iff {t : Term} :
    IgnoresStyle registry (t :: v) ↔ IgnoresStyle registry [t] ∧ v.IgnoresStyle registry :=
  ignoresStyle_append_iff (v := [t])

theorem ignoresStyle_call_iff {parameters : Value} :
    IgnoresStyle registry [.call name parameters] ↔
      parameters.IgnoresStyle registry ∧
        ∀ g, registry.find? name = some g → g.IgnoresStyle := by
  simp [IgnoresStyle, calls, Term.calls, or_imp, forall_and]

theorem ignoresStyle_of_isCall_eq_false {t : Term} (h : t.isCall = false) :
    IgnoresStyle registry [t] := by
  simp [IgnoresStyle, calls, Term.calls_of_isCall_eq_false h]

/-- Calls of functions that are not registered are never made. -/
theorem ignoresStyle_of_unregistered (h : ∀ name ∈ v.calls, registry.contains name = false) :
    v.IgnoresStyle registry := by
  intro name hname g hg
  have hcontains := h name hname
  rw [Names.contains_of_find? hg] at hcontains
  cases hcontains

theorem ignoresStyle_classify (h : v.IgnoresStyle registry) : v.classify.IgnoresStyle registry := by
  unfold IgnoresStyle
  rw [calls_classify]
  exact h

theorem ignoresStyle_substitute (s : Style) (htable : table.IgnoresStyle registry)
    (h : v.IgnoresStyle registry) : (v.substitute table s).terms.IgnoresStyle registry := by
  induction v using Value.induction with
  | nil => simp [Value.substitute, IgnoresStyle, calls]
  | call name ps rest ihps ihrest =>
    obtain ⟨hcall, hrest⟩ := ignoresStyle_cons_iff.1 h
    obtain ⟨hps, hname⟩ := ignoresStyle_call_iff.1 hcall
    rw [terms_substitute_cons, terms_substitute_call]
    exact ignoresStyle_append_iff.2 ⟨ignoresStyle_call_iff.2 ⟨ihps hps, hname⟩, ihrest hrest⟩
  | other t rest ht ih =>
    obtain ⟨-, hrest⟩ := ignoresStyle_cons_iff.1 h
    rw [terms_substitute_cons]
    refine ignoresStyle_append_iff.2 ⟨?_, ih hrest⟩
    cases t with
    | call => cases ht
    | «variable» name =>
      rw [terms_substitute_variable]
      cases hl : table.lookup name with
      | some value => exact htable _ value hl
      | none => exact ignoresStyle_of_isCall_eq_false rfl
    | _ => exact ignoresStyle_of_isCall_eq_false rfl

theorem ignoresStyle_of_evaluate (h : v.IgnoresStyle registry) (heval : v.evaluate = .ok w) :
    w.IgnoresStyle registry := by
  intro name hname
  obtain ⟨t, ht, hname⟩ := mem_calls_iff.1 hname
  rcases mem_or_isNumeric_of_evaluate heval t ht with hmem | hnumeric
  · exact h name (mem_calls_iff.2 ⟨t, hmem, hname⟩)
  · rw [Term.calls_of_isLiteral (Term.isLiteral_of_isNumeric hnumeric)] at hname
    cases hname

/-- A call that is made leaves no registered call behind. -/
theorem ignoresStyle_of_dispatch {scope : Scope} (hr : scope.registry.GivesLiterals)
    (h : (Value.dispatch scope site v).result = .ok w) : w.IgnoresStyle scope.registry :=
  ignoresStyle_of_unregistered (dispatched_of_dispatch hr v w h).unregistered

theorem ignoresStyle_of_dispatchOperandsAfter {scope : Scope}
    (hr : scope.registry.GivesLiterals) (v : Value) :
    ∀ left w, v.IgnoresStyle scope.registry →
      (dispatchOperandsAfter scope site left v).result = .ok w →
      w.IgnoresStyle scope.registry := by
  induction v with
  | nil =>
    rintro left w h ⟨⟩
    exact h
  | cons t rest ih =>
    intro left w h hw
    obtain ⟨ht, hrest⟩ := ignoresStyle_cons_iff.1 h
    obtain ⟨first, others, hfirst, hothers, rfl⟩ := result_dispatchOperandsAfter_cons_eq_ok hw
    refine ignoresStyle_append_iff.2 ⟨?_, ih _ _ hrest hothers⟩
    rcases hfirst with hfirst | rfl
    · exact ignoresStyle_of_dispatch hr (result_dispatch_singleton_eq_ok hfirst)
    · exact ht

theorem ignoresStyle_of_evaluateOperands {scope : Scope} {asked : Bool}
    (hr : scope.registry.GivesLiterals) (h : v.IgnoresStyle scope.registry)
    (hw : (evaluateOperands scope site asked v).result = .ok w) :
    w.IgnoresStyle scope.registry := by
  rw [result_evaluateOperands_eq_ok_iff] at hw
  split at hw
  · obtain ⟨operands, hoperands, heval⟩ := hw
    have hcalls := ignoresStyle_of_dispatchOperandsAfter hr v none operands h hoperands
    exact ignoresStyle_of_evaluate hcalls heval
  · exact hw ▸ h

end Value

/-! ## Calling functions in two styles -/

theorem Scope.invoke_style (h : ∀ g, registry.find? name = some g → g.IgnoresStyle)
    (s s' : Style) (v : Value) :
    Scope.invoke ⟨registry, s⟩ site name v = Scope.invoke ⟨registry, s'⟩ site name v := by
  unfold invoke
  cases hg : registry.find? name with
  | none => rfl
  | some g => simp only [h g hg _ s s']

namespace Value

theorem dispatch_style (s s' : Style) (h : v.IgnoresStyle registry) :
    Value.dispatch ⟨registry, s⟩ site v = Value.dispatch ⟨registry, s'⟩ site v := by
  induction v using Value.induction with
  | nil => rw [dispatch_nil, dispatch_nil]
  | call name ps rest ihps ihrest =>
    obtain ⟨hcall, hrest⟩ := ignoresStyle_cons_iff.1 h
    obtain ⟨hps, hname⟩ := ignoresStyle_call_iff.1 hcall
    simp only [Value.dispatch, Term.dispatch, ihps hps, ihrest hrest, Scope.invoke_style hname s s']
  | other t rest ht ih =>
    have hrest := (ignoresStyle_cons_iff.1 h).2
    simp only [Value.dispatch, dispatch_of_isCall_eq_false ht, ih hrest]

theorem dispatchTerm_style {t : Term} (s s' : Style) (h : IgnoresStyle registry [t]) :
    t.dispatch ⟨registry, s⟩ site = t.dispatch ⟨registry, s'⟩ site := by
  cases t with
  | call name ps =>
    obtain ⟨hps, hname⟩ := ignoresStyle_call_iff.1 h
    simp only [Term.dispatch, dispatch_style s s' hps, Scope.invoke_style hname s s']
  | _ => rw [dispatch_of_isCall_eq_false rfl, dispatch_of_isCall_eq_false rfl]

theorem dispatchOperandsAfter_style (s s' : Style) (v : Value) :
    ∀ left, v.IgnoresStyle registry →
      dispatchOperandsAfter ⟨registry, s⟩ site left v =
        dispatchOperandsAfter ⟨registry, s'⟩ site left v := by
  induction v with
  | nil =>
    intro left _
    rw [dispatchOperandsAfter, dispatchOperandsAfter]
  | cons t rest ih =>
    intro left h
    obtain ⟨ht, hrest⟩ := ignoresStyle_cons_iff.1 h
    simp only [dispatchOperandsAfter, dispatchOperand, dispatchTerm_style s s' ht, ih _ hrest]

theorem evaluateOperands_style (s s' : Style) (asked : Bool) (h : v.IgnoresStyle registry) :
    evaluateOperands ⟨registry, s⟩ site asked v = evaluateOperands ⟨registry, s'⟩ site asked v := by
  simp only [evaluateOperands, dispatchOperands, dispatchOperandsAfter_style s s' v none h]

end Value

/-! ## Resolving in two styles -/

namespace Value

theorem texts_classify (v : Value) : v.classify.texts = v.texts :=
  classifyAfter_eq (fun _ _ => by rw [texts]) (fun _ _ _ h => by rw [Term.texts, Term.texts, h])
    (fun _ => rfl) (fun _ => rfl) v _ _

theorem substitute_style (t : Variables) (s s' : Style) (h : v.Unmarked) :
    v.substitute t s = v.substitute t s' := by
  induction v using Value.induction with
  | nil => rw [Value.substitute, Value.substitute]
  | call name ps rest ihps ihrest =>
    have hps := ihps fun text ht => h text (by simp [texts, Term.texts, ht])
    have hrest := ihrest fun text ht => h text (by simp [texts, ht])
    simp only [Value.substitute, Term.substitute, hps, hrest]
  | other first rest hcall ih =>
    have hrest := ih fun text ht => h text (by simp [texts, ht])
    have hfirst : first.substitute t s = first.substitute t s' := by
      cases first with
      | call => cases hcall
      | word text =>
        have htext := h text (by simp [texts, Term.texts])
        simp only [Term.substitute, Variables.interpolate_of_unmarked htext]
      | string text =>
        have htext := h text (by simp [texts, Term.texts])
        simp only [Term.substitute, Variables.interpolate_of_unmarked htext]
      | _ => rw [Term.substitute, Term.substitute] <;> simp
    rw [Value.substitute, Value.substitute, hfirst, hrest]

/-- A resolution is the same in all styles, down to its journal. -/
theorem resolve_style (hr : registry.GivesLiterals) (htable : table.IgnoresStyle registry)
    (hunmarked : v.Unmarked) (h : v.IgnoresStyle registry) (s s' : Style) :
    v.resolve ⟨registry, s⟩ table site = v.resolve ⟨registry, s'⟩ table site := by
  have hclassified : v.classify.Unmarked := by
    unfold Unmarked
    rw [texts_classify]
    exact hunmarked
  have hterms := ignoresStyle_substitute s' htable (ignoresStyle_classify h)
  simp only [resolve, substitute_style table s s' hclassified, evaluateOperands_style s s' _ hterms]
  refine bind_congr fun _ => Outcome.bind_congr_of_result fun e he => ?_
  exact dispatch_style s s' (ignoresStyle_of_evaluateOperands hr hterms he)

theorem ignoresStyle_of_resolve {scope : Scope} (hr : scope.registry.GivesLiterals)
    (h : (v.resolve scope table site).result = .ok w) : w.IgnoresStyle scope.registry := by
  obtain ⟨e, -, hw⟩ := result_resolve_eq_ok_iff.1 h
  exact ignoresStyle_of_dispatch hr hw

end Value

theorem Variables.IgnoresStyle.bind (htable : table.IgnoresStyle registry)
    (h : v.IgnoresStyle registry) : (table.bind name v).IgnoresStyle registry := by
  intro other value hvalue
  rw [Variables.bind, Names.find?_insert] at hvalue
  split at hvalue
  · cases hvalue
    exact h
  · exact htable other value hvalue

theorem Declaration.resolve_style {d : Declaration} (hr : registry.GivesLiterals)
    (htable : table.IgnoresStyle registry) (hproperty : Template.Unmarked d.property.toList)
    (hunmarked : d.value.Unmarked) (h : d.value.IgnoresStyle registry) (s s' : Style) :
    d.resolve ⟨registry, s⟩ table = d.resolve ⟨registry, s'⟩ table := by
  simp only [Declaration.resolve, Variables.interpolate_of_unmarked hproperty,
    Value.resolve_style hr htable hunmarked h s s']

/-! ## Settling in two styles -/

namespace Bindings

variable {bindings : Bindings}

/-- In the values as written no marker can start, and they ignore the style. -/
def IgnoresStyle (registry : Registry) (bindings : Bindings) : Prop :=
  ∀ name b, bindings.find? name = some b →
    b.expression.Unmarked ∧ b.expression.IgnoresStyle registry

/-- Settling is the same in all styles, and leaves no call that could still be made. -/
theorem settleNames_style (hr : registry.GivesLiterals) (hb : bindings.IgnoresStyle registry)
    (s s' : Style) (path names : List String) (table : Variables)
    (htable : table.IgnoresStyle registry) :
    bindings.settleNames ⟨registry, s⟩ path names table =
        bindings.settleNames ⟨registry, s'⟩ path names table ∧
      ∀ table', (bindings.settleNames ⟨registry, s⟩ path names table).result = .ok table' →
        table'.IgnoresStyle registry := by
  -- Both facts are needed at once: what is settled later is the same only if the values that were
  -- settled before bring in no call that asks for the style.
  fun_induction settleNames bindings ⟨registry, s⟩ path names table with
  | case1 path table =>
    refine ⟨settleNames_nil.symm, ?_⟩
    rintro table' ⟨⟩
    exact htable
  | case2 path table name rest hbound ih =>
    rw [settleNames_of_binds hbound]
    exact ih htable
  | case3 path table name rest hbound hnone ih =>
    rw [settleNames_of_undeclared hnone]
    exact ih htable
  | case4 path table name rest hbound b hfind hp =>
    rw [settleNames_of_mem_path (Bool.eq_false_iff.2 hbound) hfind hp]
    refine ⟨rfl, ?_⟩
    rintro table' ⟨⟩
  | case5 path table name rest hbound b hfind hp _ ihrefs ihrest =>
    obtain ⟨hrefs, hsettled⟩ := ihrefs htable
    obtain ⟨hunmarked, hcalls⟩ := hb name b hfind
    rw [settleNames_of_declared (Bool.eq_false_iff.2 hbound) hfind hp, ← hrefs]
    simp only [settleOne, hfind, bind_assoc, pure_bind]
    constructor
    · refine Outcome.bind_congr_of_result fun t ht => ?_
      rw [Value.resolve_style hr (hsettled t ht) hunmarked hcalls s' s]
      refine Outcome.bind_congr_of_result fun value hvalue => bind_congr fun _ => ?_
      have hvalue := Value.ignoresStyle_of_resolve hr hvalue
      exact (ihrest t value ((hsettled t ht).bind hvalue)).1
    · intro table' h
      simp only [Outcome.result_bind_eq_ok_iff] at h
      obtain ⟨t, ht, value, hvalue, -, -, hrest⟩ := h
      have hvalue := Value.ignoresStyle_of_resolve hr hvalue
      exact (ihrest t value ((hsettled t ht).bind hvalue)).2 table' hrest

end Bindings

/-! ## Compiling with different options -/

/-- No marker can start in the value, and it does not call `unquote`. -/
structure Value.MakesNoText (v : Value) : Prop where
  unmarked : v.Unmarked
  unquote : "unquote" ∉ v.calls

/-- No value of the stylesheet is turned into text before the text is written: no marker can start
anywhere, and `unquote` is not called. -/
structure Stylesheet.MakesNoText (sheet : Stylesheet) : Prop where
  properties : ∀ d ∈ sheet.declarations, Template.Unmarked d.property.toList
  values : ∀ d ∈ sheet.declarations, d.value.MakesNoText
  expressions : ∀ d ∈ sheet.variableDeclarations, d.expression.MakesNoText

theorem Value.MakesNoText.ignoresStyle (h : v.MakesNoText) : v.IgnoresStyle .builtin := by
  intro name hname g hg
  obtain ⟨hmem, rfl⟩ := Registry.find?_builtin hg
  apply Generator.ignoresStyle_of_mem_builtins g hmem
  intro hunquote
  exact h.unquote (hunquote ▸ hname)

theorem Stylesheet.MakesNoText.bindings {sheet : Stylesheet} {bindings : Bindings}
    (h : sheet.MakesNoText) (hcollect : Bindings.collect sheet = .ok bindings) :
    bindings.IgnoresStyle .builtin := by
  intro name b hb
  obtain ⟨d, -, hd, rfl⟩ := Bindings.exists_effective_of_find? hcollect hb
  exact ⟨(h.expressions d hd).unmarked, (h.expressions d hd).ignoresStyle⟩

namespace Compiler

variable {c c' : Compiler} {sheet : Stylesheet}

/-- The style enters a share through the resolution and through the line. -/
theorem share_congr {d : Declaration} (h : d.resolve c.scope table = d.resolve c'.scope table) :
    (c.share table d).diagnostics = (c'.share table d).diagnostics ∧
      (c.share table d).declaration d = (c'.share table d).declaration d := by
  simp only [Share.diagnostics, Share.declaration, share, h, and_self]

/-- Once the variables are settled alike, compilations that resolve the declarations alike differ in
their text at most. -/
theorem compileInPlace_congr {bindings : Bindings} (hcollect : Bindings.collect sheet = .ok bindings)
    (hsettle : bindings.settle c.scope = bindings.settle c'.scope)
    (hresolve : ∀ table, (bindings.settle c.scope).result = .ok table →
      ∀ d ∈ sheet.declarations, d.resolve c.scope table = d.resolve c'.scope table) :
    (c.compileInPlace sheet).1.map Compilation.diagnostics =
        (c'.compileInPlace sheet).1.map Compilation.diagnostics ∧
      (c.compileInPlace sheet).2 = (c'.compileInPlace sheet).2 := by
  cases hresult : (bindings.settle c.scope).result with
  | error e =>
    have hresult' := hsettle ▸ hresult
    rw [compileInPlace_eq_error_iff.2 ⟨rfl, .inr ⟨bindings, hcollect, hresult⟩⟩,
      compileInPlace_eq_error_iff.2 ⟨rfl, .inr ⟨bindings, hcollect, hresult'⟩⟩]
    exact ⟨rfl, rfl⟩
  | ok table =>
    have hshare := fun d hd => share_congr (hresolve table hresult d hd)
    rw [compileInPlace_eq_shares hcollect hresult,
      compileInPlace_eq_shares hcollect (hsettle ▸ hresult), hsettle]
    constructor
    · have hreports := List.flatMap_congr fun d hd => (hshare d hd).1
      simp only [Except.map, hreports]
    · refine List.map_congr_left fun statement hstatement => ?_
      cases statement with
      | «variable» => rfl
      | declaration d =>
        have hd : d ∈ sheet.declarations := List.mem_filterMap.2 ⟨_, hstatement, rfl⟩
        rw [replacement, replacement, (hshare d hd).2]

/-- **Options change the text and nothing else.**  With the built-in functions, a stylesheet that
makes no text on the way is compiled alike with any two sets of options: both compilations succeed
with the same diagnostics, or both fail for the same reason, and they leave the same statements. -/
theorem compileInPlace_style (options options' : Options) (h : sheet.MakesNoText) :
    ((Compiler.mk options .builtin).compileInPlace sheet).1.map Compilation.diagnostics =
        ((Compiler.mk options' .builtin).compileInPlace sheet).1.map Compilation.diagnostics ∧
      ((Compiler.mk options .builtin).compileInPlace sheet).2 =
        ((Compiler.mk options' .builtin).compileInPlace sheet).2 := by
  have hr := Registry.builtin_givesLiterals
  cases hcollect : Bindings.collect sheet with
  | error e =>
    rw [compileInPlace_eq_error_iff.2 ⟨rfl, .inl hcollect⟩,
      compileInPlace_eq_error_iff.2 ⟨rfl, .inl hcollect⟩]
    exact ⟨rfl, rfl⟩
  | ok bindings =>
    obtain ⟨hsettle, hsettled⟩ := Bindings.settleNames_style hr (h.bindings hcollect) options.output
      options'.output [] bindings.keys Names.empty nofun
    refine compileInPlace_congr hcollect hsettle fun table htable d hd => ?_
    exact Declaration.resolve_style hr (hsettled table htable) (h.properties d hd)
      (h.values d hd).unmarked (h.values d hd).ignoresStyle _ _

/-- A third of a length, a text made by a function, a comment, and a declaration that fails. -/
def thirds : Stylesheet :=
  [.variable ⟨"gap", [.dimension 10 "px", .operator .div, .number 3], false, some 1⟩,
    .variable ⟨"face", [.call "quote" [.word "serif"]], false, some 2⟩,
    .declaration ⟨"margin", [.variable "gap", .operator .mul, .number 2], false,
      some "/* even */", some 3⟩,
    .declaration ⟨"font", [.variable "gap", .variable "face"], false, none, some 4⟩,
    .declaration ⟨"width", [.variable "gap", .operator .div, .number 0], false, none, some 5⟩]

theorem makesNoText_thirds : thirds.MakesNoText where
  properties := by decide
  values := by
    show ∀ d ∈ [_, _, _], _
    simp only [List.forall_mem_cons]
    exact ⟨⟨by decide, by decide⟩, ⟨by decide, by decide⟩, ⟨by decide, by decide⟩, nofun⟩
  expressions := by
    show ∀ d ∈ [_, _], _
    simp only [List.forall_mem_cons]
    exact ⟨⟨by decide, by decide⟩, ⟨by decide, by decide⟩, nofun⟩

/-- Whole numbers without comments, or numbers in full with them: the values are the same. -/
theorem compileInPlace_style_thirds :
    thirds.MakesNoText ∧
      ((Compiler.mk ⟨0, false, .standard⟩ .builtin).compileInPlace thirds).1.map
          Compilation.diagnostics =
        ((Compiler.mk ⟨9, true, .diagnostic⟩ .builtin).compileInPlace thirds).1.map
          Compilation.diagnostics ∧
      ((Compiler.mk ⟨0, false, .standard⟩ .builtin).compileInPlace thirds).2 =
        ((Compiler.mk ⟨9, true, .diagnostic⟩ .builtin).compileInPlace thirds).2 :=
  ⟨makesNoText_thirds, compileInPlace_style _ _ makesNoText_thirds⟩

end Compiler

end Scss
