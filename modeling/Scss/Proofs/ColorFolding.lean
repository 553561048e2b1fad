import Mathlib
import Scss.Proofs.Builtins
import Scss.Proofs.LiteralValues
import Scss.Proofs.PassiveTerms
import Scss.Value.Read

/-!
# Colours that are folded early

The reader makes colours of the calls of `rgb` and `rgba` with literal arguments; a resolution would
make the same colours when it calls functions.  Which of the two comes first does not matter.

A value is compared with its folded form, in which all such calls are colours.  Calling functions
does not tell the two apart, since inner calls are made first (`Value.dispatch_fold`).  The steps
before only have to keep the folded form the same.  Telling slashes apart and substituting do not
look at calls, and neither does an evaluation, which passes over what is neither a number nor an
operator (`Term.passive_fold`).  There is one difference on the way.  A registered call beside an
operator is made before the evaluation and one elsewhere after it, while a colour is a colour from
the start; but then the folded forms of the two are still equal.

## Main definitions

* `Term.isColorArgument`: the terms that `foldColor` takes for literal arguments
* `Term.fold`, `Value.fold`: the folded form, at any depth

## Main results

* `foldColor_eq`: a call that is folded is a call that gives the colour, in any style
* `Value.classify_fold`, `Value.fold_substitute`, `Value.map_fold_dispatchOperands`,
  `Value.dispatch_fold`: the steps of a resolution and the folded form
* `Value.resolve_fold`: a value and its folded form are resolved alike
-/

namespace Scss

/-! ## Calls that are folded -/

/-- Whether the term is a literal argument: a number, a colour, or the comma between two of them. -/
def Term.isColorArgument : Term → Bool
  | .number _ | .dimension _ _ | .color _ | .separator .comma => true
  | _ => false

namespace Generator

/-- What a function gives, if it gives anything, is one colour, and the style does not matter. -/
structure GivesColor (g : Generator) : Prop where
  color : ∀ call style out, g.apply call style = .ok out → ∃ c, out = colorResult c
  style : ∀ call style style', g.apply call style = g.apply call style'

theorem givesColor_rgb : rgb.GivesColor where
  style _ _ _ := rfl
  color call style out h := by
    obtain ⟨arguments, -, h⟩ := bind_eq_ok_iff.1 h
    obtain ⟨r, -, h⟩ := bind_eq_ok_iff.1 h
    obtain ⟨g, -, h⟩ := bind_eq_ok_iff.1 h
    obtain ⟨b, -, h⟩ := bind_eq_ok_iff.1 h
    exact ⟨_, (Except.ok.inj h).symm⟩

theorem givesColor_rgba : rgba.GivesColor where
  style _ _ _ := rfl
  color call style out h := by
    obtain ⟨arguments, -, h⟩ := bind_eq_ok_iff.1 h
    split at h
    · obtain ⟨c, -, h⟩ := bind_eq_ok_iff.1 h
      obtain ⟨alpha, -, h⟩ := bind_eq_ok_iff.1 h
      exact ⟨_, (Except.ok.inj h).symm⟩
    · obtain ⟨r, -, h⟩ := bind_eq_ok_iff.1 h
      obtain ⟨g, -, h⟩ := bind_eq_ok_iff.1 h
      obtain ⟨b, -, h⟩ := bind_eq_ok_iff.1 h
      obtain ⟨alpha, -, h⟩ := bind_eq_ok_iff.1 h
      exact ⟨_, (Except.ok.inj h).symm⟩
    · cases h

end Generator

/-- The call has literal arguments, and its built-in function makes the colour `c` of them. -/
structure FoldsTo (name : String) (parameters : Value) (c : Color) : Prop where
  arguments : parameters.all Term.isColorArgument = true
  call : ∃ g, Registry.builtin.find? name = some g ∧
    ∀ style, g.apply ⟨name, parameters⟩ style = .ok (Generator.colorResult c)

/-- A call is folded into the colour that it gives when it is made, or stays. -/
theorem foldColor_eq (name : String) (parameters : Value) :
    foldColor name parameters = .call name parameters ∨
      ∃ c, foldColor name parameters = .color c ∧ FoldsTo name parameters c := by
  unfold foldColor
  dsimp only
  split
  · exact .inl rfl
  · rename_i g hgenerator
    -- The reader tries two functions, and both are found under their names in the registry.
    have hg : g.GivesColor ∧ Registry.builtin.find? name = some g := by
      split at hgenerator
      · subst name
        cases hgenerator
        exact ⟨Generator.givesColor_rgb,
          Registry.find?_builtin_of_mem (g := .rgb) (by simp [Generator.builtins])⟩
      · split at hgenerator
        · subst name
          cases hgenerator
          exact ⟨Generator.givesColor_rgba,
            Registry.find?_builtin_of_mem (g := .rgba) (by simp [Generator.builtins])⟩
        · cases hgenerator
    obtain ⟨hcolor, hfind⟩ := hg
    split
    · rename_i hall
      split
      · rename_i c others happly
        obtain ⟨c', hc'⟩ := hcolor.color _ _ _ happly
        cases hc'
        exact .inr ⟨c, rfl, hall, g, hfind, fun style =>
          (hcolor.style _ style .standard).trans happly⟩
      · exact .inl rfl
    · exact .inl rfl

/-! ## The folded form -/

mutual

/-- A term with the calls in it folded, inner ones first. -/
def Term.fold : Term → Term
  | .call name parameters => foldColor name (Value.fold parameters)
  | t => t

/-- A value with the calls in it folded, at any depth. -/
def Value.fold : Value → Value
  | [] => []
  | t :: rest => t.fold :: Value.fold rest

end

namespace Term

variable {t : Term}

theorem fold_call (name : String) (parameters : Value) :
    (Term.call name parameters).fold = foldColor name parameters.fold := by
  rw [fold]

theorem fold_of_isCall_eq_false (h : t.isCall = false) : t.fold = t := by
  cases t with
  | call => cases h
  | _ => rw [fold]; simp

/-- A folded term is the same call with its parameters folded, or a colour, or no call at all. -/
theorem fold_cases (t : Term) :
    (∃ name, ∃ ps : Value, t = .call name ps ∧ t.fold = .call name ps.fold) ∨
    (∃ name, ∃ ps : Value, ∃ c, t = .call name ps ∧ t.fold = .color c ∧ FoldsTo name ps.fold c) ∨
    (t.isCall = false ∧ t.fold = t) := by
  cases t with
  | call name parameters =>
    rw [fold_call]
    rcases foldColor_eq name (Value.fold parameters) with h | ⟨c, hc, hfolds⟩
    · exact .inl ⟨name, parameters, rfl, h⟩
    · exact .inr (.inl ⟨name, parameters, c, rfl, hc, hfolds⟩)
  | _ => exact .inr (.inr ⟨rfl, fold_of_isCall_eq_false rfl⟩)

theorem sameRole_fold (t : Term) : SameRole t t.fold := by
  rcases t.fold_cases with ⟨name, ps, rfl, h⟩ | ⟨name, ps, c, rfl, h, -⟩ | ⟨-, h⟩
  · rw [h]
    exact sameRole_call _ _ _ _
  · rw [h]
    exact ⟨rfl, rfl, fun _ _ => rfl⟩
  · rw [h]
    exact sameRole_refl t

theorem isAnyOperator_fold (t : Term) : t.fold.isAnyOperator = t.isAnyOperator := by
  rcases t.fold_cases with ⟨name, ps, rfl, h⟩ | ⟨name, ps, c, rfl, h, -⟩ | ⟨-, h⟩
  · rw [h]
    rfl
  · rw [h]
    rfl
  · rw [h]

end Term

namespace Value

variable {v w : Value}

theorem fold_eq_map (v : Value) : v.fold = v.map Term.fold := by
  induction v with
  | nil => rw [fold]; rfl
  | cons t rest ih => rw [fold, ih, List.map_cons]

theorem fold_append (v w : Value) : Value.fold (v ++ w) = v.fold ++ w.fold := by
  simp only [fold_eq_map, List.map_append]

theorem isCall_of_arguments (h : v.all Term.isColorArgument = true) :
    ∀ t ∈ v, t.isCall = false := by
  intro t ht
  have hargument := List.all_eq_true.1 h t ht
  cases t with
  | call => cases hargument
  | _ => rfl

/-- Literal arguments have no calls to be folded. -/
theorem fold_of_arguments (h : v.all Term.isColorArgument = true) : v.fold = v := by
  rw [fold_eq_map]
  calc v.map Term.fold
      = v.map id :=
        List.map_congr_left fun t ht => Term.fold_of_isCall_eq_false (isCall_of_arguments h t ht)
    _ = v := List.map_id v

/-- What is folded stays as it is. -/
theorem fold_fold (v : Value) : v.fold.fold = v.fold := by
  induction v using Value.induction with
  | nil => simp only [fold]
  | call name parameters rest ihparameters ihrest =>
    rw [fold, fold, ihrest, Term.fold_call]
    congr 1
    rcases foldColor_eq name parameters.fold with h | ⟨c, hc, -⟩
    · rw [h, Term.fold_call, ihparameters, h]
    · rw [hc, Term.fold_of_isCall_eq_false rfl]
  | other t rest ht ih => rw [fold, fold, ih, Term.fold_of_isCall_eq_false ht,
      Term.fold_of_isCall_eq_false ht]

/-! ## Telling slashes apart -/

theorem classifyAfter_of_arguments (v : Value) :
    ∀ left busy, v.all Term.isColorArgument = true → classifyAfter left busy v = v := by
  induction v with
  | nil =>
    intro left busy _
    rw [classifyAfter]
  | cons t rest ih =>
    intro left busy h
    obtain ⟨ht, hrest⟩ := Bool.and_eq_true_iff.1 h
    rw [classifyAfter, ih _ _ hrest]
    cases t with
    | call | operator => cases ht
    | _ => rfl

/-- Slashes are no literal arguments, before and after they are told apart. -/
theorem all_isColorArgument_classifyAfter (v : Value) :
    ∀ left busy, (classifyAfter left busy v).all Term.isColorArgument =
      v.all Term.isColorArgument := by
  induction v with
  | nil =>
    intro left busy
    rw [classifyAfter]
  | cons t rest ih =>
    intro left busy
    rw [classifyAfter, List.all_cons, List.all_cons, ih]
    congr 1
    cases t with
    | call name parameters => rw [Term.classify]; rfl
    | operator o =>
      split
      · rfl
      · rw [Term.classify_of_isCall_eq_false rfl]
    | _ => rfl

/-- Whether a call is folded is the same before and after slashes are told apart. -/
theorem classify_foldColor (name : String) (parameters : Value) :
    (foldColor name parameters).classify = foldColor name parameters.classify := by
  cases hall : parameters.all Term.isColorArgument with
  | true =>
    have hsame : parameters.classify = parameters :=
      classifyAfter_of_arguments parameters none _ hall
    rw [hsame]
    rcases foldColor_eq name parameters with h | ⟨c, hc, -⟩
    · rw [h, Term.classify]
      exact congrArg _ hsame
    · rw [hc, Term.classify_of_isCall_eq_false rfl]
  | false =>
    -- Without literal arguments neither call is folded.
    have hstays : ∀ w : Value, w.all Term.isColorArgument = false →
        foldColor name w = .call name w := by
      intro w hw
      rcases foldColor_eq name w with h | ⟨c, -, hfolds⟩
      · exact h
      · rw [hfolds.arguments] at hw
        cases hw
    have hclassified : parameters.classify.all Term.isColorArgument = false :=
      (all_isColorArgument_classifyAfter parameters none _).trans hall
    rw [hstays _ hall, hstays _ hclassified, Term.classify]
    rfl

theorem forall₂_sameRole_fold (v : Value) : List.Forall₂ Term.SameRole v v.fold := by
  rw [fold_eq_map, List.forall₂_map_right_iff, List.forall₂_same]
  exact fun t _ => t.sameRole_fold

theorem classifyAfter_fold (v : Value) :
    ∀ left left' busy, Option.Rel Term.SameRole left left' →
      classifyAfter left' busy v.fold = (classifyAfter left busy v).fold := by
  induction v using Value.induction with
  | nil =>
    intro left left' busy _
    simp only [fold, classifyAfter]
  | call name parameters rest ihparameters ihrest =>
    intro left left' busy hleft
    have hrole := (Term.call name parameters).sameRole_fold
    have hhead : (Term.call name parameters).fold.classify =
        (Term.call name parameters).classify.fold := by
      rw [Term.fold_call, classify_foldColor, Term.classify, Term.fold_call, classify,
        ← segmentHasOperator_congr (forall₂_sameRole_fold parameters),
        ihparameters none none _ .none]
    -- A call is no slash, and no slash is made of it.
    have hdiv : (Term.call name parameters).fold.isOperator .div = false := by
      rcases (Term.call name parameters).fold_cases with ⟨_, _, -, h⟩ | ⟨_, _, _, -, h, -⟩ | ⟨h, -⟩
      · rw [h]
        rfl
      · rw [h]
        rfl
      · cases h
    rw [fold, classifyAfter, classifyAfter, fold, hdiv, ← hrole.isComma]
    simp only [Term.isOperator, Bool.false_and, Bool.false_eq_true, if_false, Term.isComma, hhead]
    rw [ihrest _ _ _ (.some hrole)]
  | other t rest ht ih =>
    intro left left' busy hleft
    -- A slash is judged by the same roles on both sides.
    have hdivides := divides_congr busy hleft (rel_head? (forall₂_sameRole_fold rest))
    have hsegment := segmentHasOperator_congr (forall₂_sameRole_fold rest)
    rw [fold, classifyAfter, classifyAfter, fold, Term.fold_of_isCall_eq_false ht, ← hdivides,
      ← hsegment, ih _ _ _ (.some (Term.sameRole_refl t)), Term.classify_of_isCall_eq_false ht]
    congr 1
    split
    · rw [Term.fold_of_isCall_eq_false rfl]
    · rw [Term.fold_of_isCall_eq_false ht]

/-- Folding and telling slashes apart can change places. -/
theorem classify_fold (v : Value) : v.fold.classify = v.classify.fold := by
  unfold classify
  rw [← segmentHasOperator_congr (forall₂_sameRole_fold v)]
  exact classifyAfter_fold v none none _ .none

theorem hasArithmetic_fold (v : Value) : v.fold.hasArithmetic = v.hasArithmetic := by
  rw [hasArithmetic, fold_eq_map, List.any_map, hasArithmetic]
  exact congrArg v.any (funext Term.isAnyOperator_fold)

/-! ## Substituting -/

theorem literal_of_arguments (registry : Registry) (h : v.all Term.isColorArgument = true) :
    v.Literal registry := by
  induction v with
  | nil => exact ⟨rfl, by simp [Unmarked, texts], by simp [calls]⟩
  | cons t rest ih =>
    obtain ⟨ht, hrest⟩ := Bool.and_eq_true_iff.1 h
    have hliteral := ih hrest
    cases t with
    | number | dimension | color | separator =>
      exact ⟨hliteral.references, hliteral.unmarked, hliteral.calls⟩
    | _ => cases ht

/-- After a substitution a call and its folded form have the same folded form. -/
theorem fold_substitute_foldColor (table : Variables) (style : Style) (name : String)
    (parameters : Value) :
    ((foldColor name parameters).substitute table style).terms.fold =
        [foldColor name (parameters.substitute table style).terms.fold] ∧
      ((foldColor name parameters).substitute table style).unbound =
        (parameters.substitute table style).unbound := by
  rcases foldColor_eq name parameters with h | ⟨c, hc, hfolds⟩
  · rw [h, Term.substitute, fold, Term.fold_call]
    simp only [fold, and_self]
  · -- Literal arguments are neither substituted nor folded.
    rw [hc, substitute_of_literal table style (literal_of_arguments .builtin hfolds.arguments),
      fold_of_arguments hfolds.arguments, hc, Term.substitute]
    · simp only [fold, Term.fold, and_self]
    all_goals simp

theorem fold_substitute (table : Variables) (style : Style) (v : Value) :
    (v.fold.substitute table style).terms.fold = (v.substitute table style).terms.fold ∧
      (v.fold.substitute table style).unbound = (v.substitute table style).unbound := by
  induction v using Value.induction with
  | nil => rw [fold]; exact ⟨rfl, rfl⟩
  | call name parameters rest ihparameters ihrest =>
    obtain ⟨hterms, hunbound⟩ := fold_substitute_foldColor table style name parameters.fold
    rw [fold, Term.fold_call, Value.substitute, Value.substitute, Term.substitute]
    simp only [fold_append, hterms, hunbound, ihparameters, ihrest, fold, Term.fold_call,
      List.cons_append, List.nil_append, and_self]
  | other t rest ht ih =>
    rw [fold, Term.fold_of_isCall_eq_false ht, Value.substitute, Value.substitute]
    simp only [fold_append, ih, and_self]

end Value

/-! ## Calling functions -/

section Dispatch

variable {scope : Scope} {site : Site}

theorem Value.dispatch_of_no_call {v : Value} (h : ∀ t ∈ v, t.isCall = false) :
    Value.dispatch scope site v = pure v := by
  induction v with
  | nil => exact dispatch_nil
  | cons t rest ih =>
    obtain ⟨ht, hrest⟩ := List.forall_mem_cons.1 h
    rw [Value.dispatch, dispatch_of_isCall_eq_false ht, ih hrest]
    rfl

theorem Value.hasArithmetic_of_arguments {v : Value} (h : v.all Term.isColorArgument = true) :
    v.hasArithmetic = false := by
  rw [hasArithmetic, List.any_eq_false]
  intro t ht hoperator
  have hargument := List.all_eq_true.1 h t ht
  cases t with
  | operator => cases hargument
  | _ => cases hoperator

/-- A call that is folded gives its colour when it is made. -/
theorem Scope.invoke_of_foldsTo (hscope : scope.registry = .builtin) {name : String}
    {parameters : Value} {c : Color} (h : FoldsTo name parameters c) :
    scope.invoke site name parameters = pure [.color c] := by
  obtain ⟨g, hg, happly⟩ := h.call
  unfold invoke Site.evaluateParameters
  rw [hscope, hg, Value.hasArithmetic_of_arguments h.arguments]
  simp only [Bool.false_eq_true, if_false, pure_bind, happly]
  rfl

/-- Making a call or its folded form is the same. -/
theorem Term.dispatch_foldColor (hscope : scope.registry = .builtin) (name : String)
    (parameters : Value) :
    (foldColor name parameters).dispatch scope site =
      (Term.call name parameters).dispatch scope site := by
  rcases foldColor_eq name parameters with h | ⟨c, hc, hfolds⟩
  · rw [h]
  · rw [hc, Value.dispatch_of_isCall_eq_false rfl, Term.dispatch,
      Value.dispatch_of_no_call (Value.isCall_of_arguments hfolds.arguments), pure_bind,
      Scope.invoke_of_foldsTo hscope hfolds]

/-- Calling the functions of a value or of its folded form is the same, down to the journal. -/
theorem Value.dispatch_fold (hscope : scope.registry = .builtin) (v : Value) :
    Value.dispatch scope site v.fold = Value.dispatch scope site v := by
  induction v using Value.induction with
  | nil => rw [fold]
  | call name parameters rest ihparameters ihrest =>
    rw [fold, Term.fold_call, Value.dispatch, Term.dispatch_foldColor hscope, Term.dispatch,
      ihparameters, ihrest, Value.dispatch, Term.dispatch]
  | other t rest ht ih =>
    rw [fold, Term.fold_of_isCall_eq_false ht, Value.dispatch, ih, Value.dispatch]

theorem Value.dispatch_congr_of_fold (hscope : scope.registry = .builtin) {v w : Value}
    (h : v.fold = w.fold) : Value.dispatch scope site v = Value.dispatch scope site w := by
  rw [← Value.dispatch_fold hscope v, h, Value.dispatch_fold hscope]

theorem Term.dispatch_fold (hscope : scope.registry = .builtin) (t : Term) :
    t.fold.dispatch scope site = t.dispatch scope site := by
  cases t with
  | call name parameters =>
    rw [fold_call, dispatch_foldColor hscope, Term.dispatch, Value.dispatch_fold hscope,
      Term.dispatch]
  | _ => rw [fold_of_isCall_eq_false rfl]

namespace Value

/-- Beside an operator or not, a term and its folded form have the same folded form afterwards. -/
theorem map_fold_dispatchOperand (hscope : scope.registry = .builtin) (isOperand : Bool)
    (t : Term) :
    fold <$> dispatchOperand scope site isOperand t.fold =
      fold <$> dispatchOperand scope site isOperand t := by
  have hstays : fold <$> (pure [t.fold] : Outcome Value) = fold <$> pure [t] := by
    rw [map_pure, map_pure]
    exact congrArg pure (fold_fold [t])
  unfold dispatchOperand
  rcases t.fold_cases with ⟨name, ps, ht, h⟩ | ⟨name, ps, c, ht, h, -⟩ | ⟨-, h⟩
  · -- The same call, which is made on both sides or on neither.
    have hregistered : isRegisteredCall scope.registry t.fold =
        isRegisteredCall scope.registry t := by
      rw [h, ht]
      rfl
    rw [hregistered]
    split
    · rw [Term.dispatch_fold hscope]
    · exact hstays
  · -- A colour on one side; on the other the call is made, or is folded afterwards.
    have hcolor : isRegisteredCall scope.registry t.fold = false := by
      rw [h]
      rfl
    rw [hcolor, Bool.and_false, if_neg Bool.false_ne_true]
    split
    · rw [← Term.dispatch_fold hscope t, h, dispatch_of_isCall_eq_false rfl]
    · exact hstays
  · rw [h]

theorem map_fold_append (x y : Outcome Value) :
    fold <$> (do
      let a ← x
      let b ← y
      return a ++ b) = (do
      let a ← fold <$> x
      let b ← fold <$> y
      return a ++ b) := by
  simp [fold_append]

theorem isAnyOperator_head?_fold (v : Value) :
    v.fold.head?.any Term.isAnyOperator = v.head?.any Term.isAnyOperator := by
  rw [fold_eq_map, List.head?_map, Option.any_map]
  exact congrArg v.head?.any (funext Term.isAnyOperator_fold)

theorem map_fold_dispatchOperandsAfter (hscope : scope.registry = .builtin) (v : Value) :
    ∀ left left' : Option Term, left'.any Term.isAnyOperator = left.any Term.isAnyOperator →
      fold <$> dispatchOperandsAfter scope site left' v.fold =
        fold <$> dispatchOperandsAfter scope site left v := by
  induction v with
  | nil =>
    intro left left' _
    rw [fold]
    rfl
  | cons t rest ih =>
    intro left left' hleft
    rw [fold, dispatchOperandsAfter, dispatchOperandsAfter, map_fold_append, map_fold_append,
      isAnyOperator_head?_fold, hleft, map_fold_dispatchOperand hscope,
      ih (some t) (some t.fold) t.isAnyOperator_fold]

/-- After the calls beside operators, a value and its folded form have the same folded form. -/
theorem map_fold_dispatchOperands (hscope : scope.registry = .builtin) (v : Value) :
    fold <$> dispatchOperands scope site v.fold = fold <$> dispatchOperands scope site v :=
  map_fold_dispatchOperandsAfter hscope v none none rfl

end Value

end Dispatch

/-! ## Evaluating -/

theorem Term.passive_fold : Term.Passive Term.fold where
  stays t ht := by
    cases t with
    | call => cases ht
    | _ => exact fold_of_isCall_eq_false rfl
  ends t ht := by
    rcases t.fold_cases with ⟨name, ps, -, h⟩ | ⟨name, ps, c, -, h, -⟩ | ⟨-, h⟩
    · rw [h]
      rfl
    · rw [h]
      rfl
    · rw [h, ht]
  isVariable t := t.sameRole_fold.isVariable.symm

theorem Value.toOption_evaluate_fold (v : Value) :
    v.fold.evaluate.toOption = v.evaluate.toOption.map Value.fold := by
  rw [Value.fold_eq_map, Value.toOption_evaluate_map Term.passive_fold]
  exact congrArg (v.evaluate.toOption.map ·) (funext Value.fold_eq_map).symm

/-! ## Resolving -/

section Resolve

variable {scope : Scope} {site : Site}

namespace Value

theorem sameOrFailed_evaluate (hscope : scope.registry = .builtin) {v w : Value}
    (h : v.fold = w.fold) :
    Outcome.SameOrFailed (site.evaluate v >>= Value.dispatch scope site)
      (site.evaluate w >>= Value.dispatch scope site) := by
  -- Only the faults may differ, since they tell what was found in the place of a number.
  have heval : v.evaluate.toOption.map fold = w.evaluate.toOption.map fold := by
    rw [← toOption_evaluate_fold, ← toOption_evaluate_fold, h]
  unfold Site.evaluate
  cases hv : v.evaluate with
  | error fault =>
    cases hw : w.evaluate with
    | error fault' => exact .inr ⟨⟨_, rfl⟩, _, rfl⟩
    | ok w' => rw [hv, hw] at heval; cases heval
  | ok v' =>
    cases hw : w.evaluate with
    | error fault' => rw [hv, hw] at heval; cases heval
    | ok w' =>
      rw [hv, hw] at heval
      have hfold : fold v' = fold w' := Option.some.inj heval
      exact .inl (dispatch_congr_of_fold hscope hfold)

theorem sameOrFailed_evaluateOperands (hscope : scope.registry = .builtin) (asked : Bool)
    {v w : Value} (h : v.fold = w.fold) :
    Outcome.SameOrFailed (evaluateOperands scope site asked v >>= Value.dispatch scope site)
      (evaluateOperands scope site asked w >>= Value.dispatch scope site) := by
  cases asked with
  | true =>
    have hoperands : fold <$> dispatchOperands scope site v =
        fold <$> dispatchOperands scope site w := by
      rw [← map_fold_dispatchOperands hscope v, h, map_fold_dispatchOperands hscope]
    simp only [evaluateOperands, if_true, bind_assoc]
    exact .bind_of_map_eq hoperands fun _ _ => sameOrFailed_evaluate hscope
  | false => exact .inl (dispatch_congr_of_fold hscope h)

theorem sameOrFailed_resolve_fold (hscope : scope.registry = .builtin) (table : Variables)
    (v : Value) :
    Outcome.SameOrFailed (v.fold.resolve scope table site) (v.resolve scope table site) := by
  obtain ⟨hterms, hunbound⟩ := fold_substitute table scope.style v.classify
  unfold resolve
  simp only [classify_fold, hasArithmetic_fold, hunbound]
  exact (sameOrFailed_evaluateOperands hscope _ hterms).after _

/-- **Folding colours early and calling functions late agree.**  In the folded form of a value the
calls of `rgb` and `rgba` with literal arguments are colours, at any depth.  With the built-in
functions, the value and its folded form both fail to resolve, or both are resolved to the same
value with the same diagnostics. -/
theorem resolve_fold (style : Style) (table : Variables) (site : Site) (v : Value) :
    (∃ d e, (v.resolve ⟨.builtin, style⟩ table site).result = .error d ∧
      (v.fold.resolve ⟨.builtin, style⟩ table site).result = .error e) ∨
    ∃ w, (v.resolve ⟨.builtin, style⟩ table site).result = .ok w ∧
      (v.fold.resolve ⟨.builtin, style⟩ table site).result = .ok w ∧
      (v.resolve ⟨.builtin, style⟩ table site).diagnostics =
        (v.fold.resolve ⟨.builtin, style⟩ table site).diagnostics := by
  have hscope : (⟨.builtin, style⟩ : Scope).registry = .builtin := rfl
  rcases sameOrFailed_resolve_fold hscope table v with h | ⟨⟨d, hd⟩, e, he⟩
  · rw [h]
    cases hresult : (v.resolve ⟨.builtin, style⟩ table site).result with
    | error d => exact .inl ⟨d, d, rfl, rfl⟩
    | ok w => exact .inr ⟨w, rfl, rfl, rfl⟩
  · exact .inl ⟨e, d, he, hd⟩

end Value

end Resolve

end Scss
