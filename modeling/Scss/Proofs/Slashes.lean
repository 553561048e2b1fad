import Mathlib
import Scss.Proofs.Values
import Scss.Result
import Scss.Stylesheet.Read

/-!
# Slashes are told apart once

Whether a slash divides hangs on the two terms beside it and on the other operators between its
commas.  Telling slashes apart changes slashes and nothing else, and a slash counts neither as an
operand nor as another operator, whether it divides or separates.  So all that decided about a slash
is still there afterwards, and telling slashes apart again changes nothing.

A comma is no operand either, and what decides about a slash lies between its commas.  So the parts
of a value around a comma are classified on their own.

## Main definitions

* `Term.SameRole`: terms that count the same for the slashes around them
* `Statement.value`: the value of a statement, be it a property or a variable

## Main results

* `Value.divides_congr`, `Value.segmentHasOperator_congr`: what decides about a slash are roles
* `Value.classifyAfter_classifyAfter`: telling slashes apart again changes nothing
* `Value.classify_append_comma`: the parts around a comma are classified on their own
* `Value.classify_of_read`, `Stylesheet.classify_of_read`: the slashes of a value that was read have
  been told apart
-/

namespace Scss

/-! ## What decides about a slash -/

namespace Term

/-- The terms count the same for the slashes around them: both are variables or neither is, both
are commas or neither is, and both are the same operator, if one is an operator other than a
slash. -/
structure SameRole (t u : Term) : Prop where
  isVariable : t.isVariable = u.isVariable
  isComma : t.isComma = u.isComma
  isOperator : ∀ o, o ≠ .div → t.isOperator o = u.isOperator o

variable {t u : Term}

theorem sameRole_refl (t : Term) : SameRole t t :=
  ⟨rfl, rfl, fun _ _ => rfl⟩

/-- An operator other than a slash. -/
theorem isAnyOperator_and_not_div_iff :
    (t.isAnyOperator && !t.isOperator .div) = true ↔ ∃ o, o ≠ .div ∧ t.isOperator o = true := by
  cases t with
  | operator o => simp [isAnyOperator, isOperator]
  | _ => simp [isAnyOperator, isOperator]

theorem SameRole.isOtherOperator (h : SameRole t u) :
    (t.isAnyOperator && !t.isOperator .div) = (u.isAnyOperator && !u.isOperator .div) := by
  rw [Bool.eq_iff_iff, isAnyOperator_and_not_div_iff, isAnyOperator_and_not_div_iff]
  constructor
  · rintro ⟨o, ho, htrue⟩
    exact ⟨o, ho, h.isOperator o ho ▸ htrue⟩
  · rintro ⟨o, ho, htrue⟩
    exact ⟨o, ho, (h.isOperator o ho).symm ▸ htrue⟩

/-- A call counts the same whatever its parameters are. -/
theorem sameRole_call (name name' : String) (v w : Value) :
    SameRole (.call name v) (.call name' w) :=
  ⟨rfl, rfl, fun _ _ => rfl⟩

theorem sameRole_classify (t : Term) : SameRole t t.classify := by
  cases t with
  | call name parameters =>
    rw [classify]
    exact sameRole_call _ _ _ _
  | _ => exact sameRole_refl _

/-- A slash counts the same whether it divides or separates. -/
theorem sameRole_slash (h : t.isOperator .div = true) : SameRole t (.separator .slash) := by
  cases t with
  | operator o =>
    obtain rfl : o = .div := by simpa [isOperator] using h
    refine ⟨rfl, rfl, fun o ho => ?_⟩
    simpa [isOperator] using ho.symm
  | _ => cases h

end Term

namespace Value

variable {v w : Value} {left left' right right' : Option Term} {busy : Bool}

theorem any_congr_of_rel {p : Term → Bool} (hp : ∀ t u, Term.SameRole t u → p t = p u)
    (h : Option.Rel Term.SameRole left left') : left.any p = left'.any p := by
  cases h with
  | none => rfl
  | some htu => exact hp _ _ htu

/-- Whether a slash divides hangs on the roles of the terms beside it. -/
theorem divides_congr (busy : Bool) (hl : Option.Rel Term.SameRole left left')
    (hr : Option.Rel Term.SameRole right right') :
    divides busy left right = divides busy left' right' := by
  have hvariable : ∀ t u, Term.SameRole t u → t.isVariable = u.isVariable :=
    fun _ _ h => h.isVariable
  have hclose : ∀ t u, Term.SameRole t u → t.isOperator .rightParen = u.isOperator .rightParen :=
    fun _ _ h => h.isOperator _ (by simp)
  have hopen : ∀ t u, Term.SameRole t u → t.isOperator .leftParen = u.isOperator .leftParen :=
    fun _ _ h => h.isOperator _ (by simp)
  rw [divides, divides, any_congr_of_rel hvariable hl, any_congr_of_rel hvariable hr,
    any_congr_of_rel hclose hl, any_congr_of_rel hopen hr]

/-- Whether a segment holds another operator hangs on the roles of its terms. -/
theorem segmentHasOperator_congr (h : List.Forall₂ Term.SameRole v w) :
    v.segmentHasOperator = w.segmentHasOperator := by
  unfold segmentHasOperator
  induction h with
  | nil => rfl
  | cons htu _ ih =>
    rw [List.takeWhile_cons, List.takeWhile_cons, htu.isComma]
    split
    · rw [List.any_cons, List.any_cons, htu.isOtherOperator, ih]
    · rfl

theorem rel_head? (h : List.Forall₂ Term.SameRole v w) :
    Option.Rel Term.SameRole v.head? w.head? := by
  cases h with
  | nil => exact .none
  | cons htu _ => exact .some htu

/-! ## A second classification -/

/-- What classification makes of a term. -/
theorem sameRole_classified (t : Term) (isDivision : Bool) :
    Term.SameRole t
      (if t.isOperator .div && !isDivision then .separator .slash else t.classify) := by
  split
  · rename_i h
    exact Term.sameRole_slash (Bool.and_eq_true_iff.1 h).1
  · exact t.sameRole_classify

/-- Classification keeps the roles of terms. -/
theorem forall₂_classifyAfter (v : Value) :
    ∀ left busy, List.Forall₂ Term.SameRole v (classifyAfter left busy v) := by
  induction v with
  | nil =>
    intro left busy
    rw [classifyAfter]
    exact .nil
  | cons t rest ih =>
    intro left busy
    rw [classifyAfter]
    exact .cons (sameRole_classified t _) (ih _ _)

theorem segmentHasOperator_classifyAfter (v : Value) (left : Option Term) (busy : Bool) :
    segmentHasOperator (classifyAfter left busy v) = v.segmentHasOperator :=
  (segmentHasOperator_congr (forall₂_classifyAfter v left busy)).symm

/-- What is classified stays as it is in the same place, after anything that counts the same. -/
theorem classifyAfter_classifyAfter (v : Value) :
    ∀ left left' busy, Option.Rel Term.SameRole left left' →
      classifyAfter left' busy (classifyAfter left busy v) = classifyAfter left busy v := by
  induction v using Value.induction with
  | nil =>
    intro left left' busy _
    rw [classifyAfter, classifyAfter]
  | call name ps rest ihps ihrest =>
    intro left left' busy _
    -- The parameters of a call are classified on their own, whatever is around it.
    have hrest := ihrest _ _ busy (.some (Term.sameRole_classify (.call name ps)))
    have hps := ihps none none ps.segmentHasOperator .none
    simp only [Term.classify] at hrest
    simp only [classifyAfter, Term.classify, Term.isOperator, Term.isComma, Bool.false_and,
      Bool.false_eq_true, if_false, segmentHasOperator_classifyAfter, hps, hrest]
  | other t rest ht ih =>
    intro left left' busy hleft
    simp only [classifyAfter]
    have hrole := sameRole_classified t (divides busy left rest.head?)
    -- The slash is judged by the same neighbours, which kept their roles.
    have hdivides := divides_congr busy hleft
      (rel_head? (forall₂_classifyAfter rest (some t)
        (if t.isComma then rest.segmentHasOperator else busy)))
    rw [segmentHasOperator_classifyAfter, ← hrole.isComma, ih _ _ _ (.some hrole), ← hdivides]
    congr 1
    rw [Term.classify_of_isCall_eq_false ht]
    split
    · rfl
    · exact Term.classify_of_isCall_eq_false ht

theorem classify_classify (v : Value) : v.classify.classify = v.classify := by
  unfold classify
  rw [segmentHasOperator_classifyAfter]
  exact classifyAfter_classifyAfter v none none _ .none

/-! ## Segments -/

theorem segmentHasOperator_append_comma (v w : Value) :
    segmentHasOperator (v ++ .separator .comma :: w) = v.segmentHasOperator := by
  unfold segmentHasOperator
  induction v with
  | nil => rfl
  | cons t rest ih =>
    rw [List.cons_append, List.takeWhile_cons, List.takeWhile_cons]
    split
    · rw [List.any_cons, List.any_cons, ih]
    · rfl

/-- A comma on the right of a slash is like nothing at all. -/
theorem divides_head?_append_comma (v w : Value) :
    divides busy left (v ++ .separator .comma :: w).head? = divides busy left v.head? := by
  cases v with
  | nil => simp [divides, Term.isVariable, Term.isOperator]
  | cons => rfl

/-- A comma on the left is like nothing at all. -/
theorem classifyAfter_comma (w : Value) (busy : Bool) :
    classifyAfter (some (.separator .comma)) busy w = classifyAfter none busy w := by
  cases w with
  | nil => rw [classifyAfter, classifyAfter]
  | cons t rest =>
    rw [classifyAfter, classifyAfter]
    simp [divides, Term.isVariable, Term.isOperator]

theorem classifyAfter_append_comma (v w : Value) :
    ∀ left busy, classifyAfter left busy (v ++ .separator .comma :: w) =
      classifyAfter left busy v ++ .separator .comma :: w.classify := by
  induction v with
  | nil =>
    intro left busy
    simp [classifyAfter, Term.isOperator, Term.isComma, Term.classify, classifyAfter_comma,
      classify]
  | cons t rest ih =>
    intro left busy
    simp only [List.cons_append, classifyAfter, ih, divides_head?_append_comma,
      segmentHasOperator_append_comma]

theorem classify_append_comma (v w : Value) :
    classify (v ++ .separator .comma :: w) = v.classify ++ .separator .comma :: w.classify := by
  rw [classify, segmentHasOperator_append_comma, classifyAfter_append_comma]
  rfl

/-! ## Values that were read -/

theorem classify_of_read {text : String} (h : Value.read text = .ok v) : v.classify = v := by
  obtain ⟨draft, -, hv⟩ := bind_eq_ok_iff.1 h
  cases hv
  exact classify_classify _

end Value

namespace Statement

/-- The value of a property or of a variable. -/
def value : Statement → Value
  | .declaration d => d.value
  | .variable d => d.expression

@[simp]
theorem value_withComment (comment : Option String) (s : Statement) :
    (s.withComment comment).value = s.value := by
  cases s <;> rfl

theorem classify_of_readValue {p : Position} {cs : List Component} {r : Value × Flags × Position}
    (h : readValue p cs = .ok r) : r.1.classify = r.1 := by
  obtain ⟨draft, -, hr⟩ := bind_eq_ok_iff.1 h
  cases hr
  exact Value.classify_classify _

theorem classify_of_readVariable {line : Nat} {p : Position} {cs : List Component}
    {d : VariableDeclaration} (h : readVariable line p cs = .ok d) :
    d.expression.classify = d.expression := by
  obtain ⟨⟨name, p₁, cs₁⟩, -, h⟩ := bind_eq_ok_iff.1 h
  obtain ⟨⟨p₂, cs₂⟩, -, h⟩ := bind_eq_ok_iff.1 h
  obtain ⟨⟨value, flags, p₃⟩, hvalue, h⟩ := bind_eq_ok_iff.1 h
  dsimp only at h
  split at h
  · cases h
  · cases h
    exact classify_of_readValue hvalue

theorem classify_of_readDeclaration {line : Nat} {p : Position} {cs : List Component}
    {d : Declaration} (h : readDeclaration line p cs = .ok d) : d.value.classify = d.value := by
  obtain ⟨⟨property, p₁, cs₁⟩, -, h⟩ := bind_eq_ok_iff.1 h
  obtain ⟨⟨value, flags, p₂⟩, hvalue, h⟩ := bind_eq_ok_iff.1 h
  dsimp only at h
  split at h
  · cases h
  · cases h
    exact classify_of_readValue hvalue

theorem classify_of_read {p : Position} {cs : List Component} {s : Statement}
    (h : read p cs = .ok (some s)) : s.value.classify = s.value := by
  unfold read at h
  split at h
  · cases h
  · split at h
    · obtain ⟨d, hd, hs⟩ := map_eq_ok_iff.1 h
      cases hs
      exact classify_of_readVariable hd
    · obtain ⟨d, hd, hs⟩ := map_eq_ok_iff.1 h
      cases hs
      exact classify_of_readDeclaration hd

theorem classify_of_readAll (parts : List (List Component)) :
    ∀ p sheet, readAll p parts = .ok sheet → ∀ s ∈ sheet, s.value.classify = s.value := by
  induction parts with
  | nil =>
    rintro p sheet ⟨⟩ s ⟨⟩
  | cons part parts ih =>
    intro p sheet h
    obtain ⟨statement?, hfirst, h⟩ := bind_eq_ok_iff.1 h
    obtain ⟨rest, hrest, h⟩ := bind_eq_ok_iff.1 h
    cases statement? with
    | none =>
      cases h
      exact ih _ _ hrest
    | some first =>
      cases h
      refine List.forall_mem_cons.2 ⟨?_, ih _ _ hrest⟩
      rw [value_withComment]
      exact classify_of_read hfirst

end Statement

theorem Stylesheet.classify_of_read {text : String} {sheet : Stylesheet}
    (h : Stylesheet.read text = .ok sheet) : ∀ s ∈ sheet, s.value.classify = s.value :=
  Statement.classify_of_readAll _ _ _ h

/-- **Slashes are told apart once, between commas.**  Telling slashes apart twice is telling them
apart once; the parts around a comma are told apart on their own; and nothing is left to tell apart
in a value or a stylesheet that was read. -/
theorem Value.classify_stable :
    (∀ v : Value, v.classify.classify = v.classify) ∧
    (∀ v w : Value,
      Value.classify (v ++ .separator .comma :: w) =
        v.classify ++ .separator .comma :: w.classify) ∧
    (∀ text v, Value.read text = .ok v → v.classify = v) ∧
    (∀ text sheet, Stylesheet.read text = .ok sheet →
      ∀ s ∈ sheet, s.value.classify = s.value) :=
  ⟨classify_classify, classify_append_comma, fun _ _ => classify_of_read,
    fun _ _ => Stylesheet.classify_of_read⟩

/-- A slash that separates and, in a call, one that divides, in a value that was read; and a
stylesheet that was read. -/
theorem Value.classify_stable_shorthand :
    (∃ v : Value, Value.read "a/b, e($c/d)" = .ok v ∧
      v = [.word "a", .separator .slash, .word "b", .separator .comma,
        .call "e" [.variable "c", .operator .div, .word "d"]] ∧
      v.classify = v) ∧
    ∃ sheet : Stylesheet, Stylesheet.read "font: a/b;" = .ok sheet ∧ sheet ≠ [] ∧
      ∀ s ∈ sheet, s.value.classify = s.value := by
  obtain ⟨-, -, hvalue, hsheet⟩ := Value.classify_stable
  have hread : Value.read "a/b, e($c/d)" = .ok
      [.word "a", .separator .slash, .word "b", .separator .comma,
        .call "e" [.variable "c", .operator .div, .word "d"]] := by
    cbv
  have hsheetRead : Stylesheet.read "font: a/b;" = .ok
      [.declaration ⟨"font", [.word "a", .separator .slash, .word "b"], false, none, some 1⟩] := by
    cbv
  exact ⟨⟨_, hread, rfl, hvalue _ _ hread⟩, _, hsheetRead, by simp, hsheet _ _ hsheetRead⟩

end Scss
