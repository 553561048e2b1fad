import Scss.Arithmetic.Division
import Scss.Value.Basic

/-!
# Values as trees

A value is a list of terms in which calls hold values of their own.  One induction serves all that
is proved about them: a value is empty, starts with a call, or starts with another term.

## Main definitions

* `Term.isCall`: whether a term is a function call
* `Value.calls`: the names of the functions that a value calls, at any depth

## Main results

* `Value.induction`: induction on values, into the parameters of calls
* `Value.references_eq_flatMap`, `Value.calls_eq_flatMap`: what a value refers to and calls, term by
  term
* `Value.refersTo_eq_true_iff`: a search for a reference finds what is among them
* `Value.classifyAfter_eq`: what is the same after slashes are told apart
-/

namespace Scss

/-- Whether the term is a function call. -/
def Term.isCall : Term → Bool
  | .call _ _ => true
  | _ => false

mutual

/-- The functions that a term calls, at any depth, inner ones first. -/
def Term.calls : Term → List String
  | .call name parameters => Value.calls parameters ++ [name]
  | _ => []

/-- The functions that a value calls, at any depth, inner ones first. -/
def Value.calls : Value → List String
  | [] => []
  | t :: rest => t.calls ++ Value.calls rest

end

theorem Term.calls_of_isCall_eq_false {t : Term} (h : t.isCall = false) : t.calls = [] := by
  cases t with
  | call => cases h
  | _ => rfl

theorem Term.classify_of_isCall_eq_false {t : Term} (h : t.isCall = false) : t.classify = t := by
  cases t with
  | call => cases h
  | _ => rfl

namespace Value

/-- Induction on values, into the parameters of calls. -/
@[elab_as_elim]
theorem induction {motive : Value → Prop} (nil : motive [])
    (call : ∀ name parameters rest, motive parameters → motive rest →
      motive (.call name parameters :: rest))
    (other : ∀ t rest, t.isCall = false → motive rest → motive (t :: rest)) :
    ∀ v, motive v
  | [] => nil
  | .call name parameters :: rest =>
    call name parameters rest (induction nil call other parameters) (induction nil call other rest)
  | .number x :: rest => other _ rest rfl (induction nil call other rest)
  | .dimension x unit :: rest => other _ rest rfl (induction nil call other rest)
  | .string text :: rest => other _ rest rfl (induction nil call other rest)
  | .word text :: rest => other _ rest rfl (induction nil call other rest)
  | .color c :: rest => other _ rest rfl (induction nil call other rest)
  | .variable name :: rest => other _ rest rfl (induction nil call other rest)
  | .operator o :: rest => other _ rest rfl (induction nil call other rest)
  | .separator s :: rest => other _ rest rfl (induction nil call other rest)

variable {v w : Value} {name : String}

/-! ## References and calls -/

theorem references_eq_flatMap (v : Value) : v.references = v.flatMap Term.references := by
  induction v with
  | nil => rfl
  | cons t rest ih => rw [references, ih, List.flatMap_cons]

theorem calls_eq_flatMap (v : Value) : v.calls = v.flatMap Term.calls := by
  induction v with
  | nil => rfl
  | cons t rest ih => rw [calls, ih, List.flatMap_cons]

theorem mem_references_iff : name ∈ v.references ↔ ∃ t ∈ v, name ∈ t.references := by
  rw [references_eq_flatMap, List.mem_flatMap]

/-- A search for a name finds it if the name is among the references. -/
theorem refersTo_eq_true_iff : v.refersTo name = true ↔ name ∈ v.references := by
  induction v using Value.induction with
  | nil => simp [refersTo, references]
  | call f ps rest ihps ihrest =>
    rw [refersTo, Term.refersTo, Bool.or_eq_true, ihps, ihrest, references, Term.references,
      List.mem_append]
  | other t rest ht ih =>
    have hfirst : t.refersTo name = true ↔ name ∈ t.references := by
      cases t with
      | call => cases ht
      | «variable» other => rw [Term.refersTo, beq_iff_eq, Term.references, List.mem_singleton, eq_comm]
      | _ => exact iff_of_false Bool.false_ne_true List.not_mem_nil
    rw [refersTo, Bool.or_eq_true, hfirst, ih, references, List.mem_append]

theorem references_append (v w : Value) :
    Value.references (v ++ w) = v.references ++ w.references := by
  simp only [references_eq_flatMap, List.flatMap_append]

theorem calls_append (v w : Value) : Value.calls (v ++ w) = v.calls ++ w.calls := by
  simp only [calls_eq_flatMap, List.flatMap_append]

/-! ## Classification -/

/-- What is read off a value term by term, into the parameters of calls, and sees no operators and
separators is the same after slashes are told apart. -/
theorem classifyAfter_eq {α : Type} {onTerm : Term → List α} {onValue : Value → List α}
    (hcons : ∀ t rest, onValue (t :: rest) = onTerm t ++ onValue rest)
    (hcall : ∀ name ps ps', onValue ps = onValue ps' →
      onTerm (.call name ps) = onTerm (.call name ps'))
    (hoperator : ∀ o, onTerm (.operator o) = []) (hseparator : ∀ s, onTerm (.separator s) = [])
    (v : Value) : ∀ left busy, onValue (classifyAfter left busy v) = onValue v := by
  induction v using Value.induction with
  | nil => simp [classifyAfter]
  | call f ps rest ihps ihrest =>
    intro left busy
    simp only [classifyAfter, Term.isOperator, Term.classify, hcons, ihrest, Bool.false_and,
      Bool.false_eq_true, if_false, hcall f _ ps (ihps _ _)]
  | other t rest ht ih =>
    intro left busy
    simp only [classifyAfter, hcons, ih, Term.classify_of_isCall_eq_false ht]
    split
    · cases t <;> simp_all [Term.isOperator]
    · rfl

/-- Telling slashes apart changes no reference. -/
@[simp]
theorem references_classify (v : Value) : v.classify.references = v.references :=
  classifyAfter_eq (fun _ _ => by rw [references])
    (fun _ _ _ h => by rw [Term.references, Term.references, h]) (fun _ => rfl) (fun _ => rfl) v _ _

/-- Telling slashes apart changes no call. -/
theorem calls_classify (v : Value) : v.classify.calls = v.calls :=
  classifyAfter_eq (fun _ _ => by rw [calls]) (fun _ _ _ h => by rw [Term.calls, Term.calls, h])
    (fun _ => rfl) (fun _ => rfl) v _ _

end Value

end Scss
