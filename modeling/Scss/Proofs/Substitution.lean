import Scss.Proofs.Tables
import Scss.Proofs.Values

/-!
# What a substitution puts in

A substitution replaces each bound reference by its value, and the references of the result are
accounted for: those of the values that were put in, and those that had no value.

## Main definitions

* `Variables.referencesFor`: the references that stand for a reference after a substitution

## Main results

* `Value.references_substitute`, `Value.unbound_substitute`: the references after a substitution, and
  those that it finds unbound
* `Value.operator_mem_substitute`: an operator after a substitution was there before or came with a
  value, all of which is there
* `Value.substitute_accounts`: each reference is replaced or reported, and none to a bound variable
  is left
-/

namespace Scss

/-- The references that stand for a reference after a substitution: those of its value, or the
reference itself if it has none. -/
def Variables.referencesFor (t : Variables) (name : String) : List String :=
  match t.lookup name with
  | some v => v.references
  | none => [name]

namespace Value

variable {t : Variables} {s : Style} {v : Value}

theorem terms_substitute_cons (first : Term) (rest : Value) :
    (Value.substitute t s (first :: rest)).terms =
      (first.substitute t s).terms ++ (Value.substitute t s rest).terms := by
  rw [Value.substitute]

theorem unbound_substitute_cons (first : Term) (rest : Value) :
    (Value.substitute t s (first :: rest)).unbound =
      (first.substitute t s).unbound ++ (Value.substitute t s rest).unbound := by
  rw [Value.substitute]

theorem terms_substitute_call (name : String) (parameters : Value) :
    ((Term.call name parameters).substitute t s).terms =
      [.call name (Value.substitute t s parameters).terms] := by
  rw [Term.substitute]

theorem terms_substitute_variable (name : String) :
    ((Term.variable name).substitute t s).terms =
      (t.lookup name).getD [.variable name] := by
  rw [Term.substitute]
  cases t.lookup name <;> rfl

/-- The references after a substitution: those of the values put in, and those without a value. -/
theorem references_substitute (t : Variables) (s : Style) (v : Value) :
    (Value.substitute t s v).terms.references = v.references.flatMap t.referencesFor := by
  induction v using Value.induction with
  | nil => simp [Value.substitute, Value.references]
  | call name ps rest ihps ihrest =>
    rw [terms_substitute_cons, terms_substitute_call, references_append, ihrest]
    simp [references, Term.references, ihps]
  | other first rest hcall ih =>
    rw [terms_substitute_cons, references_append, ih, references, List.flatMap_append]
    congr 1
    cases first with
    | call => cases hcall
    | «variable» name =>
      rw [terms_substitute_variable]
      cases h : t.lookup name <;> simp [references, Term.references, Variables.referencesFor, h]
    | _ => simp [Term.substitute, references, Term.references]

/-- The references without a value are reported in order, each as often as it stands there. -/
theorem unbound_substitute (t : Variables) (s : Style) (v : Value) :
    (Value.substitute t s v).unbound = v.references.filter fun name => !t.binds name := by
  induction v using Value.induction with
  | nil => simp [Value.substitute, Value.references]
  | call name ps rest ihps ihrest =>
    rw [unbound_substitute_cons, Term.substitute, ihps, ihrest, references, Term.references,
      List.filter_append]
  | other first rest hcall ih =>
    rw [unbound_substitute_cons, ih, references, List.filter_append]
    congr 1
    cases first with
    | call => cases hcall
    | «variable» name =>
      rw [Term.substitute, Term.references]
      cases h : t.lookup name with
      | some value =>
        have hbinds : t.binds name = true := Variables.binds_eq_true_iff.2 ⟨value, h⟩
        simp [hbinds]
      | none =>
        have hbinds : t.binds name = false := by
          rw [Variables.binds, Names.contains, Option.isSome_eq_false_iff, Option.isNone_iff_eq_none]
          exact h
        simp [hbinds]
    | _ => simp [Term.substitute, Term.references]

/-- If no value of the table refers to a bound variable, a substitution leaves no reference to one:
what it leaves came with a value, or had none. -/
theorem not_binds_of_mem_references_substitute {name : String}
    (hclosed : ∀ other value, t.lookup other = some value →
      ∀ bound, t.binds bound = true → value.refersTo bound = false)
    (h : name ∈ (v.substitute t s).terms.references) : t.binds name = false := by
  rw [references_substitute, List.mem_flatMap] at h
  obtain ⟨other, -, hname⟩ := h
  rw [Variables.referencesFor] at hname
  apply Bool.eq_false_iff.2
  intro hbinds
  cases hl : t.lookup other with
  | some value =>
    rw [hl] at hname
    have hrefers := hclosed other value hl name hbinds
    rw [refersTo_eq_true_iff.2 hname] at hrefers
    cases hrefers
  | none =>
    rw [hl, List.mem_singleton] at hname
    obtain ⟨value, hvalue⟩ := Variables.binds_eq_true_iff.1 hbinds
    rw [hname, hl] at hvalue
    cases hvalue

/-- **A substitution accounts for every reference.**  It reports the references to variables without
a value, in order and with repetitions; the others give way to the references of their values.  So,
if no value in the table refers to a bound variable, no reference to one is left. -/
theorem substitute_accounts (t : Variables) (s : Style) (v : Value) :
    (v.substitute t s).unbound = v.references.filter (fun name => !t.binds name) ∧
    (v.substitute t s).terms.references = v.references.flatMap t.referencesFor ∧
    ((∀ other value, t.lookup other = some value →
        ∀ bound, t.binds bound = true → value.refersTo bound = false) →
      ∀ name, t.binds name = true → (v.substitute t s).terms.refersTo name = false) := by
  refine ⟨unbound_substitute t s v, references_substitute t s v, fun hclosed name hbinds => ?_⟩
  apply Bool.eq_false_iff.2
  intro hrefers
  have hfree := not_binds_of_mem_references_substitute hclosed (refersTo_eq_true_iff.1 hrefers)
  rw [hbinds] at hfree
  cases hfree

/-- Two variables, one of which refers to a third that has no value. -/
def layered : Variables :=
  (Variables.bind ∅ "gap" [.call "min" [.variable "outer", .separator .comma, .word "a"]]).bind
    "side" [.word "left"]

/-- A reference in the parameters of a call gives way to what its value refers to; the one without a
value is reported as often as it stands there. -/
theorem substitute_accounts_layered :
    (∀ other value, layered.lookup other = some value →
      ∀ bound, layered.binds bound = true → value.refersTo bound = false) ∧
    ∃ v : Value, v = [.call "f" [.variable "gap", .variable "lost"], .variable "side",
        .variable "lost"] ∧
      (v.substitute layered .standard).unbound = ["lost", "lost"] ∧
      (v.substitute layered .standard).terms.references = ["outer", "lost", "lost"] ∧
      (v.substitute layered .standard).terms.refersTo "gap" = false := by
  have hentries : layered.entries =
      [("gap", [.call "min" [.variable "outer", .separator .comma, .word "a"]]),
        ("side", [.word "left"])] :=
    rfl
  have hclosed : ∀ other value, layered.lookup other = some value →
      ∀ bound, layered.binds bound = true → value.refersTo bound = false := by
    intro other value hl bound hbinds
    rw [Variables.lookup, Names.find?_eq_some_iff, hentries] at hl
    apply Bool.eq_false_iff.2
    intro hrefers
    have hmem := refersTo_eq_true_iff.1 hrefers
    have houter : bound = "outer" := by
      rcases List.mem_pair.1 hl with heq | heq
      · rw [(Prod.mk.inj heq).2] at hmem
        simpa [references, Term.references] using hmem
      · rw [(Prod.mk.inj heq).2] at hmem
        simp [references, Term.references] at hmem
    rw [houter] at hbinds
    cases hbinds
  refine ⟨hclosed, _, rfl, ?_⟩
  obtain ⟨hunbound, hreferences, hleft⟩ := substitute_accounts layered .standard
    [.call "f" [.variable "gap", .variable "lost"], .variable "side", .variable "lost"]
  exact ⟨hunbound.trans rfl, hreferences.trans rfl, hleft hclosed "gap" rfl⟩

/-- An operator at the top level was there before, or came with a value that is there in full. -/
theorem operator_mem_substitute {o : Operator}
    (h : .operator o ∈ (Value.substitute t s v).terms) :
    .operator o ∈ v ∨ ∃ name value, t.lookup name = some value ∧ .operator o ∈ value ∧
      ∀ u ∈ value, u ∈ (Value.substitute t s v).terms := by
  -- References and operators are at the top level, so calls need no induction of their own.
  induction v with
  | nil => simp [Value.substitute] at h
  | cons first rest ih =>
    rw [terms_substitute_cons] at h ⊢
    rcases List.mem_append.1 h with h | h
    · cases first with
      | «variable» name =>
        rw [terms_substitute_variable] at h ⊢
        cases hl : t.lookup name with
        | none => simp [hl] at h
        | some value =>
          rw [hl, Option.getD_some] at h
          exact .inr ⟨name, value, hl, h, fun u hu => List.mem_append_left _ hu⟩
      | operator o' =>
        obtain rfl : o = o' := by simpa [Term.substitute] using h
        exact .inl List.mem_cons_self
      | _ => simp [Term.substitute] at h
    · rcases ih h with hmem | ⟨name, value, hl, hmem, hall⟩
      · exact .inl (List.mem_cons_of_mem _ hmem)
      · exact .inr ⟨name, value, hl, hmem, fun u hu => List.mem_append_right _ (hall u hu)⟩

end Value

end Scss
