import Scss.Compile.Resolve
import Scss.Function.Registry
import Scss.Proofs.Tables
import Scss.Proofs.Values

/-!
# What the built-in functions give

The built-in functions give literals: numbers, texts and colours, at the top level and nothing
else.  No call, reference or operator comes out of them.

## Main definitions

* `Term.isLiteral`: whether a term is a number, a text or a colour
* `Registry.GivesLiterals`: all registered functions give literals

## Main results

* `Registry.builtin_givesLiterals`: the built-in functions give literals
-/

namespace Scss

/-- Whether the term is a number, a text or a colour. -/
def Term.isLiteral : Term → Bool
  | .number _ | .dimension _ _ | .string _ | .word _ | .color _ => true
  | _ => false

namespace Term

variable {t : Term}

theorem references_of_isLiteral (h : t.isLiteral = true) : t.references = [] := by
  cases t with
  | call | «variable» | operator | separator => cases h
  | _ => rfl

theorem calls_of_isLiteral (h : t.isLiteral = true) : t.calls = [] := by
  cases t with
  | call | «variable» | operator | separator => cases h
  | _ => rfl

theorem isLiteral_of_isNumeric (h : t.isNumeric = true) : t.isLiteral = true := by
  cases t with
  | number | dimension => rfl
  | _ => cases h

theorem isLiteral_measure (value : Float) (unit : String) :
    (measure value unit).isLiteral = true := by
  unfold measure
  split <;> rfl

end Term

/-- All terms that a function gives are literals. -/
def Generated.IsLiteral (out : Generated) : Prop :=
  ∀ t ∈ out.terms, t.isLiteral = true

/-- The function gives literals, whatever it is called with. -/
def Generator.GivesLiterals (g : Generator) : Prop :=
  ∀ call style out, g.apply call style = .ok out → out.IsLiteral

/-- All registered functions give literals. -/
def Registry.GivesLiterals (r : Registry) : Prop :=
  ∀ name g, r.find? name = some g → g.GivesLiterals

namespace Generator

theorem isLiteral_colorResult (c : Color) : (colorResult c).IsLiteral := by
  intro t ht
  rw [List.mem_singleton.1 ht]
  rfl

theorem isLiteral_numberResult (value : Float) (unit : Option String) :
    (numberResult value unit).IsLiteral := by
  intro t ht
  rw [List.mem_singleton.1 ht]
  exact Term.isLiteral_measure _ _

theorem isLiteral_textResult (text : String) (quotes : Bool) :
    (textResult text quotes).IsLiteral := by
  intro t ht
  rw [List.mem_singleton.1 ht]
  cases quotes <;> rfl

theorem isLiteral_text (text : String) : (Generated.text text).IsLiteral := by
  intro t ht
  simp only [Generated.terms] at ht
  split at ht
  · cases ht
  · rw [List.mem_singleton.1 ht]
    rfl

/-- Whatever the computation gives, if it gives anything, consists of literals. -/
def Literal (x : Except ArgumentError Generated) : Prop :=
  ∀ out, x = .ok out → out.IsLiteral

theorem literal_pure {out : Generated} (h : out.IsLiteral) : Literal (pure out) := by
  rintro _ ⟨⟩
  exact h

theorem literal_throw (e : ArgumentError) : Literal (throw e) := by
  rintro _ ⟨⟩

theorem literal_bind {α : Type} {x : Except ArgumentError α}
    {f : α → Except ArgumentError Generated} (h : ∀ a, Literal (f a)) : Literal (x >>= f) := by
  cases x with
  | ok a => exact h a
  | error e => exact literal_throw e

theorem givesLiterals_numeric (name : String) (f : Float → Float) :
    (numeric name f).GivesLiterals := by
  intro call style
  exact literal_bind fun _ => literal_bind fun _ => literal_pure (isLiteral_numberResult _ _)

theorem givesLiterals_textual (name : String) {f : String → Bool → Generated}
    (hf : ∀ text quotes, (f text quotes).IsLiteral) : (textual name f).GivesLiterals := by
  intro call style
  exact literal_bind fun _ => literal_bind fun _ => literal_pure (hf _ _)

theorem givesLiterals_shade (name : String) (f : Color → Float → Color) :
    (shade name f).GivesLiterals := by
  intro call style
  refine literal_bind fun _ => literal_bind fun _ => literal_bind fun _ => ?_
  exact literal_pure (isLiteral_colorResult _)

theorem givesLiterals_mix : mix.GivesLiterals := by
  intro call style
  refine literal_bind fun _ => literal_bind fun _ => literal_bind fun _ => literal_bind fun _ => ?_
  exact literal_pure (isLiteral_colorResult _)

theorem givesLiterals_rgb : rgb.GivesLiterals := by
  intro call style
  refine literal_bind fun _ => literal_bind fun _ => literal_bind fun _ => literal_bind fun _ => ?_
  exact literal_pure (isLiteral_colorResult _)

theorem givesLiterals_rgba : rgba.GivesLiterals := by
  intro call style
  refine literal_bind fun arguments => ?_
  split
  · exact literal_bind fun _ => literal_bind fun _ => literal_pure (isLiteral_colorResult _)
  · refine literal_bind fun _ => literal_bind fun _ => literal_bind fun _ => ?_
    exact literal_bind fun _ => literal_pure (isLiteral_colorResult _)
  · exact literal_throw _

theorem givesLiterals_percentage : percentage.GivesLiterals := by
  intro call style
  refine literal_bind fun _ => literal_bind fun argument => ?_
  split
  · exact literal_pure (isLiteral_numberResult _ _)
  · exact literal_throw _

theorem givesLiterals_unquote : unquote.GivesLiterals := by
  intro call style
  exact literal_bind fun _ => literal_pure (isLiteral_text _)

theorem givesLiterals_strLength : strLength.GivesLiterals := by
  refine givesLiterals_textual _ fun text _ t ht => ?_
  rw [List.mem_singleton.1 ht]
  rfl

/-- The built-in functions give literals. -/
theorem givesLiterals_of_mem_builtins : ∀ g ∈ builtins, g.GivesLiterals := by
  simp only [builtins, List.forall_mem_cons]
  exact ⟨givesLiterals_shade _ _, givesLiterals_shade _ _, givesLiterals_mix, givesLiterals_rgb,
    givesLiterals_rgba, givesLiterals_numeric _ _, givesLiterals_numeric _ _,
    givesLiterals_numeric _ _, givesLiterals_numeric _ _, givesLiterals_percentage,
    givesLiterals_textual _ fun _ _ => isLiteral_textResult _ _, givesLiterals_unquote,
    givesLiterals_textual _ fun _ _ => isLiteral_textResult _ _,
    givesLiterals_textual _ fun _ _ => isLiteral_textResult _ _, givesLiterals_strLength, by simp⟩

end Generator

namespace Registry

/-- What is found after a registration was there before or has been registered under its name. -/
theorem find?_registerAll {r : Registry} {gs : List Generator} {name : String} {g : Generator}
    (h : (r.registerAll gs).1.find? name = some g) :
    r.find? name = some g ∨ g ∈ gs ∧ g.name = name := by
  induction gs generalizing r with
  | nil => exact .inl h
  | cons first rest ih =>
    rcases ih h with h | ⟨hmem, hname⟩
    · rw [register, Names.find?_insert] at h
      split at h
      · rename_i hname
        cases h
        exact .inr ⟨List.mem_cons_self, hname.symm⟩
      · exact .inl h
    · exact .inr ⟨List.mem_cons_of_mem _ hmem, hname⟩

theorem find?_registerAll_of_notMem {gs : List Generator} {name : String}
    (h : name ∉ gs.map Generator.name) (r : Registry) :
    (r.registerAll gs).1.find? name = r.find? name := by
  induction gs generalizing r with
  | nil => rfl
  | cons first rest ih =>
    simp only [List.map_cons, List.mem_cons, not_or] at h
    obtain ⟨hfirst, hrest⟩ := h
    show ((r.register first).registerAll rest).1.find? name = _
    rw [ih hrest, register, Names.find?_insert, if_neg hfirst]

/-- Functions with different names are all found after their registration. -/
theorem find?_registerAll_of_mem {gs : List Generator} (hnodup : (gs.map Generator.name).Nodup)
    {g : Generator} (hg : g ∈ gs) (r : Registry) :
    (r.registerAll gs).1.find? g.name = some g := by
  induction gs generalizing r with
  | nil => cases hg
  | cons first rest ih =>
    obtain ⟨hfresh, hnodup⟩ := List.nodup_cons.1 hnodup
    show ((r.register first).registerAll rest).1.find? g.name = _
    rcases List.mem_cons.1 hg with rfl | hg
    · rw [find?_registerAll_of_notMem hfresh, register, Names.find?_insert, if_pos rfl]
    · exact ih hnodup hg _

theorem find?_builtin_of_mem {g : Generator} (h : g ∈ Generator.builtins) :
    builtin.find? g.name = some g :=
  find?_registerAll_of_mem (by decide) h _

theorem find?_builtin {name : String} {g : Generator} (h : builtin.find? name = some g) :
    g ∈ Generator.builtins ∧ g.name = name := by
  rcases find?_registerAll h with h | h
  · cases h
  · exact h

theorem contains_builtin_eq_false {name : String}
    (h : name ∉ Generator.builtins.map Generator.name) : builtin.contains name = false := by
  rw [Bool.eq_false_iff]
  intro hcontains
  obtain ⟨g, hg⟩ := Names.contains_eq_true_iff.1 hcontains
  exact h (List.mem_map.2 ⟨g, find?_builtin hg⟩)

/-- The registered built-in functions give literals. -/
theorem builtin_givesLiterals : Registry.builtin.GivesLiterals := by
  intro name g h
  exact Generator.givesLiterals_of_mem_builtins g (find?_builtin h).1

end Registry

end Scss
