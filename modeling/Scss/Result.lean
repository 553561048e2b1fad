/-!
# Results

A step gives a result or fails.  Steps compose: two steps in a row give a result if each of them
does.

Two runs of one program on inputs that look alike are compared step by step: their results agree if
both are there and related, or if both runs fail alike.

## Main definitions

* `Agree`: two results that are related, or two failures

## Main results

* `bind_eq_ok_iff`, `map_eq_ok_iff`: when steps in a row give a result
* `Agree.bind`, `Agree.map`: steps that agree, one after the other
-/

namespace Scss

theorem bind_eq_ok_iff {ε α β : Type} {x : Except ε α} {f : α → Except ε β} {b : β} :
    x >>= f = .ok b ↔ ∃ a, x = .ok a ∧ f a = .ok b := by
  cases x <;> simp [bind, Except.bind]

theorem map_eq_ok_iff {ε α β : Type} {x : Except ε α} {f : α → β} {b : β} :
    x.map f = .ok b ↔ ∃ a, x = .ok a ∧ f a = b := by
  cases x <;> simp [Except.map]

theorem mapError_eq_ok_iff {ε ε' α : Type} {f : ε → ε'} {x : Except ε α} {a : α} :
    x.mapError f = .ok a ↔ x = .ok a := by
  cases x with
  | ok b => exact ⟨fun h => congrArg _ (Except.ok.inj h), fun h => congrArg _ (Except.ok.inj h)⟩
  | error e => exact ⟨nofun, nofun⟩

/-! ## Results of two runs -/

/-- The results of two runs agree: both are there and related by `R`, or both runs fail, with errors
related by `E`.  A failure that is `excused` agrees with anything. -/
inductive Agree {ε α β : Type} (excused : ε → Prop) (E : ε → ε → Prop) (R : α → β → Prop) :
    Except ε α → Except ε β → Prop
  | ok {a : α} {b : β} (h : R a b) : Agree excused E R (.ok a) (.ok b)
  | error {e e' : ε} (h : E e e') : Agree excused E R (.error e) (.error e')
  | left {e : ε} (h : excused e) (y : Except ε β) : Agree excused E R (.error e) y
  | right {e' : ε} (h : excused e') (x : Except ε α) : Agree excused E R x (.error e')

namespace Agree

variable {ε α β α' β' : Type} {excused : ε → Prop} {E : ε → ε → Prop} {R : α → β → Prop}
  {S : α' → β' → Prop} {x : Except ε α} {y : Except ε β}

/-- Steps that agree on related results can follow each other. -/
theorem bind {f : α → Except ε α'} {g : β → Except ε β'} (h : Agree excused E R x y)
    (hfg : ∀ a b, x = .ok a → y = .ok b → R a b → Agree excused E S (f a) (g b)) :
    Agree excused E S (x >>= f) (y >>= g) := by
  cases h with
  | ok hab => exact hfg _ _ rfl rfl hab
  | error he => exact .error he
  | left he => exact .left he _
  | right he => exact .right he _

theorem map {f : α → α'} {g : β → β'} (h : Agree excused E R x y)
    (hfg : ∀ a b, R a b → S (f a) (g b)) : Agree excused E S (x.map f) (y.map g) := by
  cases h with
  | ok hab => exact .ok (hfg _ _ hab)
  | error he => exact .error he
  | left he => exact .left he _
  | right he => exact .right he _

end Agree

end Scss
