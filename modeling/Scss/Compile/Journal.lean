import Scss.Diagnostic
import Scss.Log

/-!
# The journal of a compilation

Each step of a compilation yields entries in a journal, and a result or a diagnostic that stops
it.  The entries stay when the step fails.

## Main definitions

* `Entry`: an event or a diagnostic, with `Entry.toEvent` and `Entry.diagnostic?`;
* `Outcome`: entries and a result, as a monad;
* `Outcome.trace`, `Outcome.debug`, `Outcome.report`, `Outcome.fail`.
-/

namespace Scss

/-- An entry of the journal. -/
inductive Entry where
  /-- Something that happened. -/
  | event (event : LogEvent)
  /-- Something to be told to the author of the stylesheet. -/
  | diagnostic (diagnostic : Diagnostic)
  deriving DecidableEq, Repr

namespace Entry

/-- The entry as an event; a diagnostic is a warning. -/
def toEvent : Entry → LogEvent
  | event e => e
  | diagnostic d => ⟨.warn, d.message⟩

/-- The diagnostic of an entry, if it is one. -/
def diagnostic? : Entry → Option Diagnostic
  | event _ => none
  | diagnostic d => some d

end Entry

/-- The entries of a step, and its result or what stopped it. -/
structure Outcome (α : Type) where
  /-- The entries, in order. -/
  journal : List Entry
  /-- The result. -/
  result : Except Diagnostic α

namespace Outcome

variable {α β : Type}

/-- A result without entries. -/
protected def pure (a : α) : Outcome α := ⟨[], .ok a⟩

/-- One step after the other; the second is left out if the first one fails. -/
protected def bind (x : Outcome α) (f : α → Outcome β) : Outcome β :=
  match x.result with
  | .ok a =>
    let y := f a
    ⟨x.journal ++ y.journal, y.result⟩
  | .error d => ⟨x.journal, .error d⟩

instance : Monad Outcome where
  pure := Outcome.pure
  bind := Outcome.bind

@[simp]
theorem journal_pure (a : α) : (pure a : Outcome α).journal = [] :=
  rfl

@[simp]
theorem result_pure (a : α) : (pure a : Outcome α).result = .ok a :=
  rfl

/-- After a result the second step runs, and its entries follow those of the first. -/
theorem bind_of_ok {x : Outcome α} {a : α} (h : x.result = .ok a) (f : α → Outcome β) :
    x >>= f = ⟨x.journal ++ (f a).journal, (f a).result⟩ := by
  simp only [bind, Outcome.bind, h]

/-- After a failure nothing more is entered. -/
theorem bind_of_error {x : Outcome α} {d : Diagnostic} (h : x.result = .error d)
    (f : α → Outcome β) : x >>= f = ⟨x.journal, .error d⟩ := by
  simp only [bind, Outcome.bind, h]

/-- Notes a step of the work. -/
def trace (message : String) : Outcome PUnit := ⟨[.event ⟨.trace, message⟩], .ok ⟨⟩⟩

/-- Notes something passed over. -/
def debug (message : String) : Outcome PUnit := ⟨[.event ⟨.debug, message⟩], .ok ⟨⟩⟩

/-- Reports a diagnostic and goes on. -/
def report (d : Diagnostic) : Outcome PUnit := ⟨[.diagnostic d], .ok ⟨⟩⟩

/-- Reports some diagnostics and goes on. -/
def reportAll (ds : List Diagnostic) : Outcome PUnit := ⟨ds.map .diagnostic, .ok ⟨⟩⟩

/-- Stops with a diagnostic, which is not entered. -/
def fail (d : Diagnostic) : Outcome α := ⟨[], .error d⟩

/-- A result or a diagnostic, without entries. -/
def ofExcept (x : Except Diagnostic α) : Outcome α := ⟨[], x⟩

/-- The diagnostics in the journal, in order. -/
def diagnostics (x : Outcome α) : List Diagnostic :=
  x.journal.filterMap Entry.diagnostic?

/-- The journal as events, in order. -/
def events (x : Outcome α) : List LogEvent :=
  x.journal.map Entry.toEvent

end Outcome

end Scss
