import Mathlib.Data.List.Forall2
import Scss.Compile.Basic
import Scss.Proofs.Resolution
import Scss.Proofs.SettlingPlan

/-!
# What a compilation changes and reports

A compilation fails before it touches a statement, or it does not fail.  In the second case each
declaration stands for itself: it is resolved, and then its rendering is in the text, or it stays
as it was, and then there is a fatal diagnostic at its line.

## Main definitions

* `Compiler.resolved?`, `Compiler.fault?`: a declaration resolved, or what stopped that
* `Compiler.Replaces`: a statement and the one in its place afterwards
* `Compiler.Accounts`: a compilation that accounts for every statement of a stylesheet

## Main results

* `Compiler.compileInPlace_eq_error_iff`: collecting and settling alone can fail
* `Compiler.replaces_compileStatement`, `Compiler.errors_compileStatement`,
  `Compiler.line_compileStatement`: one statement
* `Compiler.compileInPlace_accounts`: all statements
-/

namespace Scss

/-! ## Settling -/

/-- Settling reports nothing fatal, whether or not it succeeds. -/
theorem Bindings.reports_settleNames (bindings : Bindings) (scope : Scope) (path : List String)
    (names : List String) (table : Variables) :
    (bindings.settleNames scope path names table).Reports fun _ => True := by
  fun_induction settleNames bindings scope path names table with
  | case1 => exact Outcome.reports_pure _
  | case2 path table name rest hbound ih => exact ih
  | case3 path table name rest hbound hnone ih => exact ih
  | case4 => exact ⟨by simp [Outcome.fail, Outcome.diagnostics], fun _ _ => trivial⟩
  | case5 path table name rest hbound b hb hp _ ihrefs ihrest =>
    refine ihrefs.bind fun settled => ?_
    refine ((Value.reports_resolve _ _ _ _).mono fun _ _ => trivial).bind fun value => ?_
    exact (Outcome.reports_trace _).bind fun _ => ihrest _ _

theorem Diagnostic.eq_of_isFatal_eq_false {e : Diagnostic} (h : e.isFatal = false) :
    (∃ name context line, e = .unboundVariable name context line) ∨
      ∃ name context line, e = .unknownFunction name context line := by
  cases e with
  | unboundVariable name context line => exact .inl ⟨name, context, line, rfl⟩
  | unknownFunction name context line => exact .inr ⟨name, context, line, rfl⟩
  | _ => cases h

namespace Compiler

/-- The declaration resolved, unless that fails. -/
def resolved? (c : Compiler) (table : Variables) (d : Declaration) : Option Declaration :=
  match (d.resolve c.scope table).result with
  | .ok resolved => some resolved
  | .error _ => none

/-- What stops the resolution of the declaration, if something does. -/
def fault? (c : Compiler) (table : Variables) (d : Declaration) : Option Diagnostic :=
  match (d.resolve c.scope table).result with
  | .ok _ => none
  | .error e => some e

/-- The second statement stands in the place of the first after a compilation. -/
inductive Replaces (c : Compiler) (table : Variables) : Statement → Statement → Prop
  | variable (v : VariableDeclaration) : Replaces c table (.variable v) (.variable v)
  | failed {d : Declaration} {e : Diagnostic} (h : c.fault? table d = some e) :
    Replaces c table (.declaration d) (.declaration d)
  | resolved {d d' : Declaration} (h : c.resolved? table d = some d')
    (important : d'.important = d.important) (comment : d'.comment = d.comment)
    (line : d'.line = d.line) :
    Replaces c table (.declaration d) (.declaration d')

/-- The compilation and the statements after it account for all statements of the stylesheet. -/
structure Accounts (c : Compiler) (table : Variables) (sheet : Stylesheet)
    (compilation : Compilation) (after : Stylesheet) : Prop where
  /-- Each statement has its place. -/
  statements : List.Forall₂ (c.Replaces table) sheet after
  /-- The fatal diagnostics are those of the failed declarations, in order and at their lines. -/
  errors : List.Forall₂ (fun d e => c.fault? table d = some e ∧ e.line? = d.line)
    (sheet.declarations.filter fun d => (c.fault? table d).isSome) compilation.errors
  /-- All other diagnostics are of two kinds. -/
  warnings : ∀ e ∈ compilation.warnings,
    (∃ name context line, e = .unboundVariable name context line) ∨
      ∃ name context line, e = .unknownFunction name context line
  /-- The text has a line for each declaration that is resolved and leaves something to write. -/
  css : compilation.css = String.intercalate "\n"
    (((sheet.declarations.filterMap (c.resolved? table)).map
      (·.render c.options.output c.options.comments)).filter (!·.isEmpty))

variable {c : Compiler} {table : Variables} {sheet after : Stylesheet} {compilation : Compilation}
  {d d' : Declaration} {e : Diagnostic}

theorem resolved?_eq_some_iff :
    c.resolved? table d = some d' ↔ (d.resolve c.scope table).result = .ok d' := by
  unfold resolved?
  split <;> simp_all

theorem fault?_eq_some_iff :
    c.fault? table d = some e ↔ (d.resolve c.scope table).result = .error e := by
  unfold fault?
  split <;> simp_all

theorem fault?_of_resolved (h : c.resolved? table d = some d') : c.fault? table d = none := by
  simp [fault?, resolved?_eq_some_iff.1 h]

theorem resolved?_of_fault (h : c.fault? table d = some e) : c.resolved? table d = none := by
  simp [resolved?, fault?_eq_some_iff.1 h]

/-- A declaration is resolved or stopped. -/
theorem resolved_or_fault (c : Compiler) (table : Variables) (d : Declaration) :
    (∃ d', c.resolved? table d = some d') ∨ ∃ e, c.fault? table d = some e := by
  cases h : (d.resolve c.scope table).result with
  | ok d' => exact .inl ⟨d', resolved?_eq_some_iff.2 h⟩
  | error e => exact .inr ⟨e, fault?_eq_some_iff.2 h⟩

/-! ## One statement -/

/-- A resolved declaration takes the place of its source and has a line if it leaves something to
write. -/
theorem compileStatement_of_resolved (h : c.resolved? table d = some d') :
    (c.compileStatement table (.declaration d)).statement = .declaration d' ∧
      (c.compileStatement table (.declaration d)).line =
        Option.guard (!·.isEmpty) (d'.render c.options.output c.options.comments) ∧
      (c.compileStatement table (.declaration d)).journal.filterMap Entry.diagnostic? =
        (d.resolve c.scope table).diagnostics := by
  have hok := resolved?_eq_some_iff.1 h
  simp only [compileStatement, hok]
  split <;> rename_i hline <;>
    simp [Option.guard, hline, Outcome.diagnostics, Entry.diagnostic?]

/-- A declaration that fails stays, has no line, and what stopped it is reported last. -/
theorem compileStatement_of_fault (h : c.fault? table d = some e) :
    (c.compileStatement table (.declaration d)).statement = .declaration d ∧
      (c.compileStatement table (.declaration d)).line = none ∧
      (c.compileStatement table (.declaration d)).journal.filterMap Entry.diagnostic? =
        (d.resolve c.scope table).diagnostics ++ [e] := by
  have herror := fault?_eq_some_iff.1 h
  simp only [compileStatement, herror]
  simp [Outcome.diagnostics, Entry.diagnostic?]

theorem stopsAt_of_fault (h : c.fault? table d = some e) : e.StopsAt d.line :=
  (d.reports_resolve c.scope table).stops e (fault?_eq_some_iff.1 h)

theorem replaces_compileStatement (c : Compiler) (table : Variables) (s : Statement) :
    c.Replaces table s (c.compileStatement table s).statement := by
  cases s with
  | «variable» v => exact .variable v
  | declaration d =>
    rcases c.resolved_or_fault table d with ⟨d', h⟩ | ⟨e, h⟩
    · rw [(compileStatement_of_resolved h).1]
      obtain ⟨value, -, rfl⟩ := Declaration.result_resolve_eq_ok_iff.1 (resolved?_eq_some_iff.1 h)
      exact .resolved h rfl rfl rfl
    · rw [(compileStatement_of_fault h).1]
      exact .failed h

/-- A statement reports something fatal if it is a declaration that fails, once and no more. -/
theorem errors_compileStatement (c : Compiler) (table : Variables) (s : Statement) :
    ((c.compileStatement table s).journal.filterMap Entry.diagnostic?).filter Diagnostic.isFatal =
      (s.asDeclaration?.bind (c.fault? table)).toList := by
  cases s with
  | «variable» v => rfl
  | declaration d =>
    -- What is reported on the way is not fatal; what stops the declaration is.
    have hpasses : (d.resolve c.scope table).diagnostics.filter Diagnostic.isFatal = [] := by
      rw [List.filter_eq_nil_iff]
      intro e he
      simp [(d.reports_resolve c.scope table).passes e he]
    rcases c.resolved_or_fault table d with ⟨d', h⟩ | ⟨e, h⟩
    · rw [(compileStatement_of_resolved h).2.2, hpasses]
      simp [Statement.asDeclaration?, fault?_of_resolved h]
    · rw [(compileStatement_of_fault h).2.2, List.filter_append, hpasses]
      simp [Statement.asDeclaration?, h, (stopsAt_of_fault h).isFatal]

theorem line_compileStatement (c : Compiler) (table : Variables) (s : Statement) :
    (c.compileStatement table s).line = s.asDeclaration?.bind fun d =>
      (c.resolved? table d).bind fun d' =>
        Option.guard (!·.isEmpty) (d'.render c.options.output c.options.comments) := by
  cases s with
  | «variable» v => rfl
  | declaration d =>
    rcases c.resolved_or_fault table d with ⟨d', h⟩ | ⟨e, h⟩
    · rw [(compileStatement_of_resolved h).2.1]
      simp [Statement.asDeclaration?, h]
    · rw [(compileStatement_of_fault h).2.1]
      simp [Statement.asDeclaration?, resolved?_of_fault h]

/-! ## All statements -/

theorem forall₂_replaces (c : Compiler) (table : Variables) (sheet : Stylesheet) :
    List.Forall₂ (c.Replaces table) sheet
      ((sheet.map (c.compileStatement table)).map CompiledStatement.statement) := by
  rw [List.map_map, List.forall₂_map_right_iff, List.forall₂_same]
  exact fun s _ => c.replaces_compileStatement table s

theorem errors_compileAll (c : Compiler) (table : Variables) (sheet : Stylesheet) :
    (c.compileAll table sheet).diagnostics.filter Diagnostic.isFatal =
      sheet.declarations.filterMap (c.fault? table) := by
  rw [Stylesheet.declarations, List.filterMap_filterMap, List.filterMap_eq_flatMap_toList]
  simp only [Outcome.diagnostics, compileAll, List.flatMap_map, List.filterMap_flatMap,
    List.filter_flatMap, errors_compileStatement]

theorem lines_compileAll (c : Compiler) (table : Variables) (sheet : Stylesheet) :
    (sheet.map (c.compileStatement table)).filterMap CompiledStatement.line =
      ((sheet.declarations.filterMap (c.resolved? table)).map
        (·.render c.options.output c.options.comments)).filter (!·.isEmpty) := by
  rw [← List.filterMap_eq_filter, List.filterMap_map, List.filterMap_map, Stylesheet.declarations,
    List.filterMap_filterMap, List.filterMap_filterMap]
  refine List.filterMap_congr fun s _ => ?_
  simp only [Function.comp_def, line_compileStatement]

/-- Each failed declaration has its fault, in order. -/
theorem forall₂_faults (c : Compiler) (table : Variables) (ds : List Declaration) :
    List.Forall₂ (fun d e => c.fault? table d = some e ∧ e.line? = d.line)
      (ds.filter fun d => (c.fault? table d).isSome) (ds.filterMap (c.fault? table)) := by
  induction ds with
  | nil => exact .nil
  | cons d rest ih =>
    cases h : c.fault? table d with
    | none => simpa [h] using ih
    | some e =>
      rw [List.filter_cons_of_pos (by simp [h]), List.filterMap_cons_some h]
      exact .cons ⟨h, (stopsAt_of_fault h).line?_eq⟩ ih

/-! ## The compilation -/

/-- A compilation fails when collecting or settling the variables does, with the same diagnostic,
and then leaves the statements as they are. -/
theorem compileInPlace_eq_error_iff :
    c.compileInPlace sheet = (.error e, after) ↔ after = sheet ∧
      (Bindings.collect sheet = .error e ∨ ∃ bindings, Bindings.collect sheet = .ok bindings ∧
        (bindings.settle c.scope).result = .error e) := by
  have herror : (c.compile sheet).result = .error e ↔
      Bindings.collect sheet = .error e ∨ ∃ bindings, Bindings.collect sheet = .ok bindings ∧
        (bindings.settle c.scope).result = .error e := by
    simp [compile, Outcome.result_bind_eq_error_iff, compileAll]
  rw [← herror]
  unfold compileInPlace
  cases hr : (c.compile sheet).result with
  | ok x => simp [hr, Outcome.compilation, Except.map]
  | error e' =>
    simp [hr, Outcome.compilation, Except.map, and_comm, eq_comm]

/-- A compilation that does not fail has its text, its diagnostics and its statements from the
settled variables. -/
theorem compileInPlace_eq_ok (h : c.compileInPlace sheet = (.ok compilation, after)) :
    ∃ bindings table, Bindings.collect sheet = .ok bindings ∧
      (bindings.settle c.scope).result = .ok table ∧
      (c.compileAll table sheet).result = .ok (compilation.css, after) ∧
      compilation.diagnostics = (bindings.settle c.scope).diagnostics ++
        (c.compileAll table sheet).diagnostics := by
  cases hr : (c.compile sheet).result with
  | error e => simp [compileInPlace, hr, Outcome.compilation, Except.map] at h
  | ok x =>
    obtain ⟨bindings, hc, hr'⟩ := Outcome.result_bind_eq_ok_iff.1 hr
    obtain ⟨table, hs, hall⟩ := Outcome.result_bind_eq_ok_iff.1 hr'
    simp only [compileInPlace, hr, Outcome.compilation, Except.map, Prod.mk.injEq,
      Except.ok.injEq] at h
    obtain ⟨rfl, rfl⟩ := h
    refine ⟨bindings, table, hc, hs, hall, ?_⟩
    rw [compile, Outcome.diagnostics_bind_of_ok hc, Outcome.diagnostics_bind_of_ok hs,
      Outcome.diagnostics_ofExcept, List.nil_append]

theorem exists_compileInPlace_eq_ok {bindings : Bindings}
    (hc : Bindings.collect sheet = .ok bindings)
    (hs : (bindings.settle c.scope).result = .ok table) :
    ∃ compilation after, c.compileInPlace sheet = (.ok compilation, after) := by
  rcases hr : c.compileInPlace sheet with ⟨e | compilation, after⟩
  · rcases (compileInPlace_eq_error_iff.1 hr).2 with h | ⟨_, h, hs'⟩
    · simp [hc] at h
    · rw [hc] at h
      cases h
      simp [hs] at hs'
  · exact ⟨compilation, after, rfl⟩

/-- A compilation that fails leaves the stylesheet unchanged, and fails only if collecting or
settling the variables does; one that does not fail accounts for every statement. -/
theorem compileInPlace_accounts (c : Compiler) (sheet : Stylesheet) :
    (∀ e after, c.compileInPlace sheet = (.error e, after) ↔ after = sheet ∧
      (Bindings.collect sheet = .error e ∨ ∃ bindings, Bindings.collect sheet = .ok bindings ∧
        (bindings.settle c.scope).result = .error e)) ∧
    ∀ compilation after, c.compileInPlace sheet = (.ok compilation, after) →
      ∃ bindings table, Bindings.collect sheet = .ok bindings ∧
        (bindings.settle c.scope).result = .ok table ∧
        c.Accounts table sheet compilation after := by
  refine ⟨fun e after => compileInPlace_eq_error_iff, fun compilation after h => ?_⟩
  obtain ⟨bindings, table, hc, hs, hall, hdiagnostics⟩ := compileInPlace_eq_ok h
  obtain ⟨hcss, rfl⟩ : String.intercalate "\n"
        ((sheet.map (c.compileStatement table)).filterMap CompiledStatement.line) =
          compilation.css ∧
      (sheet.map (c.compileStatement table)).map CompiledStatement.statement = after := by
    simpa [compileAll] using hall
  -- Settling reports nothing fatal, so all that is fatal belongs to declarations.
  have hsettle : (bindings.settle c.scope).diagnostics.filter Diagnostic.isFatal = [] := by
    rw [List.filter_eq_nil_iff]
    intro e he
    simp [(bindings.reports_settleNames _ _ _ _).passes e he]
  refine ⟨bindings, table, hc, hs, c.forall₂_replaces table sheet, ?_, ?_, ?_⟩
  · rw [Compilation.errors, hdiagnostics, List.filter_append, hsettle, List.nil_append,
      errors_compileAll]
    exact c.forall₂_faults table sheet.declarations
  · intro e he
    exact Diagnostic.eq_of_isFatal_eq_false (by simpa using (List.mem_filter.1 he).2)
  · rw [← hcss, lines_compileAll]

end Compiler

end Scss
