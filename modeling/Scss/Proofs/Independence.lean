import Scss.Proofs.Compilation
import Scss.Proofs.SettlingOrder

/-!
# Independent statements

A compilation settles the variables and then adds up what each declaration gives on its own: its
share.  The share of a declaration depends on the settled variables and on nothing else in the
stylesheet, so declarations do not influence each other.  The settled variables in turn depend on
the declarations of each name, in their order; how the declarations of different names and the
properties are interleaved does not matter.

## Main definitions

* `Share`: what one declaration gives to a compilation
* `Compiler.share`: the share of a declaration, from the settled variables
* `Compiler.Contributes`: a compilation with a declaration, against the one without it
* `Stylesheet.Interleaves`: the same statements, interleaved in another way

## Main results

* `Compiler.compileInPlace_eq_shares`: a compilation is the sum of the shares
* `Compiler.compileInPlace_contributes`: a declaration gives the same share in every stylesheet with
  the same variables
* `Compiler.compileInPlace_eq_of_interleaves`: interleaving does not matter
-/

namespace Scss

/-! ## Shares -/

/-- What one declaration gives to a compilation. -/
structure Share where
  /-- The declaration resolved, or what stopped that. -/
  result : Except Diagnostic Declaration
  /-- What was reported on the way. -/
  warnings : List Diagnostic
  /-- The line of text, if there is one. -/
  line : Option String
  /-- What was reported on the way is not fatal. -/
  passes : ∀ e ∈ warnings, e.isFatal = false
  /-- What stops a declaration is fatal and leaves no line. -/
  stops : ∀ e, result = .error e → e.isFatal = true ∧ line = none

namespace Share

/-- All diagnostics of the declaration; the fatal one, if there is one, comes last. -/
def diagnostics (s : Share) : List Diagnostic :=
  s.warnings ++ match s.result with
    | .ok _ => []
    | .error e => [e]

/-- What stands in the place of the declaration `d`, which stays if it fails. -/
def declaration (s : Share) (d : Declaration) : Declaration :=
  match s.result with
  | .ok resolved => resolved
  | .error _ => d

end Share

namespace Stylesheet

/-- The two stylesheets have the same declarations of properties, and of each variable, in the same
order; they may differ in how these are interleaved. -/
structure Interleaves (sheet sheet' : Stylesheet) : Prop where
  properties : sheet.declarations = sheet'.declarations
  ofName : ∀ name, sheet.declarationsOf name = sheet'.declarationsOf name

theorem declarations_append (sheet sheet' : Stylesheet) :
    Stylesheet.declarations (sheet ++ sheet') = sheet.declarations ++ sheet'.declarations :=
  List.filterMap_append

theorem declarations_cons (d : Declaration) (sheet : Stylesheet) :
    Stylesheet.declarations (.declaration d :: sheet) = d :: sheet.declarations :=
  rfl

/-- A declaration of a property declares no variable. -/
theorem variableDeclarations_append_cons (before after : Stylesheet) (d : Declaration) :
    Stylesheet.variableDeclarations (before ++ .declaration d :: after) =
      Stylesheet.variableDeclarations (before ++ after) := by
  rw [variableDeclarations, variableDeclarations, List.filterMap_append, List.filterMap_append,
    List.filterMap_cons_none rfl]

end Stylesheet

namespace Compiler

variable {c : Compiler} {table : Variables} {bindings : Bindings} {sheet sheet' : Stylesheet}

/-- The share of a declaration, with the settled variables. -/
def share (c : Compiler) (table : Variables) (d : Declaration) : Share where
  result := (d.resolve c.scope table).result
  warnings := (d.resolve c.scope table).diagnostics
  line := (c.resolved? table d).bind fun resolved =>
    Option.guard (!·.isEmpty) (resolved.render c.options.output c.options.comments)
  passes := (d.reports_resolve c.scope table).passes
  stops e he := by
    have hfault : c.fault? table d = some e := fault?_eq_some_iff.2 he
    exact ⟨(stopsAt_of_fault hfault).isFatal, by rw [resolved?_of_fault hfault, Option.bind_none]⟩

/-- A statement after the compilation. -/
def replacement (c : Compiler) (table : Variables) : Statement → Statement
  | .variable v => .variable v
  | .declaration d => .declaration ((c.share table d).declaration d)

theorem statement_compileStatement (s : Statement) :
    (c.compileStatement table s).statement = c.replacement table s := by
  cases s with
  | «variable» v => rfl
  | declaration d =>
    rcases c.resolved_or_fault table d with ⟨d', h⟩ | ⟨e, h⟩
    · rw [(compileStatement_of_resolved h).1]
      simp [replacement, Share.declaration, share, resolved?_eq_some_iff.1 h]
    · rw [(compileStatement_of_fault h).1]
      simp [replacement, Share.declaration, share, fault?_eq_some_iff.1 h]

theorem diagnostics_compileStatement (s : Statement) :
    (c.compileStatement table s).journal.filterMap Entry.diagnostic? =
      s.asDeclaration?.toList.flatMap fun d => (c.share table d).diagnostics := by
  cases s with
  | «variable» v => rfl
  | declaration d =>
    rcases c.resolved_or_fault table d with ⟨d', h⟩ | ⟨e, h⟩
    · rw [(compileStatement_of_resolved h).2.2]
      simp [Statement.asDeclaration?, Share.diagnostics, share, resolved?_eq_some_iff.1 h]
    · rw [(compileStatement_of_fault h).2.2]
      simp [Statement.asDeclaration?, Share.diagnostics, share, fault?_eq_some_iff.1 h]

theorem diagnostics_compileAll (c : Compiler) (table : Variables) (sheet : Stylesheet) :
    (c.compileAll table sheet).diagnostics =
      sheet.declarations.flatMap fun d => (c.share table d).diagnostics := by
  rw [Stylesheet.declarations, List.filterMap_eq_flatMap_toList, List.flatMap_assoc]
  simp only [Outcome.diagnostics, compileAll, List.flatMap_map, List.filterMap_flatMap,
    diagnostics_compileStatement]

theorem lines_compileAll_eq_shares (c : Compiler) (table : Variables) (sheet : Stylesheet) :
    (sheet.map (c.compileStatement table)).filterMap CompiledStatement.line =
      sheet.declarations.filterMap fun d => (c.share table d).line := by
  rw [Stylesheet.declarations, List.filterMap_map, List.filterMap_filterMap]
  exact List.filterMap_congr fun s _ => c.line_compileStatement table s

/-- Once the variables are settled, a compilation is the sum of the shares. -/
theorem compileInPlace_eq_shares (hcollect : Bindings.collect sheet = .ok bindings)
    (hsettle : (bindings.settle c.scope).result = .ok table) :
    c.compileInPlace sheet =
      (.ok
        ⟨String.intercalate "\n" (sheet.declarations.filterMap fun d => (c.share table d).line),
          (bindings.settle c.scope).diagnostics ++
            sheet.declarations.flatMap fun d => (c.share table d).diagnostics⟩,
        sheet.map (c.replacement table)) := by
  obtain ⟨⟨css, diagnostics⟩, after, h⟩ := exists_compileInPlace_eq_ok hcollect hsettle
  obtain ⟨bindings', table', hcollect', hsettle', hall, hdiagnostics⟩ := compileInPlace_eq_ok h
  cases hcollect.symm.trans hcollect'
  cases hsettle.symm.trans hsettle'
  obtain ⟨hcss, rfl⟩ := Prod.mk.inj (Except.ok.inj hall)
  rw [h, ← diagnostics_compileAll, ← hdiagnostics, ← lines_compileAll_eq_shares, hcss, List.map_map]
  simp [Function.comp_def, statement_compileStatement]

/-! ## Declarations do not influence each other -/

/-- The compilation with the declaration `d` between `before` and `after` is the one without it,
with the share put in: its line among the lines, its diagnostics as one block among the diagnostics,
and what stands for the declaration in its place. -/
def Contributes (c : Compiler) (before : Stylesheet) (d : Declaration) (after : Stylesheet)
    (share : Share) : Prop :=
  ∃ (above below : List String) (earlier later : List Diagnostic) (front back : Stylesheet),
    front.length = before.length ∧
    c.compileInPlace (before ++ after) =
      (.ok ⟨String.intercalate "\n" (above ++ below), earlier ++ later⟩, front ++ back) ∧
    c.compileInPlace (before ++ .declaration d :: after) =
      (.ok ⟨String.intercalate "\n" (above ++ share.line.toList ++ below),
        earlier ++ share.diagnostics ++ later⟩, front ++ .declaration (share.declaration d) :: back)

theorem contributes_share {before after : Stylesheet} {d : Declaration}
    (hcollect : Bindings.collect (before ++ .declaration d :: after) = .ok bindings)
    (hsettle : (bindings.settle c.scope).result = .ok table) :
    c.Contributes before d after (c.share table d) := by
  have hwithout : Bindings.collect (before ++ after) = .ok bindings := by
    rwa [Bindings.collect, Stylesheet.variableDeclarations_append_cons] at hcollect
  refine ⟨before.declarations.filterMap fun d => (c.share table d).line,
    after.declarations.filterMap fun d => (c.share table d).line,
    (bindings.settle c.scope).diagnostics ++
      before.declarations.flatMap fun d => (c.share table d).diagnostics,
    after.declarations.flatMap fun d => (c.share table d).diagnostics,
    before.map (c.replacement table), after.map (c.replacement table), by simp, ?_, ?_⟩
  · rw [compileInPlace_eq_shares hwithout hsettle, Stylesheet.declarations_append]
    simp only [List.filterMap_append, List.flatMap_append, List.map_append, List.append_assoc]
  · rw [compileInPlace_eq_shares hcollect hsettle, Stylesheet.declarations_append,
      Stylesheet.declarations_cons]
    cases hline : (c.share table d).line <;> simp [hline, replacement]

/-- **Declarations do not influence each other.**  When the variables are settled, a declaration
gives the same share to the compilations of any two stylesheets with the same variables, wherever
it stands in them and whatever the other declarations are: it is resolved in the same way or
stopped by the same diagnostic, and its block of diagnostics and its line are the same. -/
theorem compileInPlace_contributes
    (hvariables : sheet.variableDeclarations = sheet'.variableDeclarations)
    (hcollect : Bindings.collect sheet = .ok bindings)
    (hsettle : (bindings.settle c.scope).result = .ok table) (d : Declaration) :
    ∃ share : Share,
      (∀ before after, sheet = before ++ .declaration d :: after →
        c.Contributes before d after share) ∧
      (∀ before after, sheet' = before ++ .declaration d :: after →
        c.Contributes before d after share) := by
  refine ⟨c.share table d, ?_, ?_⟩
  · rintro before after rfl
    exact contributes_share hcollect hsettle
  · rintro before after rfl
    -- The second stylesheet has the same variables, so the same bindings.
    rw [Bindings.collect, hvariables] at hcollect
    exact contributes_share hcollect hsettle

/-- A compiler with one function. -/
def quoting : Compiler :=
  ⟨{}, (Registry.ofGenerators [.quote]).1⟩

/-- A variable. -/
def tone : VariableDeclaration :=
  ⟨"tone", [.word "red"], false, some 1⟩

/-- A declaration that fails, since nothing opens its parenthesis. -/
def broken : Declaration :=
  ⟨"margin", [.operator .rightParen], false, none, some 2⟩

/-- A declaration that refers to the variable and calls an unknown function. -/
def shaded : Declaration :=
  ⟨"color", [.call "shade" [.variable "tone"]], false, none, some 3⟩

theorem settle_tone :
    ((Bindings.ofSheet [.variable tone]).settle quoting.scope).result.map Names.entries =
      .ok [("tone", [.word "red"])] := by
  cbv

theorem isSome_fault?_broken (c : Compiler) (table : Variables) :
    (c.fault? table broken).isSome = true := by
  rcases c.resolved_or_fault table broken with ⟨d', h⟩ | ⟨e, h⟩
  · obtain ⟨value, hvalue, -⟩ := Declaration.result_resolve_eq_ok_iff.1 (resolved?_eq_some_iff.1 h)
    obtain ⟨e, he, -⟩ := Value.result_resolve_eq_ok_iff.1 hvalue
    obtain ⟨operands, hoperands, heval⟩ := Value.result_evaluateOperands_eq_ok_iff.1 he
    cases hoperands
    have hfails : (Value.evaluate [.operator .rightParen]).isOk = false := by cbv
    rw [show Value.evaluate [.operator .rightParen] = .ok e from heval] at hfails
    cases hfails
  · simp [h]

/-- After a declaration that fails, and alone with the variable, a declaration gives one share. -/
theorem compileInPlace_contributes_shaded :
    ∃ table share,
      ((Bindings.ofSheet [.variable tone]).settle quoting.scope).result = .ok table ∧
      (quoting.fault? table broken).isSome = true ∧
      quoting.Contributes [.variable tone, .declaration broken] shaded [] share ∧
      quoting.Contributes [] shaded [.variable tone] share := by
  obtain ⟨table, hsettle, -⟩ := map_eq_ok_iff.1 settle_tone
  have hvariables : Stylesheet.variableDeclarations
      [.variable tone, .declaration broken, .declaration shaded] =
      Stylesheet.variableDeclarations [.declaration shaded, .variable tone] := rfl
  obtain ⟨share, hfirst, hsecond⟩ := compileInPlace_contributes hvariables rfl hsettle shaded
  exact ⟨table, share, hsettle, quoting.isSome_fault?_broken table, hfirst _ _ rfl,
    hsecond _ _ rfl⟩

/-! ## Interleaving does not matter -/

theorem declarations_replacement (sheet : Stylesheet) :
    Stylesheet.declarations (sheet.map (c.replacement table)) =
      sheet.declarations.map fun d => (c.share table d).declaration d := by
  rw [Stylesheet.declarations, Stylesheet.declarations, List.filterMap_map, List.map_filterMap]
  refine List.filterMap_congr fun s _ => ?_
  cases s <;> rfl

/-- **The order of independent declarations does not matter.**  Two stylesheets with the same
declarations of properties and of each variable, interleaved in any way, compile to the same text
with the same diagnostics, or fail for the same reason; and their declarations are the same
afterwards. -/
theorem compileInPlace_eq_of_interleaves (c : Compiler) (h : sheet.Interleaves sheet')
    (hcomplete : ∀ v ∈ sheet.variableDeclarations, v.Complete) :
    (c.compileInPlace sheet).1 = (c.compileInPlace sheet').1 ∧
      (c.compileInPlace sheet).2.declarations = (c.compileInPlace sheet').2.declarations := by
  obtain ⟨bindings, hcollect⟩ := Bindings.exists_collect_of_complete hcomplete
  have hcollect' : Bindings.collect sheet' = .ok bindings :=
    Bindings.collect_congr h.ofName hcomplete ▸ hcollect
  cases hsettle : (bindings.settle c.scope).result with
  | ok table =>
    rw [compileInPlace_eq_shares hcollect hsettle, compileInPlace_eq_shares hcollect' hsettle]
    simp only [h.properties, declarations_replacement, and_self]
  | error e =>
    -- Neither compilation reaches its declarations, which stay as they are.
    have hfails := compileInPlace_eq_error_iff.2 ⟨rfl, .inr ⟨bindings, hcollect, hsettle⟩⟩
    have hfails' := compileInPlace_eq_error_iff.2 ⟨rfl, .inr ⟨bindings, hcollect', hsettle⟩⟩
    rw [hfails, hfails']
    exact ⟨rfl, h.properties⟩

/-- A declaration that yields to the one above. -/
def otherTone : VariableDeclaration :=
  ⟨"tone", [.word "blue"], true, some 4⟩

/-- A variable that refers to the one above. -/
def edge : VariableDeclaration :=
  ⟨"edge", [.variable "tone", .word "solid"], false, some 5⟩

/-- Variables before and after the declarations that refer to them. -/
def scattered : Stylesheet :=
  [.declaration shaded, .variable edge, .variable tone, .declaration broken, .variable otherTone]

/-- The same statements with the variables first. -/
def gathered : Stylesheet :=
  [.variable tone, .variable otherTone, .variable edge, .declaration shaded, .declaration broken]

theorem interleaves_scattered_gathered : scattered.Interleaves gathered where
  properties := rfl
  ofName name := by
    show [edge, tone, otherTone].filter (·.name = name) =
      [tone, otherTone, edge].filter (·.name = name)
    by_cases hname : "tone" = name
    · subst hname
      rfl
    · simp [List.filter_cons, tone, otherTone, hname]

theorem complete_scattered : ∀ v ∈ scattered.variableDeclarations, v.Complete := by
  show ∀ v ∈ [edge, tone, otherTone], v.Complete
  simp [VariableDeclaration.Complete, edge, tone, otherTone]

/-- With the variables first, the stylesheet compiles to the same text and diagnostics. -/
theorem compileInPlace_eq_of_interleaves_gathered :
    scattered.Interleaves gathered ∧ (∀ v ∈ scattered.variableDeclarations, v.Complete) ∧
      (quoting.compileInPlace scattered).1 = (quoting.compileInPlace gathered).1 :=
  ⟨interleaves_scattered_gathered, complete_scattered,
    (quoting.compileInPlace_eq_of_interleaves interleaves_scattered_gathered
      complete_scattered).1⟩

end Compiler

end Scss
