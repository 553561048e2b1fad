import Scss.Compile.Settle
import Scss.Proofs.SettlingPlan

/-!
# Collected variables

The bindings of a stylesheet hold exactly the variables it declares, each with the declaration that
counts: the last one without `!default`, or the first one if all of them yield.  Every declaration
must have a name and a value, one that yields to another too; the first that lacks one of them is
reported.

## Main definitions

* `Stylesheet.Declares`: a name that a stylesheet declares as a variable
* `Stylesheet.PlainVariables`: no variable is declared under a name with a leading `$`
* `Stylesheet.declarationsOf`: the declarations of one variable
* `VariableDeclaration.effective`: the declaration that counts among those of one variable
* `VariableDeclaration.Complete`: a declaration with a name and a value
* `VariableDeclaration.missing`: the report of a declaration that lacks one of them

## Main results

* `Bindings.contains_collect_iff`: the collected variables are the declared ones
* `Bindings.find?_collect`: the collected binding is that of the declaration that counts
* `Bindings.exists_collect_of_complete`: complete declarations can be collected
* `Bindings.collect_congr`: what is collected depends on the declarations of each name only
* `Bindings.collect_effective`: what is collected, and what is reported instead
-/

namespace Scss

/-- The stylesheet declares a variable of this name. -/
def Stylesheet.Declares (sheet : Stylesheet) (name : String) : Prop :=
  ∃ d ∈ sheet.variableDeclarations, d.name = name

/-- No variable of the stylesheet is declared under a name with a leading `$`. -/
def Stylesheet.PlainVariables (sheet : Stylesheet) : Prop :=
  ∀ d ∈ sheet.variableDeclarations, PlainName d.name

instance (sheet : Stylesheet) : Decidable sheet.PlainVariables :=
  inferInstanceAs (Decidable (∀ d ∈ sheet.variableDeclarations, PlainName d.name))

/-- The declarations of one variable, in order. -/
def Stylesheet.declarationsOf (sheet : Stylesheet) (name : String) : List VariableDeclaration :=
  sheet.variableDeclarations.filter (·.name = name)

namespace VariableDeclaration

/-- Of the declarations of one variable, the one that counts: the last one without `!default`, or
else the first one. -/
def effective (ds : List VariableDeclaration) : Option VariableDeclaration :=
  (ds.filter (!·.guarded)).getLast?.or ds.head?

theorem mem_of_effective {ds : List VariableDeclaration} {v : VariableDeclaration}
    (h : effective ds = some v) : v ∈ ds := by
  rcases Option.or_eq_some_iff.1 h with h | ⟨-, h⟩
  · exact (List.mem_filter.1 (List.mem_of_getLast? h)).1
  · exact List.mem_of_head? h

/-- The declaration has a name and a value. -/
def Complete (v : VariableDeclaration) : Prop :=
  v.name ≠ "" ∧ v.expression ≠ []

/-- The report of a declaration without a name or without a value. -/
def missing (v : VariableDeclaration) : Diagnostic :=
  .invalidVariable v.name (if v.name = "" then "missing name" else "missing value") v.line

/-- All declarations have a name and a value, or there is a first one that has not. -/
theorem complete_or_first_incomplete (ds : List VariableDeclaration) :
    (∀ v ∈ ds, v.Complete) ∨
      ∃ before v after, ds = before ++ v :: after ∧ (∀ w ∈ before, w.Complete) ∧
        ¬v.Complete := by
  induction ds with
  | nil => exact .inl (by simp)
  | cons w ds ih =>
    by_cases hw : w.Complete
    · rcases ih with hall | ⟨before, v, after, rfl, hbefore, hv⟩
      · exact .inl (List.forall_mem_cons.2 ⟨hw, hall⟩)
      · exact .inr ⟨w :: before, v, after, rfl, List.forall_mem_cons.2 ⟨hw, hbefore⟩, hv⟩
    · exact .inr ⟨[], w, ds, rfl, by simp, hw⟩

/-- The binding that the declaration makes. -/
def binding (v : VariableDeclaration) : Binding :=
  ⟨v.expression, v.line⟩

end VariableDeclaration

namespace Bindings

variable {bindings bindings' : Bindings} {sheet : Stylesheet} {v : VariableDeclaration}
  {ds : List VariableDeclaration}

/-! ## The names -/

/-- A recorded declaration adds its own name, if it is new, and no other. -/
theorem contains_record_iff (h : bindings.record v = .ok bindings')
    (x : String) : bindings'.contains x = true ↔ bindings.contains x = true ∨ v.name = x := by
  unfold record at h
  split at h
  · cases h
  · split at h
    · cases h
    · split at h
      · rename_i hguard
        cases h
        have hold : bindings.contains v.name = true := (Bool.and_eq_true_iff.1 hguard).2
        refine ⟨.inl, ?_⟩
        rintro (hx | rfl)
        · exact hx
        · exact hold
      · cases h
        rw [Names.contains_insert, or_comm, @eq_comm _ x v.name]

theorem contains_recordAll_iff (h : bindings.recordAll ds = .ok bindings') (x : String) :
    bindings'.contains x = true ↔ bindings.contains x = true ∨ ∃ d ∈ ds, d.name = x := by
  induction ds generalizing bindings with
  | nil =>
    cases h
    simp
  | cons v rest ih =>
    cases hv : bindings.record v with
    | error e => simp [recordAll, hv, bind, Except.bind] at h
    | ok next =>
      have hrest : next.recordAll rest = .ok bindings' := by
        simpa [recordAll, hv, bind, Except.bind] using h
      rw [ih hrest, contains_record_iff hv]
      simp [or_assoc]

/-- The collected variables are the declared ones. -/
theorem contains_collect_iff (h : collect sheet = .ok bindings) (x : String) :
    bindings.contains x = true ↔ sheet.Declares x := by
  rw [contains_recordAll_iff h]
  simp [Stylesheet.Declares]

theorem plainNames_of_collect (h : collect sheet = .ok bindings) (hp : sheet.PlainVariables) :
    bindings.PlainNames := by
  intro x hx
  obtain ⟨d, hd, rfl⟩ := (contains_collect_iff h x).1 hx
  exact hp d hd

/-! ## The declarations that count -/

theorem record_of_complete (h : v.Complete) :
    bindings.record v = .ok (if v.guarded && bindings.contains v.name then bindings
      else bindings.insert v.name v.binding) := by
  obtain ⟨hname, hvalue⟩ := h
  rw [record, if_neg (by simpa using hname), if_neg (by simpa using hvalue)]
  split <;> rfl

theorem complete_of_record (h : bindings.record v = .ok bindings') : v.Complete := by
  unfold record at h
  split at h
  · cases h
  · rename_i hname
    split at h
    · cases h
    · rename_i hvalue
      exact ⟨by simpa using hname, by simpa using hvalue⟩

theorem exists_recordAll_of_complete (h : ∀ v ∈ ds, v.Complete) :
    ∃ bindings', bindings.recordAll ds = .ok bindings' := by
  induction ds generalizing bindings with
  | nil => exact ⟨bindings, rfl⟩
  | cons v rest ih =>
    obtain ⟨bindings', h'⟩ := ih fun w hw => h w (List.mem_cons_of_mem _ hw)
    rw [recordAll, record_of_complete (h v List.mem_cons_self)]
    exact ⟨bindings', h'⟩

/-- Complete declarations can be collected. -/
theorem exists_collect_of_complete (h : ∀ v ∈ sheet.variableDeclarations, v.Complete) :
    ∃ bindings, collect sheet = .ok bindings :=
  exists_recordAll_of_complete h

/-- A recorded declaration is found under its name, unless it yields to an earlier one. -/
theorem find?_record (h : bindings.record v = .ok bindings') (x : String) :
    bindings'.find? x =
      if v.name = x ∧ ¬ (v.guarded = true ∧ bindings.contains x = true) then some v.binding
      else bindings.find? x := by
  rw [record_of_complete (complete_of_record h)] at h
  cases h
  by_cases hx : v.name = x
  · subst hx
    split <;> simp_all [Names.find?_insert]
  · split <;> simp [hx, Names.find?_insert, Ne.symm hx]

/-- What is found after some declarations: the last one without `!default`, else what was there
before, else the first one. -/
theorem find?_recordAll (h : bindings.recordAll ds = .ok bindings') (x : String) :
    bindings'.find? x =
      (((ds.filter (·.name = x)).filter (!·.guarded)).getLast?.map (·.binding)).or
        ((bindings.find? x).or ((ds.filter (·.name = x)).head?.map (·.binding))) := by
  induction ds generalizing bindings with
  | nil =>
    cases h
    simp
  | cons v rest ih =>
    obtain ⟨next, hv, hrest⟩ := bind_eq_ok_iff.1 h
    rw [ih hrest, find?_record hv]
    by_cases hx : v.name = x
    · rw [List.filter_cons_of_pos (by simpa using hx)]
      cases hg : v.guarded with
      | false =>
        -- It counts until a later one does.
        rw [List.filter_cons_of_pos (by simp [hg]), List.getLast?_cons]
        cases ((rest.filter (·.name = x)).filter (!·.guarded)).getLast? <;> simp [hx]
      | true =>
        -- It counts if nothing was there before.
        rw [List.filter_cons_of_neg (by simp [hg])]
        congr 1
        cases hfind : bindings.find? x <;> simp [hx, Names.contains, hfind]
    · rw [List.filter_cons_of_neg (by simpa using hx)]
      simp [hx]

/-- The collected binding of a variable is that of the declaration that counts. -/
theorem find?_collect (h : collect sheet = .ok bindings) (x : String) :
    bindings.find? x =
      (VariableDeclaration.effective (sheet.declarationsOf x)).map (·.binding) := by
  rw [find?_recordAll h, VariableDeclaration.effective, Stylesheet.declarationsOf]
  simp [Option.map_or]

/-- What is collected depends on the declarations of each name only. -/
theorem collect_congr {sheet' : Stylesheet}
    (h : ∀ x, sheet.declarationsOf x = sheet'.declarationsOf x)
    (hcomplete : ∀ v ∈ sheet.variableDeclarations, v.Complete) :
    collect sheet = collect sheet' := by
  have hcomplete' : ∀ v ∈ sheet'.variableDeclarations, v.Complete := by
    intro v hv
    have hmem : v ∈ sheet'.declarationsOf v.name := List.mem_filter.2 ⟨hv, by simp⟩
    rw [← h] at hmem
    exact hcomplete v (List.mem_filter.1 hmem).1
  obtain ⟨bindings, hc⟩ := exists_collect_of_complete hcomplete
  obtain ⟨bindings', hc'⟩ := exists_collect_of_complete hcomplete'
  have heq : bindings = bindings' := Names.ext_find? fun x => by
    rw [find?_collect hc, find?_collect hc', h]
  rw [hc, hc', heq]

/-- A collected binding is that of a declaration in the stylesheet. -/
theorem exists_effective_of_find? {x : String} {b : Binding} (h : collect sheet = .ok bindings)
    (hb : bindings.find? x = some b) :
    ∃ d, VariableDeclaration.effective (sheet.declarationsOf x) = some d ∧
      d ∈ sheet.variableDeclarations ∧ d.binding = b := by
  rw [find?_collect h] at hb
  obtain ⟨d, hd, rfl⟩ := Option.map_eq_some_iff.1 hb
  exact ⟨d, hd, (List.mem_filter.1 (VariableDeclaration.mem_of_effective hd)).1, rfl⟩

/-! ## The declarations that are refused -/

theorem record_of_incomplete (h : ¬v.Complete) : bindings.record v = .error v.missing := by
  unfold record VariableDeclaration.missing
  by_cases hname : v.name = ""
  · rw [if_pos (by simp [hname]), if_pos hname, hname]
  · have hvalue : v.expression = [] := by
      by_contra hvalue
      exact h ⟨hname, hvalue⟩
    rw [if_neg (by simpa using hname), if_pos (by simp [hvalue]), if_neg hname]

/-- The first declaration that lacks a name or a value is reported, whatever follows it. -/
theorem recordAll_of_incomplete {before after : List VariableDeclaration}
    (hbefore : ∀ w ∈ before, w.Complete) (hv : ¬v.Complete) :
    bindings.recordAll (before ++ v :: after) = .error v.missing := by
  induction before generalizing bindings with
  | nil =>
    rw [List.nil_append, recordAll, record_of_incomplete hv]
    rfl
  | cons w before ih =>
    obtain ⟨hw, hbefore⟩ := List.forall_mem_cons.1 hbefore
    rw [List.cons_append, recordAll, record_of_complete hw]
    exact ih hbefore

theorem collect_eq_error_iff {diagnostic : Diagnostic} :
    collect sheet = .error diagnostic ↔
      ∃ before v after, sheet.variableDeclarations = before ++ v :: after ∧
        (∀ w ∈ before, w.Complete) ∧ ¬v.Complete ∧ diagnostic = v.missing := by
  constructor
  · intro h
    rcases VariableDeclaration.complete_or_first_incomplete sheet.variableDeclarations with
      hall | ⟨before, v, after, heq, hbefore, hv⟩
    · obtain ⟨bindings, hc⟩ := exists_collect_of_complete hall
      rw [hc] at h
      cases h
    · rw [collect, heq, recordAll_of_incomplete hbefore hv] at h
      exact ⟨before, v, after, heq, hbefore, hv, (Except.error.inj h).symm⟩
  · rintro ⟨before, v, after, heq, hbefore, hv, rfl⟩
    rw [collect, heq, recordAll_of_incomplete hbefore hv]

/-- Declarations that are collected all have a name and a value. -/
theorem complete_of_collect (h : collect sheet = .ok bindings) :
    ∀ v ∈ sheet.variableDeclarations, v.Complete := by
  rcases VariableDeclaration.complete_or_first_incomplete sheet.variableDeclarations with
    hall | ⟨before, v, after, heq, hbefore, hv⟩
  · exact hall
  · rw [collect, heq, recordAll_of_incomplete hbefore hv] at h
    cases h

/-- The bindings are determined by what is found under each name. -/
theorem collect_eq_ok_iff :
    collect sheet = .ok bindings ↔
      (∀ v ∈ sheet.variableDeclarations, v.Complete) ∧
      ∀ name, bindings.find? name =
        (VariableDeclaration.effective (sheet.declarationsOf name)).map (·.binding) := by
  constructor
  · intro h
    exact ⟨complete_of_collect h, find?_collect h⟩
  · rintro ⟨hcomplete, hfind⟩
    obtain ⟨bindings', hc⟩ := exists_collect_of_complete hcomplete
    have heq : bindings' = bindings := Names.ext_find? fun name => by
      rw [find?_collect hc, hfind]
    rw [hc, heq]

/-- **Which declaration of a variable counts.**  The bindings of a stylesheet can be collected
exactly if every declaration of a variable has a name and a value; under each name they hold the
expression and the line of its last declaration without `!default`, or of its first one if there is
none, and under a name without declarations nothing.  Otherwise the first declaration that lacks a
name or a value is reported, even if it yields to another one. -/
theorem collect_effective (sheet : Stylesheet) :
    (∀ bindings, collect sheet = .ok bindings ↔
      (∀ v ∈ sheet.variableDeclarations, v.Complete) ∧
      ∀ name, bindings.find? name =
        (VariableDeclaration.effective (sheet.declarationsOf name)).map (·.binding)) ∧
    (∀ bindings name, collect sheet = .ok bindings →
      (bindings.contains name = true ↔ sheet.Declares name)) ∧
    (∀ diagnostic, collect sheet = .error diagnostic ↔
      ∃ before v after, sheet.variableDeclarations = before ++ v :: after ∧
        (∀ w ∈ before, w.Complete) ∧ ¬v.Complete ∧ diagnostic = v.missing) :=
  ⟨fun _ => collect_eq_ok_iff, fun _ name h => contains_collect_iff h name,
    fun _ => collect_eq_error_iff⟩

/-- Two variables that are declared more than once. -/
def redeclared : Stylesheet :=
  [.variable ⟨"gap", [.number 1], true, some 1⟩, .variable ⟨"gap", [.number 2], false, some 2⟩,
    .variable ⟨"tone", [.word "red"], true, some 3⟩, .variable ⟨"gap", [.number 3], true, some 4⟩,
    .variable ⟨"tone", [.word "blue"], true, some 5⟩]

theorem collect_effective_redeclared :
    (∃ bindings, collect redeclared = .ok bindings ∧
      bindings.find? "gap" = some ⟨[.number 2], some 2⟩ ∧
      bindings.find? "tone" = some ⟨[.word "red"], some 3⟩ ∧
      (bindings.contains "size" = true ↔ redeclared.Declares "size")) ∧
    collect (redeclared ++ [.variable ⟨"gap", [], true, some 6⟩]) =
      .error (.invalidVariable "gap" "missing value" (some 6)) := by
  have hcomplete : ∀ v ∈ redeclared.variableDeclarations, v.Complete := by
    simp [redeclared, Stylesheet.variableDeclarations, Statement.asVariable?,
      VariableDeclaration.Complete]
  obtain ⟨bindings, hc⟩ := exists_collect_of_complete hcomplete
  obtain ⟨hok, hnames, -⟩ := collect_effective redeclared
  obtain ⟨-, hfind⟩ := (hok bindings).1 hc
  refine ⟨⟨bindings, hc, hfind "gap", hfind "tone", hnames bindings "size" hc⟩, ?_⟩
  refine ((collect_effective _).2.2 _).2
    ⟨redeclared.variableDeclarations, _, [], rfl, hcomplete, ?_, rfl⟩
  exact fun h => h.2 rfl

end Bindings

end Scss
