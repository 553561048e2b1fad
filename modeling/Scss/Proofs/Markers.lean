import Scss.Proofs.Compilation
import Scss.Proofs.SettlingOrder
import Scss.Proofs.Substitution

/-!
# Markers in the values of variables

A substitution looks up the names of references and those in markers, and depends on nothing else
of the table.  Settling orders the variables by their references alone: when a variable gets its
value, the variables before it in the plan have theirs, and a marker is replaced if it names one of
them.  A marker that names a later variable stays as it is written.

## Main definitions

* `markedName`: the variable that a marker names
* `Value.reads`: the variables that a substitution looks up
* `Bindings.before`: the variables that are settled before a variable
* `Bindings.SettledInOrder`: values that were resolved with what was settled before them

## Main results

* `Value.resolve_congr`: a resolution depends on the variables it reads
* `Bindings.lookup_of_settle`: a settled value is a resolution with the variables before it
* `Bindings.settle_expands_markers`: the markers that settling replaces
* `Bindings.marker_stays`: a marker that settling does not replace
-/

namespace Scss

/-! ## Names that are looked up -/

/-- The variable that the inner text of a marker names, without its `$`. -/
def markedName (inner : List Char) : Option String :=
  match Text.trim inner with
  | '$' :: name => some (bareName (String.ofList name))
  | _ => none

theorem Variables.marked_eq_bind (t : Variables) (inner : List Char) :
    t.marked inner = (markedName inner).bind t.find? := by
  unfold marked markedName
  rcases Text.trim inner with _ | ⟨c, name⟩
  · rfl
  · by_cases hc : c = '$'
    · subst hc
      rfl
    · simp [hc]

theorem Variables.expandMarker_of_name {inner : List Char} {y : String}
    (h : markedName inner = some y) (t : Variables) (s : Style) :
    t.expandMarker s inner =
      match t.find? y with
      | some v => (s.renderBare v).toList
      | none => Template.writeMarker inner := by
  rw [expandMarker, marked_eq_bind, h]
  rfl

mutual

/-- The variables, without `$`, that a substitution looks up in a term: those it refers to and
those that its markers name. -/
def Term.reads : Term → List String
  | .variable name => [bareName name]
  | .word text | .string text =>
    (Template.parse text.toList).markers.filterMap fun m => markedName m.inner
  | .call _ parameters => Value.reads parameters
  | _ => []

/-- The variables, without `$`, that a substitution looks up in a value. -/
def Value.reads : Value → List String
  | [] => []
  | t :: rest => t.reads ++ Value.reads rest

end

theorem Variables.interpolate_congr {t u : Variables} {text : String} (s : Style)
    (h : ∀ y ∈ (Template.parse text.toList).markers.filterMap fun m => markedName m.inner,
      t.find? y = u.find? y) :
    t.interpolate s text = u.interpolate s text := by
  unfold interpolate Template.expand
  congr 2
  refine List.flatMap_congr fun m hm => ?_
  congr 1
  unfold expandMarker
  rw [marked_eq_bind, marked_eq_bind]
  cases hname : markedName m.inner with
  | none => rfl
  | some y => rw [Option.bind_some, Option.bind_some, h y (List.mem_filterMap.2 ⟨m, hm, hname⟩)]

namespace Value

variable {t u : Variables} {v : Value}

theorem reads_classify (v : Value) : v.classify.reads = v.reads :=
  classifyAfter_eq (fun _ _ => by rw [reads]) (fun _ _ _ h => by rw [Term.reads, Term.reads, h])
    (fun _ => rfl) (fun _ => rfl) v _ _

/-- A substitution depends only on the variables that it reads. -/
theorem substitute_congr (s : Style) (h : ∀ y ∈ v.reads, t.find? y = u.find? y) :
    v.substitute t s = v.substitute u s := by
  induction v using Value.induction with
  | nil => rw [Value.substitute, Value.substitute]
  | call name ps rest ihps ihrest =>
    have hps := ihps fun y hy => h y (by simp [reads, Term.reads, hy])
    have hrest := ihrest fun y hy => h y (by simp [reads, hy])
    simp only [Value.substitute, Term.substitute, hps, hrest]
  | other first rest hcall ih =>
    have hrest := ih fun y hy => h y (by simp [reads, hy])
    have hfirst : ∀ y ∈ first.reads, t.find? y = u.find? y := fun y hy =>
      h y (by simp [reads, hy])
    have hterm : first.substitute t s = first.substitute u s := by
      cases first with
      | call => cases hcall
      | «variable» name =>
        have hname : t.lookup name = u.lookup name := hfirst _ (by simp [Term.reads])
        simp only [Term.substitute, hname]
      | word text =>
        simp only [Term.substitute, Variables.interpolate_congr s hfirst]
      | string text =>
        simp only [Term.substitute, Variables.interpolate_congr s hfirst]
      | _ => rw [Term.substitute, Term.substitute] <;> simp
    rw [Value.substitute, Value.substitute, hterm, hrest]

/-- A resolution depends only on the variables that it reads. -/
theorem resolve_congr (scope : Scope) (site : Site) (h : ∀ y ∈ v.reads, t.find? y = u.find? y) :
    v.resolve scope t site = v.resolve scope u site := by
  have hsubst := substitute_congr (v := v.classify) scope.style (by rwa [reads_classify])
  simp only [resolve, hsubst]

end Value

/-! ## Values in the order of the plan -/

namespace Bindings

variable {bindings : Bindings} {scope : Scope} {table : Variables} {x y : String} {b : Binding}

/-- The variables that are settled before `x`. -/
def before (bindings : Bindings) (x : String) : List String :=
  bindings.plan.order.takeWhile (· ≠ x)

/-- The table holds values for variables in `done` only, and each of these was resolved with the
values of the variables before it. -/
structure SettledInOrder (bindings : Bindings) (scope : Scope) (done : List String)
    (table : Variables) : Prop where
  keys : ∀ y, table.contains y = true → y ∈ done
  values : ∀ x ∈ done, ∀ b, bindings.find? x = some b → ∃ v, table.find? x = some v ∧
    (b.expression.resolve scope (table.only (done.takeWhile (· ≠ x)))
      ⟨"$" ++ x, b.line⟩).result = .ok v

theorem takeWhile_ne_append {pre post : List String} (h : x ∉ pre) :
    (pre ++ x :: post).takeWhile (· ≠ x) = pre := by
  have hpre : ∀ y ∈ pre, decide (y ≠ x) = true := fun y hy =>
    decide_eq_true fun heq => h (heq ▸ hy)
  rw [List.takeWhile_append_of_pos hpre, List.takeWhile_cons_of_neg (by simp), List.append_nil]

theorem SettledInOrder.bind {done : List String} {v : Value}
    (h : bindings.SettledInOrder scope done table) (hplain : PlainName x)
    (hb : bindings.find? x = some b) (hx : x ∉ done)
    (hv : (b.expression.resolve scope table ⟨"$" ++ x, b.line⟩).result = .ok v) :
    bindings.SettledInOrder scope (done ++ [x]) (table.bind x v) := by
  rw [Variables.bind, bareName_of_plain hplain]
  have hdone : ∀ y ∈ done, y ≠ x := fun y hy heq => hx (heq ▸ hy)
  refine ⟨fun y hy => ?_, fun z hz b' hb' => ?_⟩
  · rcases (Names.contains_insert _ _ _ _).1 hy with rfl | hy
    · simp
    · simp [h.keys y hy]
  · rcases List.mem_append.1 hz with hz | hz
    · -- An earlier value is resolved as before: the new one is cut off.
      obtain ⟨w, hw, hresolve⟩ := h.values z hz b' hb'
      have htake : (done ++ [x]).takeWhile (· ≠ z) = done.takeWhile (· ≠ z) := by
        obtain ⟨pre, post, rfl, hpre⟩ := List.eq_append_cons_of_mem hz
        rw [List.append_assoc, List.cons_append, takeWhile_ne_append hpre,
          takeWhile_ne_append hpre]
      refine ⟨w, ?_, ?_⟩
      · rw [Names.find?_insert, if_neg (hdone z hz), hw]
      · rw [htake, Names.only_insert_of_notMem fun hmem => hx (List.takeWhile_subset _ hmem)]
        exact hresolve
    · -- The new value is resolved with all that there is so far.
      obtain rfl := List.mem_singleton.1 hz
      obtain rfl := Option.some.inj (hb.symm.trans hb')
      refine ⟨v, by rw [Names.find?_insert, if_pos rfl], ?_⟩
      rw [takeWhile_ne_append hx, Names.only_insert_of_notMem hx, Names.only_of_keys h.keys]
      exact hv

theorem settledInOrder_of_settle (hplain : bindings.PlainNames)
    (h : (bindings.settle scope).result = .ok table) :
    bindings.SettledInOrder scope bindings.plan.order table := by
  refine settle_induction hplain ?_ ⟨by simp, by simp⟩ h
  intro done x b t v hb hx _ hsettled hv
  exact hsettled.bind (hplain x (Names.contains_of_find? hb)) hb hx hv

/-- The value of a settled variable is its expression resolved with the variables before it. -/
theorem lookup_of_settle (hplain : bindings.PlainNames)
    (h : (bindings.settle scope).result = .ok table) (hb : bindings.find? x = some b) :
    ∃ v, table.find? x = some v ∧
      (b.expression.resolve scope (table.only (bindings.before x))
        ⟨"$" ++ x, b.line⟩).result = .ok v := by
  have hmem : x ∈ bindings.plan.order :=
    (mem_plan_order_iff (plan_circle_of_settle hplain h) x).2 (Names.contains_of_find? hb)
  exact (settledInOrder_of_settle hplain h).values x hmem b hb

/-- What a variable refers to is settled before it. -/
theorem mem_before_of_refers (hx : x ∈ bindings.plan.order) (hxy : bindings.Refers x y) :
    y ∈ bindings.before x := by
  obtain ⟨pre, post, horder, hpre⟩ := List.eq_append_cons_of_mem hx
  have hy := bindings.ready_plan.mem_before horder hxy
  rw [before, horder, takeWhile_ne_append hpre]
  simpa using hy

/-- With the variables before `x`, a marker that names a settled variable is replaced by its bare
text, if that variable is one of them, and stays otherwise. -/
theorem expandMarker_only {inner : List Char} {names : List String} {w : Value} {s : Style}
    (hname : markedName inner = some y) (hw : table.find? y = some w) :
    Variables.expandMarker (table.only names) s inner =
      if y ∈ names then (s.renderBare w).toList else Template.writeMarker inner := by
  rw [Variables.expandMarker_of_name hname, Names.find?_only]
  by_cases hy : y ∈ names
  · simp only [if_pos hy, hw]
  · simp only [if_neg hy]

/-- Where all declared variables that an expression reads are settled before, the whole table gives
the same as the variables before. -/
theorem resolve_only_before {sheet : Stylesheet} (hcollect : collect sheet = .ok bindings)
    (hnames : bindings.PlainNames) (h : (bindings.settle scope).result = .ok table)
    (hreads : ∀ y ∈ b.expression.reads, sheet.Declares y → y ∈ bindings.before x) (site : Site) :
    b.expression.resolve scope (table.only (bindings.before x)) site =
      b.expression.resolve scope table site := by
  refine Value.resolve_congr scope site fun y hy => ?_
  rw [Names.find?_only]
  split
  · rfl
  · rename_i hbefore
    cases hfind : table.find? y with
    | none => rfl
    | some v =>
      have horder := (settledInOrder_of_settle hnames h).keys y (Names.contains_of_find? hfind)
      have hc := plan_circle_of_settle hnames h
      have hdeclares := (contains_collect_iff hcollect y).1 ((mem_plan_order_iff hc y).1 horder)
      exact absurd (hreads y hy hdeclares) hbefore

/-- **Settling replaces the markers of variables that are settled before.**  A settled variable is
its expression resolved with the variables before it.  There a marker of a declared variable gives
way to that variable's bare text if the variable is one of these, and stays as written otherwise.
All that the variable refers to is before it; if all that its markers name is, too, its value is
resolved with all settled variables.  And only a circle of references is an invalid variable. -/
theorem settle_expands_markers {sheet : Stylesheet} (hcollect : collect sheet = .ok bindings)
    (hplain : sheet.PlainVariables) (scope : Scope) :
    (∀ table, (bindings.settle scope).result = .ok table → ∀ x b, bindings.find? x = some b →
      ∃ v, table.lookup x = some v ∧
        (b.expression.resolve scope (table.only (bindings.before x))
          ⟨"$" ++ x, b.line⟩).result = .ok v ∧
        (∀ inner y, markedName inner = some y → sheet.Declares y →
          ∃ w, table.lookup y = some w ∧
            Variables.expandMarker (table.only (bindings.before x)) scope.style inner =
              if y ∈ bindings.before x then (scope.style.renderBare w).toList
              else Template.writeMarker inner) ∧
        (∀ y, bindings.Refers x y → y ∈ bindings.before x) ∧
        ((∀ y ∈ b.expression.reads, sheet.Declares y → y ∈ bindings.before x) →
          (b.expression.resolve scope table ⟨"$" ++ x, b.line⟩).result = .ok v)) ∧
    ∀ name message line,
      (bindings.settle scope).result = .error (.invalidVariable name message line) →
        ∃ rest, bindings.IsCircle (name :: rest) := by
  have hnames : bindings.PlainNames := plainNames_of_collect hcollect hplain
  refine ⟨fun table h x b hb => ?_, fun name message line h => ?_⟩
  · have hx : bindings.contains x = true := Names.contains_of_find? hb
    have horder := (mem_plan_order_iff (plan_circle_of_settle hnames h) x).2 hx
    obtain ⟨v, hv, hresolve⟩ := lookup_of_settle hnames h hb
    refine ⟨v, ?_, hresolve, fun inner y hname hy => ?_, fun y => mem_before_of_refers horder,
      fun hreads => ?_⟩
    · rw [table.lookup_of_plain (hnames x hx), hv]
    · have hbinds := binds_of_settle hnames h ((contains_collect_iff hcollect y).2 hy)
      obtain ⟨w, hw⟩ := Variables.binds_eq_true_iff.1 hbinds
      refine ⟨w, hw, expandMarker_only hname ?_⟩
      rwa [table.lookup_of_plain (hnames y ((contains_collect_iff hcollect y).2 hy))] at hw
    · rw [← resolve_only_before hcollect hnames h hreads]
      exact hresolve
  · obtain ⟨path, hc, -⟩ := settle_eq_invalidVariable hnames h
    obtain ⟨rest, -, hcircle⟩ := isCircle_of_plan hc
    exact ⟨rest, hcircle⟩

/-- Two variables with markers of each other. -/
def markerCircle : Stylesheet :=
  [.variable ⟨"a", [.string "#\x7b$b\x7d"], false, some 1⟩,
    .variable ⟨"b", [.word "x-#\x7b $a \x7d"], false, some 2⟩]

theorem settle_markerCircle (scope : Scope) :
    ((ofSheet markerCircle).settle scope).result.isOk = true := by
  cbv

theorem before_markerCircle :
    (ofSheet markerCircle).before "a" = [] ∧ (ofSheet markerCircle).before "b" = ["a"] := by
  constructor <;> cbv

/-- The marker in the second variable is replaced, that in the first one stays. -/
theorem settle_expands_markers_markerCircle :
    markerCircle.PlainVariables ∧ ∃ table w,
      ((ofSheet markerCircle).settle ⟨.builtin, .standard⟩).result = .ok table ∧
      table.lookup "a" = some w ∧
      Variables.expandMarker (table.only ["a"]) .standard [' ', '$', 'a', ' '] =
        (Style.standard.renderBare w).toList ∧
      Variables.expandMarker (table.only []) .standard ['$', 'b'] =
        Template.writeMarker ['$', 'b'] := by
  have hplain : markerCircle.PlainVariables := by decide
  have hcollect : collect markerCircle = .ok (ofSheet markerCircle) := rfl
  have hok := settle_markerCircle ⟨.builtin, .standard⟩
  obtain ⟨hbefore_a, hbefore_b⟩ := before_markerCircle
  cases h : ((ofSheet markerCircle).settle ⟨.builtin, .standard⟩).result with
  | error e =>
    rw [h] at hok
    cases hok
  | ok table =>
    have hmarkers := (settle_expands_markers hcollect hplain ⟨.builtin, .standard⟩).1 table h
    obtain ⟨-, -, -, hexpand_a, -⟩ := hmarkers "a" _ rfl
    obtain ⟨-, -, -, hexpand_b, -⟩ := hmarkers "b" _ rfl
    have hdeclares_a := (contains_collect_iff hcollect "a").1 rfl
    have hdeclares_b := (contains_collect_iff hcollect "b").1 rfl
    obtain ⟨_, _, hstays⟩ := hexpand_a ['$', 'b'] "b" (by decide) hdeclares_b
    obtain ⟨w, hw, hreplaced⟩ := hexpand_b [' ', '$', 'a', ' '] "a" (by decide) hdeclares_a
    rw [hbefore_a] at hstays
    rw [hbefore_b] at hreplaced
    exact ⟨hplain, table, w, rfl, hw, by simpa using hreplaced, by simpa using hstays⟩

/-- A variable with a marker of one that comes later in the order of names. -/
def markerAhead : Stylesheet :=
  [.variable ⟨"a", [.string "#\x7b$b\x7d"], false, some 1⟩,
    .variable ⟨"b", [.word "left"], false, some 1⟩,
    .declaration ⟨"content", [.variable "a"], false, none, some 1⟩]

theorem settle_markerAhead (scope : Scope) :
    ((ofSheet markerAhead).settle scope).result.map Names.entries =
      .ok [("a", [.string "#\x7b$b\x7d"]), ("b", [.word "left"])] := by
  cbv

theorem renderBare_left : Style.standard.renderBare [.word "left"] = "left" := by
  cbv

/-- A compilation succeeds and leaves a marker of a declared variable in a settled value, without
the bare text of that variable; and markers in a circle do not make a compilation fail. -/
theorem marker_stays :
    (∃ compilation after table,
      (Compiler.mk {} .builtin).compileInPlace markerAhead = (.ok compilation, after) ∧
      ((ofSheet markerAhead).settle ⟨.builtin, .standard⟩).result = .ok table ∧
      table.lookup "b" = some [.word "left"] ∧
      table.lookup "a" = some [.string "#\x7b$b\x7d"] ∧
      table.lookup "a" ≠ some [.string (Style.standard.renderBare [.word "left"])]) ∧
    ∃ compilation after,
      (Compiler.mk {} .builtin).compileInPlace markerCircle = (.ok compilation, after) := by
  have hahead : collect markerAhead = .ok (ofSheet markerAhead) := rfl
  have hcircle : collect markerCircle = .ok (ofSheet markerCircle) := rfl
  constructor
  · obtain ⟨table, hs, hentries⟩ :=
      map_eq_ok_iff.1 (settle_markerAhead (Compiler.mk {} .builtin).scope)
    obtain ⟨compilation, after, h⟩ := Compiler.exists_compileInPlace_eq_ok hahead hs
    have hb : Variables.lookup table "b" = some [.word "left"] :=
      Names.find?_eq_some_iff.2 (by rw [hentries]; simp [bareName])
    have ha : Variables.lookup table "a" = some [.string "#\x7b$b\x7d"] :=
      Names.find?_eq_some_iff.2 (by rw [hentries]; simp [bareName])
    refine ⟨compilation, after, table, h, hs, hb, ha, ?_⟩
    rw [ha, renderBare_left]
    simp
  · have hok := settle_markerCircle (Compiler.mk {} .builtin).scope
    cases hs : ((ofSheet markerCircle).settle (Compiler.mk {} .builtin).scope).result with
    | ok table => exact Compiler.exists_compileInPlace_eq_ok hcircle hs
    | error e =>
      rw [hs] at hok
      cases hok

end Bindings

end Scss
