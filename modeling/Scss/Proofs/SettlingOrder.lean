import Mathlib
import Scss.Proofs.Collection
import Scss.Proofs.Resolution

/-!
# Settling follows the references

Settling succeeds only if no variable refers to itself through others, and then it gives each
declared variable its value once, after all variables it refers to.  When it reports a circle, the
names in the report are a circle of references.

## Main results

* `Bindings.settle_eq_foldlM`: a successful settling is the planned one
* `Bindings.not_transGen_self_of_ready`: what can be ordered has no circle
* `Bindings.settle_eq_invalidVariable`: an invalid variable is a planned circle
* `Bindings.settle_induction`: what settling one variable preserves, settling preserves
* `Bindings.settle_ordered_or_circular`: settling is a topological order or a true circle
-/

namespace Scss

namespace Bindings

variable {bindings : Bindings} {scope : Scope} {table : Variables} {order : List String}
  {x y : String}

/-! ## Orders exclude circles -/

/-- A variable comes after those it refers to. -/
theorem Ready.idxOf_lt (h : bindings.Ready [] order) (hx : x ∈ order)
    (hxy : bindings.Refers x y) : order.idxOf y < order.idxOf x := by
  obtain ⟨before, after, rfl⟩ := List.append_of_mem hx
  have hy : y ∈ before := by simpa using h.mem_before rfl hxy
  have hnew : x ∉ before := fun hmem =>
    (List.nodup_append.1 h.nodup.1).2.2 x hmem x List.mem_cons_self rfl
  rw [List.idxOf_append_of_mem hy, List.idxOf_append_of_notMem hnew]
  exact Nat.lt_add_right _ (List.idxOf_lt_length_of_mem hy)

/-- What can be ordered has no circle. -/
theorem not_transGen_self_of_ready (h : bindings.Ready [] order)
    (hall : ∀ x, bindings.contains x = true → x ∈ order) (x : String) :
    ¬ Relation.TransGen bindings.Refers x x := by
  have hlt : ∀ x y, Relation.TransGen bindings.Refers x y → order.idxOf y < order.idxOf x := by
    intro x y hxy
    have hstep : ∀ {u v}, bindings.Refers u v → order.idxOf v < order.idxOf u := by
      rintro u v huv
      obtain ⟨b, hb, -⟩ := id huv
      exact h.idxOf_lt (hall u (Names.contains_of_find? hb)) huv
    induction hxy with
    | single hxy => exact hstep hxy
    | tail _ hyz ih => exact (hstep hyz).trans ih
  exact fun hx => Nat.lt_irrefl _ (hlt x x hx)

/-! ## Success -/

theorem plan_circle_of_settle (hplain : bindings.PlainNames)
    (h : (bindings.settle scope).result = .ok table) : bindings.plan.circle = none := by
  rw [settle_eq_runPlan hplain, runPlan, Outcome.result_bind_eq_ok_iff] at h
  obtain ⟨t, -, h⟩ := h
  split at h
  · assumption
  · cases h

/-- A settling that meets no circle settles the variables of the plan one by one. -/
theorem settle_eq_foldlM (hplain : bindings.PlainNames) (scope : Scope)
    (hc : bindings.plan.circle = none) :
    bindings.settle scope = bindings.plan.order.foldlM (bindings.settleOne scope) Names.empty := by
  rw [settle_eq_runPlan hplain, runPlan_of_no_circle hc]

/-- What each settled variable preserves holds of the settled table.  The invariant may speak of
the variables that have their values so far. -/
theorem settle_induction {P : List String → Variables → Prop} (hplain : bindings.PlainNames)
    (hstep : ∀ done x b t v, bindings.find? x = some b → x ∉ done →
      (∀ y, bindings.Refers x y → y ∈ done) → P done t →
      (b.expression.resolve scope t ⟨"$" ++ x, b.line⟩).result = .ok v →
      P (done ++ [x]) (t.bind x v))
    (hstart : P [] Names.empty) (h : (bindings.settle scope).result = .ok table) :
    P bindings.plan.order table := by
  rw [settle_eq_foldlM hplain scope (plan_circle_of_settle hplain h)] at h
  exact foldlM_settleOne_induction bindings.ready_plan hstep hstart h

/-- All declared variables have their values in the end. -/
theorem binds_of_settle (hplain : bindings.PlainNames)
    (h : (bindings.settle scope).result = .ok table) (hx : bindings.contains x = true) :
    table.binds x = true := by
  have hc := plan_circle_of_settle hplain h
  rw [settle_eq_foldlM hplain scope hc] at h
  have hholds := bindings.holds_empty.foldlM hplain bindings.ready_plan h
  exact (hholds x hx).2 ((mem_plan_order_iff hc x).2 hx)

/-! ## Failure -/

theorem reports_settleOne (bindings : Bindings) (scope : Scope) (table : Variables)
    (name : String) :
    (bindings.settleOne scope table name).Reports fun d => ∃ line, d.StopsAt line := by
  unfold settleOne
  split
  · exact Outcome.reports_pure _
  · rename_i b _
    refine Outcome.Reports.bind ?_ fun _ => ?_
    · exact (Value.reports_resolve scope table ⟨_, b.line⟩ _).mono fun d hd => ⟨_, hd⟩
    · exact (Outcome.reports_trace _).bind fun _ => Outcome.reports_pure _

/-- An invalid variable is the planned circle. -/
theorem settle_eq_invalidVariable {name message : String} {line : Option Nat}
    (hplain : bindings.PlainNames)
    (h : (bindings.settle scope).result = .error (.invalidVariable name message line)) :
    ∃ path, bindings.plan.circle = some (path, name) ∧
      message = "circular reference " ++
        String.intercalate " -> " ((path.dropWhile (· ≠ name) ++ [name]).map ("$" ++ ·)) := by
  rw [settle_eq_runPlan hplain, runPlan, Outcome.result_bind_eq_error_iff] at h
  rcases h with h | ⟨t, -, h⟩
  · -- A resolution is never stopped by an invalid variable.
    obtain ⟨l, hl⟩ := (Outcome.reports_foldlM (bindings.reports_settleOne scope) _ _).stops _ h
    cases hl
  · split at h
    · cases h
    · rename_i path name' hc
      obtain ⟨rfl, rfl, -⟩ := Diagnostic.invalidVariable.inj (Except.error.inj h)
      exact ⟨path, hc, rfl⟩

/-! ## Order or circle -/

/-- **Settling is a topological order or a true circle.**  If it succeeds, no declared variable
refers to itself through others, and settling is the same as giving the variables of the planned
order their values one by one: each declared variable stands there once, after all those it refers
to.  A circle of references makes it fail, and a circle that it reports is one, each name given
once. -/
theorem settle_ordered_or_circular {sheet : Stylesheet}
    (hcollect : collect sheet = .ok bindings) (hplain : sheet.PlainVariables) (scope : Scope) :
    (∀ table, (bindings.settle scope).result = .ok table →
      (∀ x, ¬ Relation.TransGen bindings.Refers x x) ∧
      bindings.plan.order.Nodup ∧
      (∀ x, x ∈ bindings.plan.order ↔ sheet.Declares x) ∧
      (∀ x y, bindings.Refers x y →
        bindings.plan.order.idxOf y < bindings.plan.order.idxOf x) ∧
      bindings.settle scope =
        bindings.plan.order.foldlM (bindings.settleOne scope) Names.empty) ∧
    ((∃ x, Relation.TransGen bindings.Refers x x) →
      ∃ d, (bindings.settle scope).result = .error d) ∧
    (∀ name message line,
      (bindings.settle scope).result = .error (.invalidVariable name message line) →
      ∃ rest, bindings.IsCircle (name :: rest) ∧
        message = "circular reference " ++
          String.intercalate " -> " ((name :: rest ++ [name]).map ("$" ++ ·))) := by
  have hnames : bindings.PlainNames := plainNames_of_collect hcollect hplain
  have hready : bindings.Ready [] bindings.plan.order := bindings.ready_plan
  have hacyclic : ∀ table, (bindings.settle scope).result = .ok table →
      ∀ x, ¬ Relation.TransGen bindings.Refers x x := by
    intro table h
    have hc := plan_circle_of_settle hnames h
    exact not_transGen_self_of_ready hready fun x => (mem_plan_order_iff hc x).2
  refine ⟨fun table h => ?_, ?_, ?_⟩
  · have hc := plan_circle_of_settle hnames h
    have hmem : ∀ x, x ∈ bindings.plan.order ↔ sheet.Declares x := fun x =>
      (mem_plan_order_iff hc x).trans (contains_collect_iff hcollect x)
    refine ⟨hacyclic table h, hready.nodup.1, hmem, ?_, settle_eq_foldlM hnames scope hc⟩
    intro x y hxy
    obtain ⟨b, hb, -⟩ := id hxy
    exact hready.idxOf_lt ((mem_plan_order_iff hc x).2 (Names.contains_of_find? hb)) hxy
  · rintro ⟨x, hx⟩
    cases h : (bindings.settle scope).result with
    | ok table => exact absurd hx (hacyclic table h x)
    | error d => exact ⟨d, rfl⟩
  · intro name message line h
    obtain ⟨path, hc, rfl⟩ := settle_eq_invalidVariable hnames h
    obtain ⟨rest, hpath, hcircle⟩ := isCircle_of_plan hc
    exact ⟨rest, hcircle, by rw [hpath]⟩

/-- Two variables, referred to inside a call, that refer to a third one. -/
def diamond : Stylesheet :=
  [.variable ⟨"a", [.call "f" [.variable "b", .separator .comma, .variable "c"]], false, some 1⟩,
    .variable ⟨"b", [.variable "d"], false, some 2⟩,
    .variable ⟨"c", [.variable "d", .word "x"], false, some 3⟩,
    .variable ⟨"d", [.word "red"], false, some 4⟩]

/-- A circle that is entered from a variable outside of it. -/
def lasso : Stylesheet :=
  [.variable ⟨"a", [.variable "b"], false, some 1⟩,
    .variable ⟨"b", [.variable "c"], false, some 2⟩,
    .variable ⟨"c", [.call "f" [.variable "b"]], false, some 3⟩]

/-- The bindings of a stylesheet, none if it cannot be collected. -/
def ofSheet (sheet : Stylesheet) : Bindings :=
  (collect sheet).toOption.getD Names.empty

theorem isOk_settle_diamond :
    ((ofSheet diamond).settle ⟨Names.empty, .standard⟩).result.isOk = true := by
  cbv

theorem settle_lasso :
    ((ofSheet lasso).settle ⟨Names.empty, .standard⟩).result =
      .error (.invalidVariable "b" "circular reference $b -> $c -> $b" (some 2)) := by
  cbv

/-- The diamond is settled without a circle; the lasso is a circle that starts at its knot. -/
theorem settle_ordered_or_circular_diamond_lasso :
    (∀ x, ¬ Relation.TransGen (ofSheet diamond).Refers x x) ∧
    ∃ rest, (ofSheet lasso).IsCircle ("b" :: rest) := by
  have hdiamond : collect diamond = .ok (ofSheet diamond) := rfl
  have hlasso : collect lasso = .ok (ofSheet lasso) := rfl
  refine ⟨?_, ?_⟩
  · have hok := isOk_settle_diamond
    cases hr : ((ofSheet diamond).settle ⟨Names.empty, .standard⟩).result with
    | ok table => exact ((settle_ordered_or_circular hdiamond (by decide) _).1 table hr).1
    | error d => rw [hr] at hok; cases hok
  · obtain ⟨rest, hcircle, -⟩ :=
      (settle_ordered_or_circular hlasso (by decide) _).2.2 _ _ _ settle_lasso
    exact ⟨rest, hcircle⟩

end Bindings

end Scss
