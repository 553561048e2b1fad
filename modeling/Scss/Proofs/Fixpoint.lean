import Scss.Proofs.Markers

/-!
# The settled table is a fixpoint

A variable is resolved with the variables that have their values by then, while the table still
grows.  If no marker can start in an expression, all that its resolution looks up is referred to,
so it is settled before; what is bound later was not looked up.  Resolving the expression again
with the whole table therefore gives the value that the table holds.

## Main definitions

* `Value.Unmarked`: values in which no marker can start
* `Stylesheet.PlainReferences`, `Stylesheet.UnmarkedVariables`: stylesheets whose variables settle
  by their references alone

## Main results

* `Value.reads_of_unmarked`: without markers, what is looked up is what is referred to
* `Bindings.settle_fixpoint`: each settled value is its expression resolved with the settled table
-/

namespace Scss

/-! ## Values without markers -/

mutual

/-- The words and strings of a term, at any depth. -/
def Term.texts : Term → List String
  | .word text | .string text => [text]
  | .call _ parameters => Value.texts parameters
  | _ => []

/-- The words and strings of a value, at any depth. -/
def Value.texts : Value → List String
  | [] => []
  | t :: rest => t.texts ++ Value.texts rest

end

/-- No marker can start in a word or string of the value. -/
def Value.Unmarked (v : Value) : Prop :=
  ∀ text ∈ v.texts, Template.Unmarked text.toList

instance (v : Value) : Decidable v.Unmarked :=
  inferInstanceAs (Decidable (∀ text ∈ v.texts, _))

/-- Without markers, what is looked up is what is referred to. -/
theorem Value.reads_of_unmarked {v : Value} (h : v.Unmarked) :
    v.reads = v.references.map bareName := by
  induction v using Value.induction with
  | nil => rfl
  | call name ps rest ihps ihrest =>
    have hps := ihps fun text ht => h text (by simp [texts, Term.texts, ht])
    have hrest := ihrest fun text ht => h text (by simp [texts, ht])
    rw [reads, references, Term.reads, Term.references, List.map_append, hps, hrest]
  | other t rest hcall ih =>
    have hrest := ih fun text ht => h text (by simp [texts, ht])
    rw [reads, references, List.map_append, hrest]
    congr 1
    cases t with
    | call => cases hcall
    | word text =>
      have htext := h text (by simp [texts, Term.texts])
      simp [Term.reads, Term.references, Template.parse_of_unmarked htext]
    | string text =>
      have htext := h text (by simp [texts, Term.texts])
      simp [Term.reads, Term.references, Template.parse_of_unmarked htext]
    | _ => rfl

namespace Stylesheet

/-- No variable refers to a name with a leading `$`. -/
def PlainReferences (sheet : Stylesheet) : Prop :=
  ∀ d ∈ sheet.variableDeclarations, ∀ y ∈ d.expression.references, PlainName y

instance (sheet : Stylesheet) : Decidable sheet.PlainReferences :=
  inferInstanceAs (Decidable (∀ d ∈ sheet.variableDeclarations, ∀ y ∈ d.expression.references, _))

/-- No marker can start in the value of a variable. -/
def UnmarkedVariables (sheet : Stylesheet) : Prop :=
  ∀ d ∈ sheet.variableDeclarations, d.expression.Unmarked

instance (sheet : Stylesheet) : Decidable sheet.UnmarkedVariables :=
  inferInstanceAs (Decidable (∀ d ∈ sheet.variableDeclarations, _))

end Stylesheet

/-! ## Resolving again -/

namespace Bindings

variable {bindings : Bindings} {scope : Scope} {table : Variables} {sheet : Stylesheet}
  {x y : String} {d : VariableDeclaration}

/-- Without markers, the declared variables that a resolution looks up are settled before. -/
theorem mem_before_of_reads (hcollect : collect sheet = .ok bindings)
    (hrefs : ∀ y ∈ d.expression.references, PlainName y) (hunmarked : d.expression.Unmarked)
    (hd : bindings.find? x = some d.binding) (hx : x ∈ bindings.plan.order)
    (hy : y ∈ d.expression.reads) (hdeclares : sheet.Declares y) : y ∈ bindings.before x := by
  rw [Value.reads_of_unmarked hunmarked] at hy
  obtain ⟨name, hname, rfl⟩ := List.mem_map.1 hy
  rw [bareName_of_plain (hrefs name hname)] at hdeclares ⊢
  exact mem_before_of_refers hx
    ⟨d.binding, hd, hname, (contains_collect_iff hcollect name).2 hdeclares⟩

/-- **The settled table is a fixpoint.**  When the variables are settled, and no marker can start in
their expressions, each declared variable has the value that its expression gives if it is resolved
again with the whole table. -/
theorem settle_fixpoint (hcollect : collect sheet = .ok bindings) (hplain : sheet.PlainVariables)
    (hrefs : sheet.PlainReferences) (hunmarked : sheet.UnmarkedVariables)
    (h : (bindings.settle scope).result = .ok table) (hx : sheet.Declares x) :
    ∃ d v, VariableDeclaration.effective (sheet.declarationsOf x) = some d ∧
      table.lookup x = some v ∧
      (d.expression.resolve scope table ⟨"$" ++ x, d.line⟩).result = .ok v := by
  have hnames : bindings.PlainNames := plainNames_of_collect hcollect hplain
  have hcontains : bindings.contains x = true := (contains_collect_iff hcollect x).2 hx
  have horder := (mem_plan_order_iff (plan_circle_of_settle hnames h) x).2 hcontains
  obtain ⟨b, hb⟩ := Names.contains_eq_true_iff.1 hcontains
  obtain ⟨d, hd, hmem, rfl⟩ := exists_effective_of_find? hcollect hb
  obtain ⟨v, hv, hresolve⟩ := lookup_of_settle hnames h hb
  refine ⟨d, v, hd, ?_, ?_⟩
  · rw [table.lookup_of_plain (hnames x hcontains), hv]
  · -- The value was resolved with the variables before; the others are not looked up.
    have hreads : ∀ y ∈ d.binding.expression.reads, sheet.Declares y → y ∈ bindings.before x :=
      fun y => mem_before_of_reads hcollect (hrefs d hmem) (hunmarked d hmem) hb horder
    have hsame := resolve_only_before hcollect hnames h hreads ⟨"$" ++ x, d.line⟩
    rw [← hresolve]
    exact congrArg Outcome.result hsame.symm

/-- Variables that refer to later ones inside calls; the last declaration yields to an earlier
one. -/
def fonts : Stylesheet :=
  [.variable ⟨"a", [.call "to-upper-case" [.variable "b"], .separator .comma, .variable "c"], false,
      some 1⟩,
    .variable ⟨"b", [.call "quote" [.variable "c"]], false, some 2⟩,
    .variable ⟨"c", [.word "serif"], false, some 3⟩,
    .variable ⟨"c", [.word "mono"], true, some 4⟩]

/-- Two functions on texts. -/
def textScope : Scope :=
  ⟨(Registry.ofGenerators [.quote, .toUpperCase]).1, .standard⟩

theorem settle_fonts :
    ((ofSheet fonts).settle textScope).result.map Names.entries =
      .ok [("a", [.string "SERIF", .separator .comma, .word "serif"]), ("b", [.string "serif"]),
        ("c", [.word "serif"])] := by
  cbv

/-- With the whole table the first variable is resolved to the value it was settled with. -/
theorem settle_fixpoint_fonts :
    fonts.PlainVariables ∧ fonts.PlainReferences ∧ fonts.UnmarkedVariables ∧
    ∃ table, ((ofSheet fonts).settle textScope).result = .ok table ∧
      (Value.resolve textScope table ⟨"$a", some 1⟩
        [.call "to-upper-case" [.variable "b"], .separator .comma, .variable "c"]).result =
          .ok [.string "SERIF", .separator .comma, .word "serif"] := by
  have hplain : fonts.PlainVariables := by decide
  have hrefs : fonts.PlainReferences := by decide
  have hunmarked : fonts.UnmarkedVariables := by decide
  have hcollect : collect fonts = .ok (ofSheet fonts) := rfl
  obtain ⟨table, hs, hentries⟩ := map_eq_ok_iff.1 settle_fonts
  obtain ⟨d, v, hd, hv, hresolve⟩ :=
    settle_fixpoint (x := "a") hcollect hplain hrefs hunmarked hs ⟨_, List.mem_cons_self, rfl⟩
  have hvalue : Variables.lookup table "a" =
      some [.string "SERIF", .separator .comma, .word "serif"] :=
    Names.find?_eq_some_iff.2 (by rw [hentries]; simp [bareName])
  cases hvalue.symm.trans hv
  cases (show _ = some d from hd)
  exact ⟨hplain, hrefs, hunmarked, table, hs, hresolve⟩

end Bindings

end Scss
