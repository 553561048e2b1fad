import Mathlib.Data.List.Chain
import Mathlib.Logic.Relation
import Scss.Compile.Settle
import Scss.Proofs.Outcomes
import Scss.Proofs.Tables

/-!
# The plan of settling

Variables are settled depth first along their references.  Which variable gets its value when, and
whether a circle ends the work, depends on names and references only, not on any value: it can be
planned.  Settling is then the same as giving the planned variables their values one by one, and
failing at the planned circle.

The plan of a stylesheet is an order in which each declared variable stands once and after all
variables it refers to, unless it ends in a circle; and the circle is a true one.

## Main definitions

* `Bindings.Refers`: the graph of references between declared variables
* `Bindings.plan`: the order of settling and the circle that ends it
* `Bindings.settleOne`: one variable given its value
* `Bindings.Ready`: an order in which variables can be settled
* `Bindings.IsCircle`: a simple circle of references

## Main results

* `Bindings.settle_eq_runPlan`: settling carries out the plan
* `Bindings.ready_plan`, `Bindings.mem_plan_order_iff`: the order of the plan
* `Bindings.isCircle_of_plan`: the circle of the plan
-/

namespace Scss

namespace Bindings

variable {bindings : Bindings} {scope : Scope} {path names done rest : List String} {name : String}
  {binding : Binding} {table : Variables}

/-- The variable `x` refers, at any depth of its expression, to the declared variable `y`. -/
def Refers (bindings : Bindings) (x y : String) : Prop :=
  ∃ b, bindings.find? x = some b ∧ y ∈ b.expression.references ∧ bindings.contains y = true

/-- What settling does, told from names and references alone. -/
structure Plan where
  /-- The variables in the order in which they get their values. -/
  order : List String
  /-- The path and the name that is reached again on it, if a circle ends the work. -/
  circle : Option (List String × String)

/-- Plans the named variables, each after the variables it refers to, when those in `done` have
their values. -/
def planNames (bindings : Bindings) (path names done : List String) : Plan :=
  match names with
  | [] => ⟨[], none⟩
  | name :: rest =>
    if name ∈ done then planNames bindings path rest done
    else
      match h : bindings.find? name with
      | none => planNames bindings path rest done
      | some binding =>
        if hp : name ∈ path then ⟨[], some (path, name)⟩
        else
          have := length_remaining (Names.mem_keys_of_find? h) hp
          let inner := planNames bindings (path ++ [name]) binding.expression.references done
          match inner.circle with
          | some _ => inner
          | none =>
            let outer := planNames bindings path rest (done ++ inner.order ++ [name])
            ⟨inner.order ++ name :: outer.order, outer.circle⟩
termination_by ((bindings.remaining path).length, names.length)

/-- The plan for all variables, in the order of their names. -/
def plan (bindings : Bindings) : Plan :=
  bindings.planNames [] bindings.keys []

/-- Gives one variable its value. -/
def settleOne (bindings : Bindings) (scope : Scope) (table : Variables) (name : String) :
    Outcome Variables :=
  match bindings.find? name with
  | none => pure table
  | some binding => do
    let value ← binding.expression.resolve scope table ⟨"$" ++ name, binding.line⟩
    Outcome.trace s!"Settled ${name} = {Style.diagnostic.render value}"
    return table.bind name value

/-- Gives the planned variables their values, one by one, and fails at the planned circle. -/
def runPlan (bindings : Bindings) (scope : Scope) (p : Plan) (table : Variables) :
    Outcome Variables := do
  let table ← p.order.foldlM (bindings.settleOne scope) table
  match p.circle with
  | none => return table
  | some (path, name) => .fail (circle path name ((bindings.find? name).bind Binding.line))

/-! ## The cases of settling -/

theorem settleNames_nil : bindings.settleNames scope path [] table = pure table := by
  rw [settleNames]

theorem settleNames_of_binds (h : table.binds name = true) :
    bindings.settleNames scope path (name :: rest) table =
      bindings.settleNames scope path rest table := by
  rw [settleNames, if_pos h]

theorem settleNames_of_undeclared (h : bindings.find? name = none) :
    bindings.settleNames scope path (name :: rest) table =
      bindings.settleNames scope path rest table := by
  rw [settleNames]
  split
  · rfl
  · split
    · rfl
    · rename_i hb
      cases h.symm.trans hb

theorem settleNames_of_mem_path (ht : table.binds name = false)
    (hb : bindings.find? name = some binding) (hp : name ∈ path) :
    bindings.settleNames scope path (name :: rest) table =
      .fail (circle path name binding.line) := by
  rw [settleNames, if_neg (by simp [ht])]
  split
  · rename_i hb'
    cases hb.symm.trans hb'
  · rename_i hb'
    cases hb.symm.trans hb'
    rw [dif_pos hp]

theorem settleNames_of_declared (ht : table.binds name = false)
    (hb : bindings.find? name = some binding) (hp : name ∉ path) :
    bindings.settleNames scope path (name :: rest) table = (do
      let table ←
        bindings.settleNames scope (path ++ [name]) binding.expression.references table
      let table ← bindings.settleOne scope table name
      bindings.settleNames scope path rest table) := by
  rw [settleNames, if_neg (by simp [ht])]
  split
  · rename_i hb'
    cases hb.symm.trans hb'
  · rename_i hb'
    cases hb.symm.trans hb'
    rw [dif_neg hp]
    simp only [settleOne, hb, bind_assoc, pure_bind]

/-! ## The order of the plan -/

/-- The variables of `order` can be settled one by one when those in `done` have their values:
each is declared, has no value yet, and refers only to variables that have theirs. -/
def Ready (bindings : Bindings) : List String → List String → Prop
  | _, [] => True
  | done, x :: rest =>
    bindings.contains x = true ∧ x ∉ done ∧ (∀ y, bindings.Refers x y → y ∈ done) ∧
      Ready bindings (done ++ [x]) rest

theorem Ready.append {order order' : List String} (h : bindings.Ready done order)
    (h' : bindings.Ready (done ++ order) order') : bindings.Ready done (order ++ order') := by
  induction order generalizing done with
  | nil => simpa using h'
  | cons x rest ih =>
    obtain ⟨hx, hnew, hrefers, hrest⟩ := h
    exact ⟨hx, hnew, hrefers, ih hrest (by simpa using h')⟩

/-- The variables on the path are not planned again. -/
theorem notMem_path_of_mem_planNames (path names done : List String) :
    ∀ x ∈ (bindings.planNames path names done).order, x ∉ path := by
  fun_induction planNames bindings path names done with
  | case1 => simp
  | case2 _ _ _ _ _ ih => exact ih
  | case3 _ _ _ _ _ _ ih => exact ih
  | case4 => simp
  | case5 _ _ _ _ _ _ _ _ _ _ _ _ ih => exact fun x hx hmem => ih x hx (List.mem_append_left _ hmem)
  | case6 _ _ _ _ _ _ _ hp _ inner _ outer ih ih' =>
    -- The name stands between what was planned below it and the rest.
    intro x hx hmem
    rcases List.mem_append.1 hx with hx | hx
    · exact ih x hx (List.mem_append_left _ hmem)
    · rcases List.mem_cons.1 hx with rfl | hx
      · exact hp hmem
      · exact ih' x hx hmem

/-- A plan that meets no circle reaches every declared variable among those named. -/
theorem mem_planNames_of_mem (path names done : List String)
    (hc : (bindings.planNames path names done).circle = none) :
    ∀ x ∈ names, bindings.contains x = true →
      x ∈ done ++ (bindings.planNames path names done).order := by
  fun_induction planNames bindings path names done with
  | case1 => simp
  | case2 path done name rest hdone ih =>
    intro x hx hdecl
    rcases List.mem_cons.1 hx with rfl | hx
    · exact List.mem_append_left _ hdone
    · exact ih hc x hx hdecl
  | case3 path done name rest hdone hb ih =>
    intro x hx hdecl
    rcases List.mem_cons.1 hx with rfl | hx
    · simp [Names.contains, hb] at hdecl
    · exact ih hc x hx hdecl
  | case4 => simp at hc
  | case5 _ _ _ _ _ _ _ _ _ inner c hinner =>
    -- A circle below is the circle of the whole.
    cases hinner.symm.trans hc
  | case6 path done name rest hdone binding hb hp _ inner hinner outer ih ih' =>
    intro x hx hdecl
    rcases List.mem_cons.1 hx with rfl | hx
    · simp
    · have hrest : x ∈ done ++ inner.order ++ [name] ++ outer.order := ih' hc x hx hdecl
      simpa using hrest

/-- The order of a plan can be carried out. -/
theorem ready_planNames (path names done : List String) :
    bindings.Ready done (bindings.planNames path names done).order := by
  fun_induction planNames bindings path names done with
  | case1 => trivial
  | case2 _ _ _ _ _ ih => exact ih
  | case3 _ _ _ _ _ _ ih => exact ih
  | case4 => trivial
  | case5 _ _ _ _ _ _ _ _ _ _ _ _ ih => exact ih
  | case6 path done name rest hdone binding hb hp _ inner hinner outer ih ih' =>
    refine ih.append ⟨Names.contains_of_find? hb, ?_, ?_, ?_⟩
    · -- The name is not planned below itself, where it was on the path.
      intro hmem
      rcases List.mem_append.1 hmem with hmem | hmem
      · exact hdone hmem
      · exact notMem_path_of_mem_planNames _ _ _ _ hmem (by simp)
    · -- There was no circle below, so all that the name refers to was reached.
      rintro y ⟨b, hb', hy, hdecl⟩
      cases hb.symm.trans hb'
      exact mem_planNames_of_mem _ _ _ hinner y hy hdecl
    · exact ih'

/-- The order of the whole plan can be carried out from the start. -/
theorem ready_plan (bindings : Bindings) : bindings.Ready [] bindings.plan.order :=
  ready_planNames _ _ _

theorem Ready.contains_of_mem {order : List String} (h : bindings.Ready done order) :
    ∀ x ∈ order, bindings.contains x = true := by
  induction order generalizing done with
  | nil => simp
  | cons y rest ih =>
    intro x hx
    rcases List.mem_cons.1 hx with rfl | hx
    · exact h.1
    · exact ih h.2.2.2 x hx

/-- A plan without a circle holds exactly the declared variables. -/
theorem mem_plan_order_iff (hc : bindings.plan.circle = none) (x : String) :
    x ∈ bindings.plan.order ↔ bindings.contains x = true := by
  constructor
  · exact bindings.ready_plan.contains_of_mem x
  · intro hx
    exact mem_planNames_of_mem [] bindings.keys [] hc x (Names.mem_keys_iff.2 hx) hx

/-- No variable is settled twice. -/
theorem Ready.nodup {order : List String} (h : bindings.Ready done order) :
    order.Nodup ∧ ∀ x ∈ order, x ∉ done := by
  induction order generalizing done with
  | nil => simp
  | cons y rest ih =>
    obtain ⟨hrest, hfresh⟩ := ih h.2.2.2
    refine ⟨List.nodup_cons.2 ⟨fun hy => hfresh y hy (by simp), hrest⟩, ?_⟩
    intro x hx
    rcases List.mem_cons.1 hx with rfl | hx
    · exact h.2.1
    · exact fun hmem => hfresh x hx (List.mem_append_left _ hmem)

/-- A variable comes after the variables it refers to. -/
theorem Ready.mem_before {order before after : List String} {x y : String}
    (h : bindings.Ready done order) (ho : order = before ++ x :: after)
    (hxy : bindings.Refers x y) : y ∈ done ++ before := by
  induction before generalizing done order with
  | nil =>
    subst ho
    simpa using h.2.2.1 y hxy
  | cons z rest ih =>
    subst ho
    simpa using ih h.2.2.2 rfl

/-! ## The circle of the plan -/

/-- Names that refer to each other in a circle, each named once. -/
def IsCircle (bindings : Bindings) : List String → Prop
  | [] => False
  | x :: rest => (x :: rest).Nodup ∧ List.IsChain bindings.Refers (x :: rest ++ [x])

/-- A path along references from which all the names are referred to. -/
structure LeadsTo (bindings : Bindings) (path names : List String) : Prop where
  nodup : path.Nodup
  chain : List.IsChain bindings.Refers path
  next : ∀ x ∈ names, bindings.contains x = true → ∀ l ∈ path.getLast?, bindings.Refers l x

theorem LeadsTo.tail (h : bindings.LeadsTo path (name :: rest)) : bindings.LeadsTo path rest :=
  ⟨h.nodup, h.chain, fun x hx => h.next x (List.mem_cons_of_mem _ hx)⟩

theorem LeadsTo.extend (h : bindings.LeadsTo path (name :: rest))
    (hb : bindings.find? name = some binding) (hp : name ∉ path) :
    bindings.LeadsTo (path ++ [name]) binding.expression.references where
  nodup := by
    refine List.nodup_append.2 ⟨h.nodup, List.nodup_singleton _, ?_⟩
    rintro x hx y hy rfl
    exact hp (List.mem_singleton.1 hy ▸ hx)
  chain := by
    refine List.isChain_append.2 ⟨h.chain, List.isChain_singleton _, ?_⟩
    rintro l hl y hy
    obtain rfl : name = y := by simpa using hy
    exact h.next name List.mem_cons_self (Names.contains_of_find? hb) l hl
  next := by
    intro x hx hdecl l hl
    obtain rfl : name = l := by simpa using hl
    exact ⟨binding, hb, hx, hdecl⟩

/-- The path of a plan's circle leads back to the name that is reached again. -/
theorem leadsTo_of_planNames {c : List String × String} (h : bindings.LeadsTo path names)
    (hc : (bindings.planNames path names done).circle = some c) :
    c.2 ∈ c.1 ∧ bindings.contains c.2 = true ∧ bindings.LeadsTo c.1 [c.2] := by
  -- The path grows on the way down and leads to the names that are still to be planned.
  fun_induction planNames bindings path names done with
  | case1 => cases hc
  | case2 _ _ _ _ _ ih => exact ih h.tail hc
  | case3 _ _ _ _ _ _ ih => exact ih h.tail hc
  | case4 path done name rest hdone binding hb hp =>
    cases hc
    refine ⟨hp, Names.contains_of_find? hb, h.nodup, h.chain, ?_⟩
    rintro x hx
    rw [List.mem_singleton.1 hx]
    exact h.next name List.mem_cons_self
  | case5 _ _ _ _ _ _ hb hp _ _ _ _ ih => exact ih (h.extend hb hp) hc
  | case6 _ _ _ _ _ _ _ _ _ _ _ _ _ ih' => exact ih' h.tail hc

/-- What follows a name on a path that leads back to it is a circle. -/
theorem isCircle_of_leadsTo (h : bindings.LeadsTo path [name]) (hp : name ∈ path)
    (hdecl : bindings.contains name = true) :
    ∃ rest, path.dropWhile (· ≠ name) = name :: rest ∧ bindings.IsCircle (name :: rest) := by
  -- The path is cut where the name stands, which it does once.
  obtain ⟨before, rest, rfl⟩ := List.append_of_mem hp
  have hbefore : ∀ x ∈ before, decide (x ≠ name) = true := by
    rintro x hx
    simpa using fun heq => (List.nodup_append.1 h.nodup).2.2 x hx name List.mem_cons_self heq
  have hsuffix : name :: rest <:+ before ++ name :: rest := List.suffix_append _ _
  refine ⟨rest, ?_, h.nodup.sublist hsuffix.sublist, ?_⟩
  · rw [List.dropWhile_append_of_pos hbefore, List.dropWhile_cons_of_neg (by simp)]
  · refine List.isChain_append.2 ⟨h.chain.suffix hsuffix, List.isChain_singleton _, ?_⟩
    rintro l hl y hy
    obtain rfl : name = y := by simpa using hy
    refine h.next name (List.mem_singleton.2 rfl) hdecl l ?_
    rw [List.getLast?_append, Option.mem_def.1 hl]
    rfl

/-- The circle of the whole plan is a circle of references. -/
theorem isCircle_of_plan (hc : bindings.plan.circle = some (path, name)) :
    ∃ rest, path.dropWhile (· ≠ name) = name :: rest ∧ bindings.IsCircle (name :: rest) := by
  have hstart : bindings.LeadsTo [] bindings.keys := ⟨List.nodup_nil, List.isChain_nil, by simp⟩
  obtain ⟨hp, hdecl, hleads⟩ := leadsTo_of_planNames hstart hc
  exact isCircle_of_leadsTo hleads hp hdecl

/-! ## Carrying out the plan -/

/-- No declared name starts with `$`. -/
def PlainNames (bindings : Bindings) : Prop :=
  ∀ x, bindings.contains x = true → PlainName x

/-- Of the declared variables exactly those in `done` have their values. -/
def Holds (bindings : Bindings) (table : Variables) (done : List String) : Prop :=
  ∀ x, bindings.contains x = true → (table.binds x = true ↔ x ∈ done)

theorem holds_empty (bindings : Bindings) : bindings.Holds Names.empty [] := by
  intro x _
  simp [Variables.binds]

theorem Holds.bind (h : bindings.Holds table done) (hplain : bindings.PlainNames)
    (hb : bindings.contains name = true) (v : Value) :
    bindings.Holds (table.bind name v) (done ++ [name]) := by
  intro x hx
  rw [Variables.binds_bind table v (hplain name hb) (hplain x hx), h x hx]
  simp [or_comm]

theorem result_settleOne_eq_ok_iff {table' : Variables} (hb : bindings.find? name = some binding) :
    (bindings.settleOne scope table name).result = .ok table' ↔
      ∃ v, (binding.expression.resolve scope table ⟨"$" ++ name, binding.line⟩).result = .ok v ∧
        table.bind name v = table' := by
  simp [settleOne, hb, Outcome.result_bind_eq_ok_iff, -bind_pure_comp]

/-- What each settled variable preserves, the whole order preserves.  The invariant may speak of
the variables that have their values so far. -/
theorem foldlM_settleOne_induction {order : List String} {table' : Variables}
    {P : List String → Variables → Prop} (hready : bindings.Ready done order)
    (hstep : ∀ done x b t v, bindings.find? x = some b → x ∉ done →
      (∀ y, bindings.Refers x y → y ∈ done) → P done t →
      (b.expression.resolve scope t ⟨"$" ++ x, b.line⟩).result = .ok v →
      P (done ++ [x]) (t.bind x v))
    (hstart : P done table)
    (h : (order.foldlM (bindings.settleOne scope) table).result = .ok table') :
    P (done ++ order) table' := by
  induction order generalizing done table with
  | nil =>
    cases h
    simpa using hstart
  | cons x rest ih =>
    obtain ⟨hdecl, hnew, hrefers, hrest⟩ := hready
    obtain ⟨b, hb⟩ := Names.contains_eq_true_iff.1 hdecl
    rw [List.foldlM_cons, Outcome.result_bind_eq_ok_iff] at h
    obtain ⟨t, ht, h⟩ := h
    obtain ⟨v, hv, rfl⟩ := (result_settleOne_eq_ok_iff hb).1 ht
    simpa using ih hrest (hstep done x b table v hb hnew hrefers hstart hv) h

/-- After a part of the plan, exactly its variables have got their values. -/
theorem Holds.foldlM {order : List String} {table' : Variables} (h : bindings.Holds table done)
    (hplain : bindings.PlainNames) (hready : bindings.Ready done order)
    (hrun : (order.foldlM (bindings.settleOne scope) table).result = .ok table') :
    bindings.Holds table' (done ++ order) := by
  refine foldlM_settleOne_induction (P := fun done t => bindings.Holds t done) hready ?_ h hrun
  intro done x b t v hb _ _ ht _
  exact ht.bind hplain (Names.contains_of_find? hb) v

theorem runPlan_of_circle {p : Plan} {c : List String × String} (hc : p.circle = some c)
    (f : Variables → Outcome Variables) :
    bindings.runPlan scope p table >>= f = bindings.runPlan scope p table := by
  rw [runPlan, hc, bind_assoc]
  rfl

theorem runPlan_of_no_circle {p : Plan} (hc : p.circle = none) :
    bindings.runPlan scope p table = p.order.foldlM (bindings.settleOne scope) table := by
  rw [runPlan, hc, bind_pure]

/-- Settling carries out the plan. -/
theorem settleNames_eq_runPlan (hplain : bindings.PlainNames) (path names done : List String) :
    ∀ table, bindings.Holds table done →
      bindings.settleNames scope path names table =
        bindings.runPlan scope (bindings.planNames path names done) table := by
  -- The planned name has no value yet, so settling takes the same branch as the plan.
  have hfree : ∀ {table done name b}, bindings.Holds table done → name ∉ done →
      bindings.find? name = some b → table.binds name = false := by
    intro table done name b h hdone hb
    simpa [hdone] using h name (Names.contains_of_find? hb)
  fun_induction planNames bindings path names done with
  | case1 =>
    intro table _
    rw [settleNames_nil, runPlan_of_no_circle rfl, List.foldlM_nil]
  | case2 path done name rest hdone ih =>
    intro table h
    rw [← ih table h]
    cases hb : bindings.find? name with
    | none => exact settleNames_of_undeclared hb
    | some b => exact settleNames_of_binds ((h name (Names.contains_of_find? hb)).2 hdone)
  | case3 path done name rest hdone hb ih =>
    intro table h
    rw [settleNames_of_undeclared hb, ih table h]
  | case4 path done name rest hdone b hb hp =>
    intro table h
    rw [settleNames_of_mem_path (hfree h hdone hb) hb hp, runPlan, List.foldlM_nil, pure_bind]
    simp only [hb, Option.bind_some]
  | case5 path done name rest hdone b hb hp _ inner c hc ih =>
    intro table h
    rw [settleNames_of_declared (hfree h hdone hb) hb hp, ih table h]
    -- After a circle below, nothing more happens on either side.
    exact runPlan_of_circle hc _
  | case6 path done name rest hdone b hb hp _ inner hc outer ih ih' =>
    intro table h
    have hready : bindings.Ready done inner.order := ready_planNames _ _ _
    rw [settleNames_of_declared (hfree h hdone hb) hb hp, ih table h, runPlan_of_no_circle hc,
      runPlan, List.foldlM_append, bind_assoc]
    -- From here on the two sides differ only in who settles the rest.
    refine Outcome.bind_congr_of_result fun t ht => ?_
    rw [List.foldlM_cons, bind_assoc]
    refine Outcome.bind_congr_of_result fun t' ht' => ?_
    obtain ⟨v, -, rfl⟩ := (result_settleOne_eq_ok_iff hb).1 ht'
    exact ih' _ ((h.foldlM hplain hready ht).bind hplain (Names.contains_of_find? hb) v)

/-- Settling all variables carries out the plan from the empty table. -/
theorem settle_eq_runPlan (hplain : bindings.PlainNames) (scope : Scope) :
    bindings.settle scope = bindings.runPlan scope bindings.plan Names.empty :=
  settleNames_eq_runPlan hplain _ _ _ _ bindings.holds_empty

end Bindings

end Scss
