import Mathlib.Data.List.Perm.Basic
import Mathlib.Data.List.Nodup
import Scss.Variables.Table

/-!
# Tables and what they find

A table is its lookup function: two tables that find the same are equal, and an insertion changes
what is found under one name only.  Tables of variables add the `$` that a name may carry; for
plain names, which carry none, binding and looking up are insertion and search.

## Main definitions

* `Names.only`: a table cut down to some names
* `PlainName`: a name that does not start with `$`

## Main results

* `Names.ext_find?`: tables that find the same are equal
* `Names.find?_insert`, `Names.find?_only`: what is found after an insertion and after a cut
* `Variables.binds_bind`: what binding a plain name binds
-/

namespace Scss

namespace Names

variable {α : Type} {t u : Names α} {name other : String} {x : α}

@[simp]
theorem find?_empty (name : String) : (empty : Names α).find? name = none :=
  rfl

@[simp]
theorem contains_empty (name : String) : (empty : Names α).contains name = false :=
  rfl

theorem contains_eq_true_iff : t.contains name = true ↔ ∃ x, t.find? name = some x :=
  Option.isSome_iff_exists

theorem contains_of_find? (h : t.find? name = some x) : t.contains name = true :=
  contains_eq_true_iff.2 ⟨x, h⟩

/-! ## Entries -/

theorem nodup_keys (t : Names α) : t.keys.Nodup := by
  refine List.pairwise_map.2 (t.sorted.imp fun {a b} hab heq => ?_)
  rw [heq] at hab
  exact String.lt_irrefl _ hab

theorem lookup_cons_eq_ite (n : String) (y : α) (rest : List (String × α)) (name : String) :
    ((n, y) :: rest).lookup name = if name = n then some y else rest.lookup name := by
  by_cases h : name = n
  · rw [if_pos h, h, List.lookup_cons_self]
  · have hbeq : (name == n) = false := by simpa using h
    rw [if_neg h, List.lookup_cons, hbeq]

/-- What is found under a name is what stands there. -/
theorem find?_eq_some_iff : t.find? name = some x ↔ (name, x) ∈ t.entries := by
  have hnodup := t.nodup_keys
  simp only [keys] at hnodup
  simp only [find?]
  generalize t.entries = entries at hnodup ⊢
  induction entries with
  | nil => simp
  | cons e rest ih =>
    obtain ⟨n, y⟩ := e
    obtain ⟨hhead, hrest⟩ := List.nodup_cons.1 hnodup
    rw [lookup_cons_eq_ite]
    split
    · rename_i hn
      subst hn
      have hfresh : (name, x) ∉ rest := fun h => hhead (List.mem_map.2 ⟨_, h, rfl⟩)
      simp [hfresh, eq_comm]
    · rename_i hn
      simp [ih hrest, hn]

theorem mem_keys_iff : name ∈ t.keys ↔ t.contains name = true := by
  rw [contains_eq_true_iff, keys, List.mem_map]
  constructor
  · rintro ⟨⟨n, y⟩, hmem, rfl⟩
    exact ⟨y, find?_eq_some_iff.2 hmem⟩
  · rintro ⟨y, hy⟩
    exact ⟨(name, y), find?_eq_some_iff.1 hy, rfl⟩

/-- Tables that find the same are equal. -/
theorem ext_find? (h : ∀ name, t.find? name = u.find? name) : t = u := by
  have hmem : ∀ e, e ∈ t.entries ↔ e ∈ u.entries := by
    rintro ⟨n, y⟩
    rw [← find?_eq_some_iff, ← find?_eq_some_iff, h n]
  have hperm : t.entries.Perm u.entries :=
    (List.perm_ext_iff_of_nodup t.nodup_keys.of_map u.nodup_keys.of_map).2 hmem
  have hentries : t.entries = u.entries :=
    hperm.eq_of_pairwise (fun a b _ _ hab hba => absurd hba (String.lt_asymm hab)) t.sorted u.sorted
  obtain ⟨entries, _⟩ := t
  obtain ⟨entries', _⟩ := u
  subst hentries
  rfl

/-! ## Insertion -/

theorem lookup_insertEntry (name other : String) (x : α) (entries : List (String × α)) :
    (insertEntry name x entries).lookup other =
      if other = name then some x else entries.lookup other := by
  induction entries with
  | nil => rw [insertEntry, lookup_cons_eq_ite]
  | cons e rest ih =>
    obtain ⟨n, y⟩ := e
    simp only [insertEntry]
    split
    · rw [lookup_cons_eq_ite]
    · split
      · rename_i hname
        subst hname
        rw [lookup_cons_eq_ite, lookup_cons_eq_ite]
        split <;> rfl
      · rename_i hname
        rw [lookup_cons_eq_ite, lookup_cons_eq_ite, ih]
        split
        · rename_i hother
          rw [if_neg fun h => hname (h.symm.trans hother)]
        · rfl

/-- An insertion changes what is found under its own name, and nothing else. -/
theorem find?_insert (t : Names α) (name other : String) (x : α) :
    (t.insert name x).find? other = if other = name then some x else t.find? other :=
  lookup_insertEntry name other x t.entries

theorem contains_insert (t : Names α) (name other : String) (x : α) :
    (t.insert name x).contains other = true ↔ other = name ∨ t.contains other = true := by
  by_cases h : other = name <;> simp [contains, find?_insert, h]

/-! ## Cutting down -/

/-- The entries of a table under the given names. -/
def only (t : Names α) (names : List String) : Names α :=
  ⟨t.entries.filter (·.1 ∈ names), t.sorted.filter _⟩

theorem find?_only (t : Names α) (names : List String) (name : String) :
    (t.only names).find? name = if name ∈ names then t.find? name else none := by
  apply Option.ext
  intro y
  rw [find?_eq_some_iff, only, List.mem_filter]
  split <;> simp [find?_eq_some_iff, *]

/-- A cut keeps out what is inserted under another name. -/
theorem only_insert_of_notMem {names : List String} (h : name ∉ names) :
    (t.insert name x).only names = t.only names := by
  refine ext_find? fun other => ?_
  rw [find?_only, find?_only, find?_insert]
  split
  · rename_i hother
    rw [if_neg]
    rintro rfl
    exact h hother
  · rfl

theorem only_of_keys {names : List String} (h : ∀ name, t.contains name = true → name ∈ names) :
    t.only names = t := by
  refine ext_find? fun name => ?_
  rw [find?_only]
  split
  · rfl
  · rename_i hname
    cases hfind : t.find? name with
    | none => rfl
    | some x => exact absurd (h name (contains_of_find? hfind)) hname

end Names

/-! ## Variables -/

/-- A name that does not start with `$`. -/
def PlainName (name : String) : Prop :=
  name.toList.head? ≠ some '$'

instance (name : String) : Decidable (PlainName name) :=
  inferInstanceAs (Decidable (_ ≠ _))

theorem bareName_of_plain {name : String} (h : PlainName name) : bareName name = name := by
  unfold bareName
  split
  · rename_i hname
    exact absurd (congrArg List.head? hname) h
  · rfl

namespace Variables

variable {t : Variables} {name other : String} {v : Value}

theorem binds_eq_true_iff : t.binds name = true ↔ ∃ v, t.lookup name = some v :=
  Names.contains_eq_true_iff

theorem lookup_of_plain (t : Variables) (h : PlainName name) : t.lookup name = t.find? name := by
  rw [lookup, bareName_of_plain h]

theorem binds_bind (t : Variables) (v : Value) (hname : PlainName name) (hother : PlainName other) :
    (t.bind name v).binds other = true ↔ other = name ∨ t.binds other = true := by
  rw [binds, bind, Names.contains_insert, bareName_of_plain hname, bareName_of_plain hother, binds,
    bareName_of_plain hother]

end Variables

end Scss
