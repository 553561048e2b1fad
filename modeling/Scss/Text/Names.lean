/-!
# Tables by name

A table from names to things, kept in the order of the names (by code points).  Two tables with
the same contents are therefore equal, whatever the order in which they were filled.

## Main definitions

* `Names`, with `Names.insert`, `Names.find?`, `Names.contains`, `Names.keys`.

## Main results

* `Names.pairwise_insertEntry`: an insertion keeps the order, so that tables are sorted by
  construction.
-/

namespace Scss

/-- Things by name, in ascending order of their names. -/
structure Names (α : Type) where
  /-- The entries, each name at most once. -/
  entries : List (String × α)
  /-- The names ascend strictly. -/
  sorted : entries.Pairwise (·.1 < ·.1)
  deriving Repr

namespace Names

variable {α : Type}

/-- The table without entries. -/
def empty : Names α := ⟨[], .nil⟩

instance : EmptyCollection (Names α) := ⟨empty⟩

/-- Puts an entry in its place, instead of one with the same name. -/
def insertEntry (name : String) (x : α) : List (String × α) → List (String × α)
  | [] => [(name, x)]
  | (other, y) :: rest =>
    if name < other then (name, x) :: (other, y) :: rest
    else if name = other then (name, x) :: rest
    else (other, y) :: insertEntry name x rest

theorem eq_or_mem_of_mem_insertEntry {name : String} {x : α} {e : String × α}
    {entries : List (String × α)} (h : e ∈ insertEntry name x entries) :
    e = (name, x) ∨ e ∈ entries := by
  induction entries with
  | nil => exact .inl (List.mem_singleton.1 h)
  | cons head rest ih =>
    obtain ⟨other, y⟩ := head
    simp only [insertEntry] at h
    split at h
    · exact List.mem_cons.1 h
    · split at h
      · rcases List.mem_cons.1 h with h | h
        · exact .inl h
        · exact .inr (List.mem_cons_of_mem _ h)
      · rcases List.mem_cons.1 h with rfl | h
        · exact .inr List.mem_cons_self
        · exact (ih h).imp_right (List.mem_cons_of_mem _)

/-- An insertion keeps the order of the names. -/
theorem pairwise_insertEntry (name : String) (x : α) {entries : List (String × α)}
    (h : entries.Pairwise (·.1 < ·.1)) : (insertEntry name x entries).Pairwise (·.1 < ·.1) := by
  induction entries with
  | nil => simp [insertEntry]
  | cons head rest ih =>
    obtain ⟨other, y⟩ := head
    obtain ⟨hhead, hrest⟩ := List.pairwise_cons.1 h
    simp only [insertEntry]
    split
    · rename_i hlt
      refine List.pairwise_cons.2 ⟨fun e he => ?_, h⟩
      rcases List.mem_cons.1 he with rfl | he
      · exact hlt
      · exact String.lt_trans hlt (hhead e he)
    · rename_i hlt
      split
      · rename_i heq
        subst heq
        exact List.pairwise_cons.2 ⟨hhead, hrest⟩
      · rename_i hne
        refine List.pairwise_cons.2 ⟨fun e he => ?_, ih hrest⟩
        rcases eq_or_mem_of_mem_insertEntry he with rfl | he
        · exact String.not_le.1 fun hle => hne (String.le_antisymm hle (String.not_lt.1 hlt))
        · exact hhead e he

/-- Records `x` under `name`, in place of what was there. -/
def insert (t : Names α) (name : String) (x : α) : Names α :=
  ⟨insertEntry name x t.entries, pairwise_insertEntry name x t.sorted⟩

/-- What is recorded under `name`. -/
def find? (t : Names α) (name : String) : Option α :=
  t.entries.lookup name

/-- Whether something is recorded under `name`. -/
def contains (t : Names α) (name : String) : Bool :=
  (t.find? name).isSome

/-- The names, in order. -/
def keys (t : Names α) : List String :=
  t.entries.map Prod.fst

theorem mem_keys_of_find? {t : Names α} {name : String} {x : α} (h : t.find? name = some x) :
    name ∈ t.keys := by
  obtain ⟨entries, sorted⟩ := t
  simp only [find?, keys] at h ⊢
  clear sorted
  induction entries with
  | nil => simp at h
  | cons e rest ih =>
    obtain ⟨n, y⟩ := e
    by_cases hn : name = n
    · simp [hn]
    · have : (name == n) = false := by simpa using hn
      simp only [List.lookup_cons, this] at h
      simp [ih h]

/-- The number of entries. -/
def size (t : Names α) : Nat :=
  t.entries.length

/-- Whether there are no entries. -/
def isEmpty (t : Names α) : Bool :=
  t.entries.isEmpty

end Names

end Scss
