/-!
# Text with markers

A marker is `#` followed by text in braces; the first closing brace ends it.  A text is a sequence
of markers, each with the plain text in front of it, and a tail without a complete marker.

## Main definitions

* `Template`: markers and tail, with `Template.parse` and `Template.write`;
* `Template.expand`: the text with each marker replaced;
* `Template.Unmarked`: a text in which no marker can start.

## Main results

* `Template.expand_parse_of_unmarked`: such a text stays as it is.
-/

namespace Scss

/-- A marker and the plain text in front of it. -/
structure Marker where
  /-- The text in front of the marker. -/
  before : List Char
  /-- What stands between the braces. -/
  inner : List Char
  deriving DecidableEq, Repr

/-- A text cut at its markers. -/
structure Template where
  /-- The markers, in order. -/
  markers : List Marker
  /-- What follows the last marker. -/
  tail : List Char
  deriving DecidableEq, Repr

namespace Template

/-- Cuts a text at its first `#` with an opening brace: what is before, and what is after. -/
def cutOpen : List Char → Option (List Char × List Char)
  | [] => none
  | '#' :: '\x7b' :: rest => some ([], rest)
  | c :: rest => (cutOpen rest).map fun (before, after) => (c :: before, after)

/-- Cuts a text at its first closing brace. -/
def cutClose : List Char → Option (List Char × List Char)
  | [] => none
  | c :: rest =>
    if c = '\x7d' then some ([], rest)
    else (cutClose rest).map fun (before, after) => (c :: before, after)

/-- Cuts a text at its first complete marker. -/
def cut (s : List Char) : Option (Marker × List Char) := do
  let (before, rest) ← cutOpen s
  let (inner, after) ← cutClose rest
  return (⟨before, inner⟩, after)

theorem length_of_cutOpen {s before after : List Char} (h : cutOpen s = some (before, after)) :
    after.length < s.length := by
  fun_induction cutOpen s generalizing before with
  | case1 => simp at h
  | case2 rest =>
    cases h
    simp only [List.length_cons]
    omega
  | case3 _ _ _ ih =>
    obtain ⟨⟨b, a⟩, hr, he⟩ := Option.map_eq_some_iff.1 h
    cases he
    exact Nat.lt_succ_of_lt (ih hr)

theorem length_of_cutClose {s before after : List Char} (h : cutClose s = some (before, after)) :
    after.length < s.length := by
  fun_induction cutClose s generalizing before with
  | case1 => simp at h
  | case2 => simp_all
  | case3 _ _ _ ih =>
    obtain ⟨⟨b, a⟩, hr, he⟩ := Option.map_eq_some_iff.1 h
    cases he
    exact Nat.lt_succ_of_lt (ih hr)

theorem length_of_cut {s after : List Char} {m : Marker} (h : cut s = some (m, after)) :
    after.length < s.length := by
  simp only [cut, Option.bind_eq_bind, Option.bind_eq_some_iff] at h
  obtain ⟨⟨b, r⟩, ho, ⟨i, a⟩, hc, he⟩ := h
  cases he
  exact Nat.lt_trans (length_of_cutClose hc) (length_of_cutOpen ho)

/-- Cuts a text at its markers, from left to right. -/
def parse (s : List Char) : Template :=
  match h : cut s with
  | none => ⟨[], s⟩
  | some (m, after) =>
    have : after.length < s.length := length_of_cut h
    let rest := parse after
    ⟨m :: rest.markers, rest.tail⟩
termination_by s.length

/-- The text holds no `#` with an opening brace after it, so that no marker can start in it. -/
def Unmarked (s : List Char) : Prop :=
  ¬ ['#', '\x7b'] <:+: s

instance (s : List Char) : Decidable (Unmarked s) :=
  inferInstanceAs (Decidable (¬ _))

theorem cutOpen_of_unmarked {s : List Char} (h : Unmarked s) : cutOpen s = none := by
  fun_induction cutOpen s with
  | case1 => rfl
  | case2 rest => exact absurd (List.prefix_append ['#', '\x7b'] rest).isInfix h
  | case3 c rest _ ih =>
    rw [ih fun hrest => h (List.infix_cons hrest), Option.map_none]

theorem parse_of_cut_eq_none {s : List Char} (h : cut s = none) : parse s = ⟨[], s⟩ := by
  rw [parse]
  split
  · rfl
  · rename_i hsome
    cases h.symm.trans hsome

theorem parse_of_unmarked {s : List Char} (h : Unmarked s) : parse s = ⟨[], s⟩ :=
  parse_of_cut_eq_none (by simp [cut, cutOpen_of_unmarked h])

/-- A marker as it is written. -/
def writeMarker (inner : List Char) : List Char :=
  '#' :: '\x7b' :: inner ++ ['\x7d']

/-- The text with each marker replaced by what `f` gives for its inner text. -/
def expand (f : List Char → List Char) (t : Template) : List Char :=
  t.markers.flatMap (fun m => m.before ++ f m.inner) ++ t.tail

/-- Where no marker can start there is nothing to replace. -/
theorem expand_parse_of_unmarked {s : List Char} (h : Unmarked s) (f : List Char → List Char) :
    (parse s).expand f = s := by
  rw [parse_of_unmarked h, expand, List.flatMap_nil, List.nil_append]

/-- The text itself. -/
def write (t : Template) : List Char :=
  t.expand writeMarker

end Template

end Scss
