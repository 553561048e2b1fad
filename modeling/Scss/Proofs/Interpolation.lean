import Scss.Proofs.Fixpoint

/-!
# Interpolation is one replacement from left to right

A text can be cut at its complete markers in one way only: in front of each marker no other one can
start, no marker holds a closing brace, and nothing after the last one is a complete marker.
Interpolation replaces each marker of this cut that names a bound variable by the bare text of its
value and keeps all else.  What it puts in is not looked at again.

## Main definitions

* `Template.HasMarker`: a text that holds a complete marker
* `Template.IsCut`: markers and a tail that are cut at all complete markers
* `Variables.Replaces`: what stands for a marker

## Main results

* `Template.cut_eq_some_iff`, `Template.cut_eq_none_iff`: the first complete marker of a text
* `Template.existsUnique_cut`: the one way to cut a text at its markers
* `Variables.interpolate_cut`: an interpolated text, by its cut
-/

namespace Scss

namespace Template

variable {s before inner after rest : List Char} {m : Marker} {t : Template}

/-! ## The first opening and the first closing brace -/

theorem cutOpen_cons {c : Char} (h : ¬ ['#', '\x7b'] <+: c :: s) :
    cutOpen (c :: s) = (cutOpen s).map fun (before, after) => (c :: before, after) := by
  rw [cutOpen]
  rintro tail rfl rfl
  exact h (List.prefix_append _ tail)

/-- What no marker can start in is passed over. -/
theorem cutOpen_append (h : Unmarked before) (rest : List Char) :
    cutOpen (before ++ '#' :: '\x7b' :: rest) = some (before, rest) := by
  induction before with
  | nil => rfl
  | cons c before ih =>
    have hstart : ¬ ['#', '\x7b'] <+: c :: (before ++ '#' :: '\x7b' :: rest) := by
      rw [List.cons_prefix_cons]
      rintro ⟨rfl, hbrace⟩
      cases before with
      | nil => simp at hbrace
      | cons b before =>
        obtain ⟨rfl, -⟩ := List.cons_prefix_cons.1 hbrace
        exact h (List.prefix_append _ before).isInfix
    have hbefore : Unmarked before := fun hinfix => h (List.infix_cons hinfix)
    rw [List.cons_append, cutOpen_cons hstart, ih hbefore]
    rfl

theorem eq_of_cutOpen (h : cutOpen s = some (before, rest)) :
    s = before ++ '#' :: '\x7b' :: rest ∧ Unmarked before := by
  fun_induction cutOpen s generalizing before with
  | case1 => cases h
  | case2 tail =>
    cases h
    exact ⟨rfl, by decide⟩
  | case3 c tail hne ih =>
    obtain ⟨⟨b, a⟩, htail, heq⟩ := Option.map_eq_some_iff.1 h
    cases heq
    obtain ⟨rfl, hb⟩ := ih htail
    refine ⟨rfl, fun hinfix => ?_⟩
    rcases List.infix_cons_iff.1 hinfix with hprefix | hinfix
    · obtain ⟨hc, hbrace⟩ := List.cons_prefix_cons.1 hprefix
      obtain ⟨tail, rfl⟩ := hbrace
      exact hne _ hc.symm rfl
    · exact hb hinfix

/-- A text with an opening is cut at its first one, so that what follows any of them is left. -/
theorem exists_cutOpen (before rest : List Char) :
    ∃ b r, cutOpen (before ++ '#' :: '\x7b' :: rest) = some (b, r) ∧ rest <:+ r := by
  induction before with
  | nil => exact ⟨[], rest, rfl, List.suffix_rfl⟩
  | cons c before ih =>
    by_cases hstart : ['#', '\x7b'] <+: c :: (before ++ '#' :: '\x7b' :: rest)
    · obtain ⟨tail, htail⟩ := hstart
      refine ⟨[], tail, by rw [List.cons_append, ← htail]; rfl, ?_⟩
      -- The brace after the first opening is in `before`, since the other opening starts with `#`.
      cases before with
      | nil => simp at htail
      | cons b before =>
        obtain ⟨-, htail⟩ := List.cons.inj htail
        obtain ⟨-, rfl⟩ := List.cons.inj htail
        exact List.suffix_append_of_suffix (List.suffix_append ['#', '\x7b'] rest)
    · obtain ⟨b, r, hcut, hsuffix⟩ := ih
      refine ⟨c :: b, r, ?_, hsuffix⟩
      rw [List.cons_append, cutOpen_cons hstart, hcut]
      rfl

theorem cutClose_append (h : '\x7d' ∉ inner) (after : List Char) :
    cutClose (inner ++ '\x7d' :: after) = some (inner, after) := by
  induction inner with
  | nil => rfl
  | cons c inner ih =>
    obtain ⟨hc, hinner⟩ := List.ne_and_not_mem_of_not_mem_cons h
    rw [List.cons_append, cutClose, if_neg (Ne.symm hc), ih hinner]
    rfl

theorem eq_of_cutClose (h : cutClose s = some (inner, after)) :
    s = inner ++ '\x7d' :: after ∧ '\x7d' ∉ inner := by
  fun_induction cutClose s generalizing inner with
  | case1 => cases h
  | case2 tail =>
    cases h
    exact ⟨rfl, List.not_mem_nil⟩
  | case3 c tail hc ih =>
    obtain ⟨⟨i, a⟩, htail, heq⟩ := Option.map_eq_some_iff.1 h
    cases heq
    obtain ⟨rfl, hi⟩ := ih htail
    exact ⟨rfl, List.not_mem_cons_of_ne_of_not_mem (Ne.symm hc) hi⟩

theorem exists_cutClose (h : '\x7d' ∈ s) : ∃ inner after, cutClose s = some (inner, after) := by
  obtain ⟨inner, after, rfl, hinner⟩ := List.eq_append_cons_of_mem h
  exact ⟨inner, after, cutClose_append hinner after⟩

/-! ## The first marker -/

/-- A complete marker stands in the text. -/
def HasMarker (s : List Char) : Prop :=
  ∃ before inner after, '\x7d' ∉ inner ∧ s = before ++ writeMarker inner ++ after

theorem append_writeMarker_append (before inner after : List Char) :
    before ++ writeMarker inner ++ after =
      before ++ '#' :: '\x7b' :: (inner ++ '\x7d' :: after) := by
  simp [writeMarker]

/-- A text is cut at its first opening and the first closing brace after it. -/
theorem cut_eq_some_iff :
    cut s = some (m, after) ↔
      Unmarked m.before ∧ '\x7d' ∉ m.inner ∧ s = m.before ++ writeMarker m.inner ++ after := by
  simp only [cut, Option.bind_eq_bind, Option.bind_eq_some_iff]
  constructor
  · rintro ⟨⟨before, rest⟩, hopen, ⟨inner, after⟩, hclose, heq⟩
    cases heq
    obtain ⟨rfl, hbefore⟩ := eq_of_cutOpen hopen
    obtain ⟨rfl, hinner⟩ := eq_of_cutClose hclose
    exact ⟨hbefore, hinner, (append_writeMarker_append _ _ _).symm⟩
  · rintro ⟨hbefore, hinner, rfl⟩
    refine ⟨(m.before, m.inner ++ '\x7d' :: after), ?_, (m.inner, after), ?_, rfl⟩
    · rw [append_writeMarker_append, cutOpen_append hbefore]
    · exact cutClose_append hinner after

/-- A text is not cut if it holds no complete marker. -/
theorem cut_eq_none_iff : cut s = none ↔ ¬ HasMarker s := by
  constructor
  · rintro hnone ⟨before, inner, after, -, rfl⟩
    -- The first opening is here or before, so the closing brace here comes after it.
    obtain ⟨b, r, hopen, hsuffix⟩ := exists_cutOpen before (inner ++ '\x7d' :: after)
    have hmem : '\x7d' ∈ inner ++ '\x7d' :: after :=
      List.mem_append_right _ List.mem_cons_self
    obtain ⟨i, a, hclose⟩ := exists_cutClose (hsuffix.subset hmem)
    rw [append_writeMarker_append] at hnone
    simp [cut, hopen, hclose] at hnone
  · intro hmarker
    apply Option.eq_none_iff_forall_not_mem.2
    rintro ⟨m, after⟩ hcut
    obtain ⟨-, hinner, heq⟩ := cut_eq_some_iff.1 hcut
    exact hmarker ⟨m.before, m.inner, after, hinner, heq⟩

instance (s : List Char) : Decidable (HasMarker s) :=
  decidable_of_iff (¬ cut s = none) (by rw [cut_eq_none_iff, not_not])

/-! ## All markers -/

/-- The template is cut at all complete markers of its text: no marker can start in front of one, no
marker holds a closing brace, and no complete marker is left. -/
structure IsCut (t : Template) : Prop where
  before : ∀ m ∈ t.markers, Unmarked m.before
  inner : ∀ m ∈ t.markers, '\x7d' ∉ m.inner
  tail : ¬ HasMarker t.tail

theorem expand_cons (f : List Char → List Char) (m : Marker) (markers : List Marker)
    (tail : List Char) :
    expand f ⟨m :: markers, tail⟩ = m.before ++ f m.inner ++ expand f ⟨markers, tail⟩ := by
  simp [expand]

theorem isCut_cons {markers : List Marker} {tail : List Char} :
    IsCut ⟨m :: markers, tail⟩ ↔
      Unmarked m.before ∧ '\x7d' ∉ m.inner ∧ IsCut ⟨markers, tail⟩ := by
  constructor
  · rintro ⟨hbefore, hinner, htail⟩
    obtain ⟨hm, hbefore⟩ := List.forall_mem_cons.1 hbefore
    obtain ⟨hm', hinner⟩ := List.forall_mem_cons.1 hinner
    exact ⟨hm, hm', hbefore, hinner, htail⟩
  · rintro ⟨hm, hm', hbefore, hinner, htail⟩
    exact ⟨List.forall_mem_cons.2 ⟨hm, hbefore⟩, List.forall_mem_cons.2 ⟨hm', hinner⟩, htail⟩

theorem parse_of_cut (h : cut s = some (m, after)) :
    parse s = ⟨m :: (parse after).markers, (parse after).tail⟩ := by
  rw [parse]
  split
  · rename_i hnone
    cases hnone.symm.trans h
  · rename_i heq
    cases heq.symm.trans h
    rfl

/-- Reading the markers of a text loses nothing of it. -/
theorem write_parse (s : List Char) : (parse s).write = s := by
  fun_induction parse s with
  | case1 s hcut => rfl
  | case2 s m after hcut hlength rest ih =>
    obtain ⟨-, -, heq⟩ := cut_eq_some_iff.1 hcut
    rw [write, expand_cons, heq]
    exact congrArg _ ih

theorem isCut_parse (s : List Char) : (parse s).IsCut := by
  fun_induction parse s with
  | case1 s hcut => exact ⟨by simp, by simp, cut_eq_none_iff.1 hcut⟩
  | case2 s m after hcut hlength rest ih =>
    obtain ⟨hbefore, hinner, -⟩ := cut_eq_some_iff.1 hcut
    exact isCut_cons.2 ⟨hbefore, hinner, ih⟩

/-- Reading finds the markers at which a text is cut. -/
theorem parse_write (h : t.IsCut) : parse t.write = t := by
  obtain ⟨markers, tail⟩ := t
  induction markers with
  | nil => exact parse_of_cut_eq_none (cut_eq_none_iff.2 h.tail)
  | cons m markers ih =>
    obtain ⟨hbefore, hinner, hrest⟩ := isCut_cons.1 h
    have hcut : cut (write ⟨m :: markers, tail⟩) = some (m, write ⟨markers, tail⟩) := by
      rw [write, expand_cons]
      exact cut_eq_some_iff.2 ⟨hbefore, hinner, rfl⟩
    rw [parse_of_cut hcut, ih hrest]

/-- A text is cut at its complete markers in exactly one way. -/
theorem existsUnique_cut (s : List Char) : ∃! t : Template, t.IsCut ∧ t.write = s := by
  refine ⟨parse s, ⟨isCut_parse s, write_parse s⟩, ?_⟩
  rintro t ⟨hcut, rfl⟩
  exact (parse_write hcut).symm

end Template

/-! ## Replacing the markers -/

namespace Variables

/-- What stands for a marker with the given inner text: the bare text of the value of `name`, if the
inner text is `$` and `name`, perhaps between blanks, and `name` is bound; otherwise the marker. -/
inductive Replaces (t : Variables) (s : Style) (inner : List Char) : List Char → Prop
  | value {name : List Char} {v : Value} (hname : Text.trim inner = '$' :: name)
      (hv : t.lookup (String.ofList name) = some v) : Replaces t s inner (s.renderBare v).toList
  | itself (h : ∀ name, Text.trim inner = '$' :: name → t.lookup (String.ofList name) = none) :
      Replaces t s inner (Template.writeMarker inner)

theorem replaces_expandMarker (t : Variables) (s : Style) (inner : List Char) :
    t.Replaces s inner (t.expandMarker s inner) := by
  unfold expandMarker
  cases hmarked : t.marked inner with
  | some v =>
    unfold marked at hmarked
    split at hmarked
    · rename_i name hname
      exact .value hname hmarked
    · cases hmarked
  | none =>
    refine .itself fun name hname => ?_
    rw [marked, hname] at hmarked
    exact hmarked

theorem expandMarker_empty (s : Style) : expandMarker ∅ s = Template.writeMarker := by
  funext inner
  rw [expandMarker, marked_eq_bind]
  cases markedName inner <;> rfl

/-- **Interpolation is one replacement from left to right.**  A text is cut at its complete markers
in exactly one way.  The interpolated text is this cut, with each marker of a bound variable replaced
by the bare text of its value and all else kept; so what was put in is not looked at again.  Without
variables nothing changes. -/
theorem interpolate_cut (t : Variables) (s : Style) (text : String) :
    (∃! c : Template, c.IsCut ∧ c.write = text.toList) ∧
    (∀ c : Template, c.IsCut → c.write = text.toList →
      (t.interpolate s text).toList = c.expand (t.expandMarker s)) ∧
    (∀ inner, t.Replaces s inner (t.expandMarker s inner)) ∧
    interpolate ∅ s text = text := by
  refine ⟨Template.existsUnique_cut _, fun c hcut hwrite => ?_, t.replaces_expandMarker s, ?_⟩
  · rw [interpolate, String.toList_ofList, ← hwrite, Template.parse_write hcut]
  · rw [interpolate, expandMarker_empty]
    exact (congrArg String.ofList (Template.write_parse _)).trans String.ofList_toList

/-- Two variables, the text of one of which looks like a marker of the other. -/
def selfMarking : Variables :=
  (bind ∅ "gap" [.word "x"]).bind "side" [.word "#\x7b$gap\x7d"]

/-- The cut of a text with neighbouring markers, one of an unbound variable, and one that is not
closed. -/
def neighbours : Template :=
  ⟨[⟨['#'], "$side".toList⟩, ⟨[], " $gap ".toList⟩, ⟨['-'], "$lost".toList⟩], "#\x7b$gap".toList⟩

/-- The text that was put in for the first marker stays, although it looks like a marker. -/
theorem interpolate_cut_neighbours :
    neighbours.IsCut ∧
    neighbours.write = "##\x7b$side\x7d#\x7b $gap \x7d-#\x7b$lost\x7d#\x7b$gap".toList ∧
    (selfMarking.interpolate .standard
      "##\x7b$side\x7d#\x7b $gap \x7d-#\x7b$lost\x7d#\x7b$gap").toList =
      "##\x7b$gap\x7dx-#\x7b$lost\x7d#\x7b$gap".toList := by
  have hcut : neighbours.IsCut := ⟨by decide, by decide, by decide⟩
  have hwrite : neighbours.write =
      "##\x7b$side\x7d#\x7b $gap \x7d-#\x7b$lost\x7d#\x7b$gap".toList := by
    decide
  obtain ⟨-, hinterpolate, -⟩ := interpolate_cut selfMarking .standard
    "##\x7b$side\x7d#\x7b $gap \x7d-#\x7b$lost\x7d#\x7b$gap"
  refine ⟨hcut, hwrite, (hinterpolate neighbours hcut hwrite).trans ?_⟩
  decide

end Variables

end Scss
