import Mathlib
import Scss.Proofs.PropertyNames
import Scss.Proofs.SourceText

/-!
# Declarations

A statement declares a property if it is a name, a colon and a value.  The property is the name with
its parts joined, so whitespace between two parts disappears, and a colon or a semicolon that is
missing in front of it goes unnoticed.

## Main definitions

* `Statement.Sets`: the components of a statement that sets a property
* `Statement.Declares`: the components of a declaration

## Main results

* `Statement.read_eq_declaration_iff`: what is read as a declaration
* `Statement.mem_properties_readAll`: the properties of statements that were read
* `Stylesheet.property_joins_parts`: the properties of a stylesheet are the parts of names, joined
* `Stylesheet.separated_parts_join`: whitespace that disappears from a name
-/

namespace Scss

/-! ## Statements -/

namespace Statement

open Component (after Spells isBlank)

variable {p : Position} {line : Nat} {c : Component} {cs blanks : List Component}
  {d : Declaration} {property : String}

/-- The components set `property`: it is the parts of a name, joined, and a colon follows the
name. -/
def Sets (cs : List Component) (property : String) : Prop :=
  ∃ name colon value parts, cs = name ++ colon :: value ∧ colon.token = .colon ∧
    Spells name parts ∧ property = String.join parts ∧ property ≠ ""

theorem sets_iff (p : Position) :
    Sets cs property ↔ ∃ q value, Component.property p false "" cs = .ok (property, q, value) := by
  constructor
  · rintro ⟨name, colon, value, parts, hcs, hcolon, hname, hproperty, hne⟩
    exact ⟨_, value, Component.property_eq_ok_iff.2
      ⟨name, colon, parts, hcs, hcolon, hname, hproperty, hne, rfl⟩⟩
  · rintro ⟨q, value, h⟩
    obtain ⟨name, colon, parts, hcs, hcolon, hname, hproperty, hne, -⟩ :=
      Component.property_eq_ok_iff.1 h
    exact ⟨name, colon, value, parts, hcs, hcolon, hname, hproperty, hne⟩

/-- The components from `p` on are a declaration: a name, a colon and a value without the flag
`!default`. -/
inductive Declares (p : Position) (line : Nat) : List Component → Declaration → Prop
  | mk {name value : List Component} {colon : Component} {parts : List String} {v : Value}
      {flags : Flags} {r : Position} (hname : Spells name parts) (hparts : String.join parts ≠ "")
      (hcolon : colon.token = .colon)
      (hvalue : readValue (after p (name ++ [colon])) value = .ok (v, flags, r))
      (hflags : flags.default = false) :
      Declares p line (name ++ colon :: value)
        ⟨String.join parts, v, flags.important, none, some line⟩

theorem readDeclaration_eq_ok_iff : readDeclaration line p cs = .ok d ↔ Declares p line cs d := by
  constructor
  · intro h
    obtain ⟨⟨property, q, value⟩, hproperty, hrest⟩ := bind_eq_ok_iff.1 h
    obtain ⟨⟨v, flags, r⟩, hvalue, hd⟩ := bind_eq_ok_iff.1 hrest
    obtain ⟨name, colon, parts, rfl, hcolon, hname, rfl, hne, rfl⟩ :=
      Component.property_eq_ok_iff.1 hproperty
    dsimp only at hd
    split at hd
    · cases hd
    · rename_i hflags
      cases hd
      exact .mk hname hne hcolon hvalue (Bool.eq_false_iff.2 hflags)
  · rintro @⟨name, value, colon, parts, v, flags, r, hname, hparts, hcolon, hvalue, hflags⟩
    have hproperty : Component.property p false "" (name ++ colon :: value) =
        .ok (String.join parts, after p (name ++ [colon]), value) :=
      Component.property_eq_ok_iff.2 ⟨name, colon, parts, rfl, hcolon, hname, rfl, hparts, rfl⟩
    refine bind_eq_ok_iff.2 ⟨_, hproperty, bind_eq_ok_iff.2 ⟨_, hvalue, ?_⟩⟩
    dsimp only
    rw [hflags]
    rfl

/-- A declaration that was read is of the property that its components set. -/
theorem property_of_readDeclaration (h : readDeclaration line p cs = .ok d) :
    ∃ q value, Component.property p false "" cs = .ok (d.property, q, value) := by
  apply (sets_iff p).1
  obtain ⟨hname, hparts, hcolon, -, -⟩ := readDeclaration_eq_ok_iff.1 h
  exact ⟨_, _, _, _, rfl, hcolon, hname, rfl, hparts⟩

/-- The line of the first component that is not blank. -/
def firstLine (p : Position) (cs : List Component) : Nat :=
  (after p (cs.takeWhile isBlank)).line + 1

theorem readDeclaration_blanks (hblanks : ∀ x ∈ blanks, x.isBlank = true) (line : Nat)
    (p : Position) (cs : List Component) :
    readDeclaration line p (blanks ++ cs) = readDeclaration line (after p blanks) cs := by
  rw [readDeclaration, Component.property_blanks hblanks, readDeclaration]

/-- A statement that starts with `c`, after blanks. -/
theorem read_append (hblanks : ∀ x ∈ blanks, x.isBlank = true) (hc : c.isBlank = false)
    (p : Position) (rest : List Component) :
    read p (blanks ++ c :: rest) =
      if c.token = .delim '$' then
        (readVariable ((after p blanks).line + 1) ((after p blanks).advance c.source) rest).map
          (some ∘ .variable)
      else
        (readDeclaration (firstLine p (blanks ++ c :: rest)) p (blanks ++ c :: rest)).map
          (some ∘ .declaration) := by
  have hline : firstLine p (blanks ++ c :: rest) = (after p blanks).line + 1 := by
    rw [firstLine, List.takeWhile_append_of_pos hblanks, List.takeWhile_cons_of_neg (by simp [hc]),
      List.append_nil]
  rw [read, Component.skip_append hblanks hc, hline, readDeclaration_blanks hblanks]

theorem read_of_spells {name : List Component} {parts : List String} (h : Spells name parts)
    (hc : c.isBlank = false) (hdollar : c.token ≠ .delim '$') (p : Position)
    (rest : List Component) :
    read p (name ++ c :: rest) =
      (readDeclaration (firstLine p (name ++ c :: rest)) p (name ++ c :: rest)).map
        (some ∘ .declaration) := by
  obtain ⟨blanks, first, tail, htail, hblanks, hfirst, hfirstDollar⟩ := h.first hc hdollar rest
  rw [htail, read_append hblanks hfirst, if_neg hfirstDollar]

/-- A statement is read as a declaration exactly if it is one. -/
theorem read_eq_declaration_iff :
    read p cs = .ok (some (.declaration d)) ↔ Declares p (firstLine p cs) cs d := by
  constructor
  · intro h
    rcases Component.skip_cases isBlank cs with hall | ⟨blanks, c, rest, rfl, hblanks, hc⟩
    · rw [read, Component.skip_of_all hall] at h
      cases h
    · rw [read_append hblanks hc] at h
      split at h
      · obtain ⟨v, -, hv⟩ := map_eq_ok_iff.1 h
        cases hv
      · obtain ⟨d, hd, hs⟩ := map_eq_ok_iff.1 h
        cases hs
        exact readDeclaration_eq_ok_iff.1 hd
  · intro h
    have hd := readDeclaration_eq_ok_iff.2 h
    obtain @⟨name, value, colon, parts, v, flags, r, hname, hparts, hcolon, hvalue, hflags⟩ := h
    rw [read_of_spells hname (Component.isBlank_of_token hcolon) (by simp [hcolon])]
    exact map_eq_ok_iff.2 ⟨_, hd, rfl⟩

/-- Whitespace after the `#` of a marker is an error. -/
theorem read_hash_whitespace {name comments : List Component} {parts : List String}
    {hash space : Component} (hname : Spells name parts) (hhash : hash.token = .delim '#')
    (hcomments : ∀ x ∈ comments, x.isComment = true) (hspace : space.isWhitespace = true)
    (p : Position) (rest : List Component) :
    read p (name ++ hash :: (comments ++ space :: rest)) =
      .error (.unexpected (after p (name ++ hash :: comments)) space) := by
  obtain ⟨text, htoken⟩ := Token.eq_whitespace_of_isWhitespace hspace
  have hproperty : Component.property p false "" (name ++ hash :: (comments ++ space :: rest)) =
      .error (.unexpected (after p (name ++ hash :: comments)) space) := by
    rw [Component.property_append hname, Component.property_of_hash hhash,
      Component.property_comments hcomments,
      Component.property_of_marker (Component.isComment_of_token htoken),
      Component.marker_of_token_ne (by simp [htoken]), Component.after_append]
    rfl
  rw [read_of_spells hname (Component.isBlank_of_token hhash) (by simp [hhash]), readDeclaration,
    hproperty]
  rfl

/-- A statement that was read declares the property that its components set, and no other. -/
theorem sets_iff_of_read {statement? : Option Statement} (h : read p cs = .ok statement?) :
    Sets cs property ↔ ∃ d, statement? = some (.declaration d) ∧ d.property = property := by
  -- A name can be read from the blanks on, so both sides start at `p`.
  rw [sets_iff p]
  rcases Component.skip_cases isBlank cs with hall | ⟨blanks, c, rest, rfl, hblanks, hc⟩
  · rw [read, Component.skip_of_all hall] at h
    cases h
    rw [← List.append_nil cs, Component.property_blanks hall]
    constructor
    · rintro ⟨q, value, ⟨⟩⟩
    · rintro ⟨d, ⟨⟩, -⟩
  · rw [read_append hblanks hc] at h
    split at h
    · rename_i hdollar
      obtain ⟨v, -, rfl⟩ := map_eq_ok_iff.1 h
      rw [Component.property_blanks hblanks, Component.property_of_dollar hdollar]
      constructor
      · rintro ⟨q, value, ⟨⟩⟩
      · rintro ⟨d, ⟨⟩, -⟩
    · obtain ⟨d, hd, rfl⟩ := map_eq_ok_iff.1 h
      obtain ⟨q, value, hproperty⟩ := property_of_readDeclaration hd
      rw [hproperty]
      constructor
      · rintro ⟨_, _, ⟨⟩⟩
        exact ⟨d, rfl, rfl⟩
      · rintro ⟨_, ⟨⟩, rfl⟩
        exact ⟨q, value, rfl⟩

/-- The properties of statements that were read are those that their components set. -/
theorem mem_properties_readAll (parts : List (List Component)) :
    ∀ p sheet, readAll p parts = .ok sheet →
      (property ∈ (Stylesheet.declarations sheet).map (·.property) ↔
        ∃ part ∈ parts, Sets part property) := by
  induction parts with
  | nil =>
    rintro p sheet ⟨⟩
    simp [Stylesheet.declarations]
  | cons part parts ih =>
    intro p sheet h
    obtain ⟨statement?, hfirst, h⟩ := bind_eq_ok_iff.1 h
    obtain ⟨rest, hrest, h⟩ := bind_eq_ok_iff.1 h
    simp only [List.mem_cons, exists_eq_or_imp]
    rw [sets_iff_of_read hfirst, ← ih _ _ hrest]
    -- The comment that a declaration is given leaves its property alone.
    match statement?, h with
    | none, rfl => simp
    | some (.variable v), rfl => simp [Stylesheet.declarations, withComment, asDeclaration?]
    | some (.declaration d), rfl =>
      simp [Stylesheet.declarations, withComment, asDeclaration?, eq_comm]

end Statement

/-! ## Stylesheets -/

namespace Component

/-- A word. -/
def word (text : String) : Component := .leaf ⟨.ident text, text.toList⟩

/-- A space. -/
def space : Component := .leaf ⟨.whitespace " ", [' ']⟩

/-- A colon. -/
def colonSign : Component := .leaf ⟨.colon, [':']⟩

/-- The `#` of a marker. -/
def hash : Component := .leaf ⟨.delim '#', ['#']⟩

/-- The block of a marker. -/
def markerBlock (name : String) : Component :=
  .block ⟨.opening .curly, ['\x7b']⟩ [.leaf ⟨.delim '$', ['$']⟩, word name]
    (some ⟨.closing .curly, ['\x7d']⟩)

theorem spells_word (text : String) : Spells [word text] [text] :=
  .part (.word rfl) .nil

theorem spells_marker (name : String) : Spells [hash, markerBlock name] [markerText name] := by
  have hinside : MarkerInside name [.leaf ⟨.delim '$', ['$']⟩, word name] :=
    @MarkerInside.mk name [] [] [] _ _ (by simp) rfl (by simp) rfl (by simp)
  exact .part (@NamePart.marker hash [] _ _ _ _ rfl (by simp) rfl hinside) .nil

theorem separated_words (left right : String) : Separated [word left, space, word right] :=
  ⟨[word left], space, [word right], [left], [right], rfl, rfl, spells_word left,
    List.cons_ne_nil _ _, spells_word right, List.cons_ne_nil _ _⟩

end Component

namespace Stylesheet

open Component

/-- **Whitespace between the parts of a name is dropped.**  In a stylesheet that was read, every
property is the name of a statement with its parts joined, and every such name is a property; its
parts follow one another without whitespace exactly if none separates two of them.  A statement is
read as a declaration exactly if it is a name, separated or not, a colon and a value; and whitespace
after the `#` of a marker is an error. -/
theorem property_joins_parts (text : String) (sheet : Stylesheet)
    (h : read text = .ok sheet) :
    (∀ property ∈ sheet.declarations.map (·.property),
      ∃ part ∈ statements (Component.read text),
        sourceAll part <:+: text.toList ∧ Statement.Sets part property) ∧
    (∀ name colon value parts,
      name ++ colon :: value ∈ statements (Component.read text) →
      colon.token = .colon → Spells name parts → String.join parts ≠ "" →
      String.join parts ∈ sheet.declarations.map (·.property) ∧
        (Contiguous name parts ↔ ¬Separated name)) ∧
    (∀ p cs d, Statement.read p cs = .ok (some (.declaration d)) ↔
      Statement.Declares p (Statement.firstLine p cs) cs d) ∧
    (∀ p name parts hash comments space rest, Spells name parts →
      hash.token = .delim '#' → (∀ x ∈ comments, x.isComment = true) →
      space.isWhitespace = true →
      Statement.read p (name ++ hash :: (comments ++ space :: rest)) =
        .error (.unexpected (after p (name ++ hash :: comments)) space)) := by
  refine ⟨?_, ?_, fun _ _ _ => Statement.read_eq_declaration_iff,
    fun p _ _ _ _ _ rest hname hhash hcomments hspace =>
      Statement.read_hash_whitespace hname hhash hcomments hspace p rest⟩
  · intro property hproperty
    obtain ⟨part, hpart, hsets⟩ := (Statement.mem_properties_readAll _ _ _ h).1 hproperty
    exact ⟨part, hpart, Component.sourceAll_infix_of_mem_statements hpart, hsets⟩
  · intro name colon value parts hpart hcolon hname hne
    refine ⟨(Statement.mem_properties_readAll _ _ _ h).2 ⟨_, hpart, ?_⟩, hname.contiguous_iff⟩
    exact ⟨name, colon, value, parts, rfl, hcolon, hname, rfl, hne⟩

/-- A word and a marker that follow one another, with a space before the colon; and a space after
the `#` of a marker. -/
theorem property_joins_parts_border :
    (∃ sheet : Stylesheet, read "border-#\x7b$side\x7d : thin;" = .ok sheet ∧
      "border-#\x7b$side\x7d" ∈ sheet.declarations.map (·.property) ∧
      (∃ part ∈ statements (Component.read "border-#\x7b$side\x7d : thin;"),
        sourceAll part <:+: "border-#\x7b$side\x7d : thin;".toList ∧
        Statement.Sets part "border-#\x7b$side\x7d") ∧
      ¬Separated [word "border-", hash, markerBlock "side", space]) ∧
    Statement.read .start [word "border-", hash, space] =
      .error ⟨⟨0, 10⟩, .unexpected (.whitespace " ")⟩ := by
  have hstatements : statements (Component.read "border-#\x7b$side\x7d : thin;") =
      [[word "border-", hash, markerBlock "side", space, colonSign, space, word "thin"], []] := by
    cbv
  have hread : read "border-#\x7b$side\x7d : thin;" =
      .ok [.declaration ⟨"border-#\x7b$side\x7d", [.word "thin"], false, none, some 1⟩] := by
    rw [read, hstatements]
    rfl
  have hcore := (spells_word "border-").append (spells_marker "side")
  have hspace : ∀ x ∈ [space], x.isBlank = true := List.forall_mem_singleton.2 rfl
  have hcontiguous : Contiguous [word "border-", hash, markerBlock "side", space]
      ["border-", markerText "side"] :=
    ⟨[], [word "border-", hash, markerBlock "side"], [space], rfl, by simp, by decide, hcore,
      hspace⟩
  have hpart : [word "border-", hash, markerBlock "side", space] ++
      colonSign :: [space, word "thin"] ∈
        statements (Component.read "border-#\x7b$side\x7d : thin;") := by
    rw [hstatements]
    exact List.mem_cons_self
  obtain ⟨hsets, hname, -, hhash⟩ := property_joins_parts _ _ hread
  obtain ⟨hmem, hiff⟩ := hname _ _ _ ["border-", markerText "side"] hpart rfl
    (hcore.append (spells_blanks hspace)) (by decide)
  refine ⟨⟨_, hread, hmem, hsets _ hmem, hiff.1 hcontiguous⟩, ?_⟩
  exact hhash .start [word "border-"] ["border-"] hash [] space [] (spells_word "border-") rfl
    (by simp) rfl

/-- Two words with a space between them are read as one property. -/
theorem separated_parts_join :
    read "margin left: auto;" =
      .ok [.declaration ⟨"marginleft", [.word "auto"], false, none, some 1⟩] ∧
    ∃ name colon value, colon.token = .colon ∧ Separated name ∧
      name ++ colon :: value ∈ statements (Component.read "margin left: auto;") := by
  have hstatements : statements (Component.read "margin left: auto;") =
      [[word "margin", space, word "left", colonSign, space, word "auto"], []] := by
    cbv
  rw [read, hstatements]
  refine ⟨rfl, [word "margin", space, word "left"], colonSign, [space, word "auto"], rfl,
    separated_words "margin" "left", ?_⟩
  exact List.mem_cons_self

end Stylesheet

end Scss
