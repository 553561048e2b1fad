import Scss.Proofs.Insertion
import Scss.Result
import Scss.Stylesheet.Read

/-!
# Property names

The name of a property consists of words and markers, up to the colon.  Whitespace and comments may
stand between them and are left out of the name, so parts that whitespace separates are joined just
as parts that follow one another.  Only inside a marker, after its `#` or its `$`, whitespace is an
error.

## Main definitions

* `Component.NamePart`, `Component.Spells`: the components of one part of a name, and of a name
* `Component.Contiguous`, `Component.Separated`: a name without and with whitespace between parts

## Main results

* `Component.marker_eq_ok_iff`: what is read as the block of a marker
* `Component.property_eq_ok_iff`: what is read as a name
* `Component.Spells.contiguous_iff`: the parts of a name are contiguous unless two are separated
-/

namespace Scss

namespace Component

variable {cs rest : List Component} {c : Component} {p q : Position} {drop : Component → Bool}
  {pending : Bool} {text start : String}

/-! ## Skipping -/

/-- The position after components, the first of which starts at `p`. -/
def after (p : Position) (cs : List Component) : Position :=
  cs.foldl (fun q c => q.advance c.source) p

theorem after_append (p : Position) (cs cs' : List Component) :
    after p (cs ++ cs') = after (after p cs) cs' :=
  List.foldl_append

theorem skip_of_all (h : ∀ x ∈ cs, drop x = true) (p : Position) :
    skip drop p cs = (after p cs, []) := by
  induction cs generalizing p with
  | nil => rfl
  | cons x cs ih =>
    obtain ⟨hx, hcs⟩ := List.forall_mem_cons.1 h
    rw [skip, if_pos hx, ih hcs]
    rfl

theorem skip_append {dropped : List Component} (h : ∀ x ∈ dropped, drop x = true)
    (hc : drop c = false) (p : Position) (rest : List Component) :
    skip drop p (dropped ++ c :: rest) = (after p dropped, c :: rest) := by
  induction dropped generalizing p with
  | nil =>
    rw [List.nil_append, skip, if_neg (by simp [hc])]
    rfl
  | cons x dropped ih =>
    obtain ⟨hx, hdropped⟩ := List.forall_mem_cons.1 h
    rw [List.cons_append, skip, if_pos hx, ih hdropped]
    rfl

/-- All components are skipped, or there is a first one that is not. -/
theorem skip_cases (drop : Component → Bool) (cs : List Component) :
    (∀ x ∈ cs, drop x = true) ∨
      ∃ dropped c rest, cs = dropped ++ c :: rest ∧ (∀ x ∈ dropped, drop x = true) ∧
        drop c = false := by
  induction cs with
  | nil => exact .inl (by simp)
  | cons x cs ih =>
    cases hx : drop x with
    | false => exact .inr ⟨[], x, cs, rfl, by simp, hx⟩
    | true =>
      rcases ih with hall | ⟨dropped, c, rest, rfl, hdropped, hc⟩
      · exact .inl (List.forall_mem_cons.2 ⟨hx, hall⟩)
      · exact .inr ⟨x :: dropped, c, rest, rfl, List.forall_mem_cons.2 ⟨hx, hdropped⟩, hc⟩

/-! ## Markers -/

theorem isComment_of_token {token : Token} (h : c.token = token) :
    c.isComment = token.isComment := by
  rw [isComment, h]

theorem isWhitespace_of_token {token : Token} (h : c.token = token) :
    c.isWhitespace = token.isWhitespace := by
  rw [isWhitespace, h]

theorem isWhitespace_of_isComment (h : c.isComment = true) : c.isWhitespace = false := by
  obtain ⟨text, htoken⟩ := Token.eq_comment_of_isComment h
  exact isWhitespace_of_token htoken

theorem isBlank_of_token {token : Token} (h : c.token = token) :
    c.isBlank = (token.isWhitespace || token.isComment) := by
  rw [isBlank, isWhitespace, isComment, h]

/-- A name is read after comments only. -/
theorem name_eq_ok_iff :
    name p cs = .ok (text, q, rest) ↔
      ∃ comments word, cs = comments ++ word :: rest ∧ (∀ x ∈ comments, x.isComment = true) ∧
        word.token = .ident text ∧ q = after p (comments ++ [word]) := by
  constructor
  · intro h
    unfold name at h
    rcases skip_cases isComment cs with hall | ⟨comments, word, tail, rfl, hcomments, hword⟩
    · rw [skip_of_all hall] at h
      cases h
    · rw [skip_append hcomments hword] at h
      dsimp only at h
      split at h
      · rename_i htoken
        cases h
        exact ⟨comments, word, rfl, hcomments, htoken, (after_append p comments [word]).symm⟩
      · cases h
  · rintro ⟨comments, word, rfl, hcomments, hword, rfl⟩
    unfold name
    rw [skip_append hcomments (isComment_of_token hword)]
    dsimp only
    rw [hword, after_append]
    rfl

/-- The components between the braces of a marker: a `$` and its name, with blanks around them and
only comments in between. -/
inductive MarkerInside (text : String) : List Component → Prop
  | mk {lead comments trail : List Component} {dollar word : Component}
      (hlead : ∀ x ∈ lead, x.isBlank = true) (hdollar : dollar.token = .delim '$')
      (hcomments : ∀ x ∈ comments, x.isComment = true) (hword : word.token = .ident text)
      (htrail : ∀ x ∈ trail, x.isBlank = true) :
      MarkerInside text (lead ++ dollar :: (comments ++ word :: trail))

theorem markerName_eq_ok_iff : markerName p cs = .ok text ↔ MarkerInside text cs := by
  constructor
  · intro h
    unfold markerName at h
    rcases skip_cases isBlank cs with hall | ⟨lead, dollar, tail, rfl, hlead, hblank⟩
    · rw [skip_of_all hall] at h
      cases h
    · rw [skip_append hlead hblank] at h
      dsimp only at h
      split at h
      · rename_i hdollar
        obtain ⟨⟨text', p₁, trail⟩, hname, h⟩ := bind_eq_ok_iff.1 h
        obtain ⟨comments, word, rfl, hcomments, hword, rfl⟩ := name_eq_ok_iff.1 hname
        rcases skip_cases isBlank trail with htrail | ⟨blanks, c, tail, rfl, hblanks, hc⟩
        · dsimp only at h
          rw [skip_of_all htrail] at h
          cases h
          exact .mk hlead hdollar hcomments hword htrail
        · dsimp only at h
          rw [skip_append hblanks hc] at h
          cases h
      · cases h
  · rintro ⟨hlead, hdollar, hcomments, hword, htrail⟩
    unfold markerName
    rw [skip_append hlead (isBlank_of_token hdollar)]
    dsimp only
    rw [if_pos hdollar]
    refine bind_eq_ok_iff.2 ⟨_, name_eq_ok_iff.2 ⟨_, _, rfl, hcomments, hword, rfl⟩, ?_⟩
    dsimp only
    rw [skip_of_all htrail]
    rfl

theorem marker_eq_ok_iff :
    marker p c = .ok text ↔
      ∃ opener inner closer name, c = .block opener inner closer ∧
        opener.token = .opening .curly ∧ MarkerInside name inner ∧ text = markerText name := by
  constructor
  · intro h
    cases c with
    | leaf l => cases h
    | block opener inner closer =>
      rw [marker] at h
      split at h
      · rename_i hopener
        obtain ⟨name, hname, rfl⟩ := map_eq_ok_iff.1 h
        exact ⟨opener, inner, closer, name, rfl, hopener, markerName_eq_ok_iff.1 hname, rfl⟩
      · cases h
  · rintro ⟨opener, inner, closer, name, rfl, hopener, hinner, rfl⟩
    rw [marker, if_pos hopener, markerName_eq_ok_iff.2 hinner]
    rfl

theorem marker_of_token_ne (h : c.token ≠ .opening .curly) :
    marker p c = .error (.unexpected p c) := by
  cases c with
  | leaf l => rfl
  | block opener inner closer => exact if_neg h

/-! ## Names -/

/-- The components of one part of a name: a word, or a marker, in which only comments may stand
between `#` and its block. -/
inductive NamePart : List Component → String → Prop
  | word {c : Component} {text : String} (h : c.token = .ident text) : NamePart [c] text
  | marker {hash : Component} {comments inner : List Component} {opener : Lexeme}
      {closer : Option Lexeme} {name : String} (hhash : hash.token = .delim '#')
      (hcomments : ∀ x ∈ comments, x.isComment = true) (hopener : opener.token = .opening .curly)
      (hinner : MarkerInside name inner) :
      NamePart (hash :: (comments ++ [.block opener inner closer])) (markerText name)

/-- The components spell the parts of a name in order, with blanks before, between and after
them. -/
inductive Spells : List Component → List String → Prop
  | nil : Spells [] []
  | blank {c : Component} {cs : List Component} {parts : List String} (h : c.isBlank = true)
      (hrest : Spells cs parts) : Spells (c :: cs) parts
  | part {part cs : List Component} {text : String} {parts : List String} (h : NamePart part text)
      (hrest : Spells cs parts) : Spells (part ++ cs) (text :: parts)

theorem property_of_isComment (h : c.isComment = true) :
    property p pending start (c :: rest) = property (p.advance c.source) pending start rest := by
  rw [property]
  simp only [h, if_true]

theorem property_of_marker (h : c.isComment = false) :
    property p true start (c :: rest) =
      marker p c >>= fun text => property (p.advance c.source) false (start ++ text) rest := by
  rw [property]
  simp only [h, Bool.false_eq_true, if_false, if_true]

theorem property_of_isWhitespace (h : c.isWhitespace = true) :
    property p false start (c :: rest) = property (p.advance c.source) false start rest := by
  obtain ⟨text, htoken⟩ := Token.eq_whitespace_of_isWhitespace h
  rw [property, isComment_of_token htoken, htoken]
  rfl

theorem property_of_ident (h : c.token = .ident text) :
    property p false start (c :: rest) =
      property (p.advance c.source) false (start ++ text) rest := by
  rw [property, isComment_of_token h, h]
  rfl

theorem property_of_hash (h : c.token = .delim '#') :
    property p false start (c :: rest) = property (p.advance c.source) true start rest := by
  rw [property, isComment_of_token h, h]
  rfl

theorem property_of_colon (h : c.token = .colon) :
    property p false start (c :: rest) =
      if start.isEmpty then .error ⟨p.advance c.source, .missingProperty⟩
      else .ok (start, p.advance c.source, rest) := by
  rw [property, isComment_of_token h, h]
  rfl

theorem property_of_dollar (h : c.token = .delim '$') :
    property p false start (c :: rest) = .error (.unexpected p c) := by
  rw [property, isComment_of_token h, h]
  rfl

theorem property_comments {comments : List Component} (h : ∀ x ∈ comments, x.isComment = true)
    (p : Position) (rest : List Component) :
    property p pending start (comments ++ rest) =
      property (after p comments) pending start rest := by
  induction comments generalizing p with
  | nil => rfl
  | cons x comments ih =>
    obtain ⟨hx, hcomments⟩ := List.forall_mem_cons.1 h
    rw [List.cons_append, property_of_isComment hx, ih hcomments]
    rfl

theorem NamePart.property_append {part : List Component} (h : NamePart part text) (p : Position)
    (start : String) (rest : List Component) :
    property p false start (part ++ rest) = property (after p part) false (start ++ text) rest := by
  cases h with
  | word h => exact property_of_ident h
  | @marker hash comments inner opener closer name hhash hcomments hopener hinner =>
    have htoken : (Component.block opener inner closer).token = .opening .curly := hopener
    rw [List.cons_append, List.append_assoc, property_of_hash hhash, property_comments hcomments,
      List.singleton_append, property_of_marker (isComment_of_token htoken),
      marker_eq_ok_iff.2 ⟨opener, inner, closer, name, rfl, hopener, hinner, rfl⟩]
    rw [← List.cons_append, after_append]
    rfl

/-- A name is read to its end, and its parts are joined. -/
theorem property_append {name : List Component} {parts : List String} (h : Spells name parts)
    (p : Position) (start : String) (rest : List Component) :
    property p false start (name ++ rest) =
      property (after p name) false (start ++ String.join parts) rest := by
  induction h generalizing p start with
  | nil => rw [String.join_nil, String.append_empty]; rfl
  | @blank c cs parts h hrest ih =>
    rcases Bool.or_eq_true_iff.1 h with h | h
    · rw [List.cons_append, property_of_isWhitespace h, ih]
      rfl
    · rw [List.cons_append, property_of_isComment h, ih]
      rfl
  | part h hrest ih =>
    rw [List.append_assoc, h.property_append, ih, after_append, String.join_cons,
      String.append_assoc]

/-- What is left of a name, perhaps after the `#` of a marker. -/
inductive Continues : Bool → List Component → List String → Prop
  | name {cs : List Component} {parts : List String} (h : Spells cs parts) :
      Continues false cs parts
  | marker {comments inner cs : List Component} {opener : Lexeme} {closer : Option Lexeme}
      {name : String} {parts : List String} (hcomments : ∀ x ∈ comments, x.isComment = true)
      (hopener : opener.token = .opening .curly) (hinner : MarkerInside name inner)
      (hrest : Spells cs parts) :
      Continues true (comments ++ .block opener inner closer :: cs) (markerText name :: parts)

namespace Continues

variable {parts : List String}

theorem comment (hc : c.isComment = true) (h : Continues pending cs parts) :
    Continues pending (c :: cs) parts := by
  cases h with
  | name h => exact .name (.blank (Bool.or_eq_true_iff.2 (.inr hc)) h)
  | marker hcomments hopener hinner hrest =>
    exact marker (List.forall_mem_cons.2 ⟨hc, hcomments⟩) hopener hinner hrest

theorem hash (hc : c.token = .delim '#') (h : Continues true cs parts) :
    Continues false (c :: cs) parts := by
  cases h with
  | @marker comments inner cs opener closer name parts hcomments hopener hinner hrest =>
    have hpart : NamePart (c :: (comments ++ [.block opener inner closer])) (markerText name) :=
      .marker hc hcomments hopener hinner
    have hspells := Spells.part hpart hrest
    rw [List.cons_append, List.append_assoc, List.singleton_append] at hspells
    exact .name hspells

theorem block {opener : Lexeme} {closer : Option Lexeme} {inner : List Component} {name : String}
    (hopener : opener.token = .opening .curly) (hinner : MarkerInside name inner)
    (h : Continues false cs parts) :
    Continues true (.block opener inner closer :: cs) (markerText name :: parts) := by
  cases h with
  | name h => exact @marker [] inner cs opener closer name parts (by simp) hopener hinner h

theorem space (hc : c.isWhitespace = true) (h : Continues false cs parts) :
    Continues false (c :: cs) parts := by
  cases h with
  | name h => exact .name (.blank (Bool.or_eq_true_iff.2 (.inl hc)) h)

theorem word (hc : c.token = .ident text) (h : Continues false cs parts) :
    Continues false (c :: cs) (text :: parts) := by
  cases h with
  | name h => exact .name (.part (.word hc) h)

end Continues

/-- The components from `p` on are a name, a colon that ends at `q`, and `rest`; with `start` in
front of its parts, the name is `text`. -/
def IsNamed (p : Position) (pending : Bool) (start : String) (cs : List Component) (text : String)
    (q : Position) (rest : List Component) : Prop :=
  ∃ name colon parts, cs = name ++ colon :: rest ∧ colon.token = .colon ∧
    Continues pending name parts ∧ text = start ++ String.join parts ∧ text ≠ "" ∧
    q = after p (name ++ [colon])

theorem IsNamed.cons {pending' : Bool} {start' : String}
    (h : IsNamed (p.advance c.source) pending' start' cs text q rest)
    (hstep : ∀ name parts, Continues pending' name parts →
      ∃ parts', Continues pending (c :: name) parts' ∧
        start' ++ String.join parts = start ++ String.join parts') :
    IsNamed p pending start (c :: cs) text q rest := by
  obtain ⟨name, colon, parts, rfl, hcolon, hname, rfl, hne, rfl⟩ := h
  obtain ⟨parts', hname', hjoin⟩ := hstep name parts hname
  exact ⟨c :: name, colon, parts', rfl, hcolon, hname', hjoin, hne, rfl⟩

theorem append_join (start part : String) (parts : List String) :
    start ++ part ++ String.join parts = start ++ String.join (part :: parts) := by
  rw [String.join_cons, String.append_assoc]

/-- What was read as a name spells its parts, up to the colon. -/
theorem isNamed_of_property (h : property p pending start cs = .ok (text, q, rest)) :
    IsNamed p pending start cs text q rest := by
  -- The cases are those of the reader.  Each step puts one component in front of what is left of
  -- the name, so the parts are joined from the right although they are read from the left.
  fun_induction property p pending start cs with
  | case1 => cases h
  | case2 p pending start c cs q' hcomment ih =>
    exact (ih h).cons fun name parts hname => ⟨parts, hname.comment hcomment, rfl⟩
  | case3 p start c cs q' hcomment ih =>
    obtain ⟨part, hmarker, h⟩ := bind_eq_ok_iff.1 h
    obtain ⟨opener, inner, closer, marked, rfl, hopener, hinner, rfl⟩ := marker_eq_ok_iff.1 hmarker
    exact (ih _ h).cons fun name parts hname =>
      ⟨_, hname.block hopener hinner, append_join ..⟩
  | case4 => cases h
  | case5 p pending start c cs q' hcomment hpending hcolon hne =>
    obtain ⟨htext, h⟩ := Prod.mk.inj (Except.ok.inj h)
    obtain ⟨hq, rfl⟩ := Prod.mk.inj h
    subst htext
    obtain rfl := Bool.eq_false_iff.2 hpending
    refine ⟨[], c, [], rfl, hcolon, .name .nil, String.append_empty.symm, ?_, hq.symm⟩
    exact fun hempty => hne (String.isEmpty_iff.2 hempty)
  | case6 p pending start c cs q' hcomment hpending blanks htoken ih =>
    obtain rfl := Bool.eq_false_iff.2 hpending
    exact (ih h).cons fun name parts hname =>
      ⟨parts, hname.space (isWhitespace_of_token htoken), rfl⟩
  | case7 p pending start c cs q' hcomment hpending part htoken ih =>
    obtain rfl := Bool.eq_false_iff.2 hpending
    exact (ih h).cons fun name parts hname => ⟨part :: parts, hname.word htoken, append_join ..⟩
  | case8 p pending start c cs q' hcomment hpending htoken ih =>
    obtain rfl := Bool.eq_false_iff.2 hpending
    exact (ih h).cons fun name parts hname => ⟨parts, hname.hash htoken, rfl⟩
  | case9 => cases h

/-- A name is read exactly if its components spell parts that are not all empty, and a colon
follows. -/
theorem property_eq_ok_iff :
    property p false "" cs = .ok (text, q, rest) ↔
      ∃ name colon parts, cs = name ++ colon :: rest ∧ colon.token = .colon ∧
        Spells name parts ∧ text = String.join parts ∧ text ≠ "" ∧
        q = after p (name ++ [colon]) := by
  constructor
  · intro h
    obtain ⟨name, colon, parts, hcs, hcolon, hname, htext, hne, hq⟩ := isNamed_of_property h
    rw [String.empty_append] at htext
    cases hname with
    | name hname => exact ⟨name, colon, parts, hcs, hcolon, hname, htext, hne, hq⟩
  · rintro ⟨name, colon, parts, rfl, hcolon, hname, rfl, hne, rfl⟩
    have hempty : ¬(String.join parts).isEmpty = true :=
      fun hempty => hne (String.isEmpty_iff.1 hempty)
    rw [property_append hname, property_of_colon hcolon, String.empty_append, if_neg hempty,
      after_append]
    rfl

/-! ## Blanks in names -/

section Blanks

variable {name blanks : List Component} {parts : List String}

theorem spells_blanks (h : ∀ x ∈ blanks, x.isBlank = true) : Spells blanks [] := by
  induction blanks with
  | nil => exact .nil
  | cons x blanks ih =>
    obtain ⟨hx, hblanks⟩ := List.forall_mem_cons.1 h
    exact .blank hx (ih hblanks)

theorem property_blanks (hblanks : ∀ x ∈ blanks, x.isBlank = true) (p : Position)
    (rest : List Component) :
    property p false "" (blanks ++ rest) = property (after p blanks) false "" rest :=
  property_append (spells_blanks hblanks) p "" rest

theorem NamePart.exists_first {part : List Component} (h : NamePart part text) :
    ∃ first rest, part = first :: rest ∧ first.isBlank = false ∧ first.token ≠ .delim '$' := by
  cases h with
  | word h => exact ⟨_, _, rfl, isBlank_of_token h, by simp [h]⟩
  | marker h => exact ⟨_, _, rfl, isBlank_of_token h, by simp [h]⟩

/-- After its blanks, a name followed by `c` starts with one of its parts or with `c`, not with a
`$`. -/
theorem Spells.first (h : Spells name parts) (hc : c.isBlank = false)
    (hdollar : c.token ≠ .delim '$') (rest : List Component) :
    ∃ blanks first tail, name ++ c :: rest = blanks ++ first :: tail ∧
      (∀ x ∈ blanks, x.isBlank = true) ∧ first.isBlank = false ∧ first.token ≠ .delim '$' := by
  induction h with
  | nil => exact ⟨[], c, rest, rfl, by simp, hc, hdollar⟩
  | @blank x cs parts hx hrest ih =>
    obtain ⟨blanks, first, tail, htail, hblanks, hfirst⟩ := ih
    refine ⟨x :: blanks, first, tail, ?_, List.forall_mem_cons.2 ⟨hx, hblanks⟩, hfirst⟩
    rw [List.cons_append, htail, List.cons_append]
  | part h hrest =>
    obtain ⟨first, tail, rfl, hfirst⟩ := h.exists_first
    exact ⟨[], first, _, rfl, by simp, hfirst⟩

theorem Spells.append {name' : List Component} {parts' : List String} (h : Spells name parts)
    (h' : Spells name' parts') : Spells (name ++ name') (parts ++ parts') := by
  induction h with
  | nil => exact h'
  | blank hc hrest ih => exact .blank hc ih
  | part h hrest ih =>
    rw [List.append_assoc]
    exact .part h ih

theorem Spells.eq_nil_iff (h : Spells name parts) :
    parts = [] ↔ ∀ x ∈ name, x.isBlank = true := by
  induction h with
  | nil => simp
  | blank hc hrest ih => rw [ih, List.forall_mem_cons, and_iff_right hc]
  | part h hrest =>
    obtain ⟨first, tail, rfl, hfirst, -⟩ := h.exists_first
    simp [hfirst]

end Blanks

/-! ## Whitespace in names -/

section Whitespace

variable {name : List Component} {parts : List String}

theorem NamePart.isWhitespace_eq_false {part : List Component} (h : NamePart part text) :
    ∀ x ∈ part, x.isWhitespace = false := by
  cases h with
  | word h => exact List.forall_mem_singleton.2 (isWhitespace_of_token h)
  | @marker hash comments inner opener closer name hhash hcomments hopener hinner =>
    have htoken : (Component.block opener inner closer).token = .opening .curly := hopener
    refine List.forall_mem_cons.2 ⟨isWhitespace_of_token hhash, List.forall_mem_append.2 ⟨?_, ?_⟩⟩
    · exact fun x hx => isWhitespace_of_isComment (hcomments x hx)
    · exact List.forall_mem_singleton.2 (isWhitespace_of_token htoken)

/-- The parts of the name follow one another without whitespace: it stands only before the first
and after the last. -/
def Contiguous (name : List Component) (parts : List String) : Prop :=
  ∃ lead core trail, name = lead ++ (core ++ trail) ∧ (∀ x ∈ lead, x.isBlank = true) ∧
    (∀ x ∈ core, x.isWhitespace = false) ∧ Spells core parts ∧ ∀ x ∈ trail, x.isBlank = true

/-- Whitespace stands between two parts of the name. -/
def Separated (name : List Component) : Prop :=
  ∃ left space right parts parts', name = left ++ space :: right ∧ space.isWhitespace = true ∧
    Spells left parts ∧ parts ≠ [] ∧ Spells right parts' ∧ parts' ≠ []

theorem Separated.append_left {left : List Component} {parts : List String}
    (hleft : Spells left parts) (h : Separated name) : Separated (left ++ name) := by
  obtain ⟨left', space, right, parts', parts'', rfl, hspace, hleft', hne, hright⟩ := h
  refine ⟨left ++ left', space, right, parts ++ parts', parts'', ?_, hspace, hleft.append hleft',
    List.append_ne_nil_of_right_ne_nil _ hne, hright⟩
  rw [List.append_assoc]

theorem NamePart.spells {part : List Component} (h : NamePart part text) : Spells part [text] := by
  have hpart := Spells.part h .nil
  rwa [List.append_nil] at hpart

/-- A part in front of contiguous parts is contiguous with them or separated from them. -/
theorem Contiguous.append_part {part : List Component} (hpart : NamePart part text)
    (h : Contiguous name parts) :
    Contiguous (part ++ name) (text :: parts) ∨ Separated (part ++ name) := by
  obtain ⟨lead, core, trail, rfl, hlead, hcore, hspells, htrail⟩ := h
  by_cases hspace : ∀ x ∈ lead, x.isWhitespace = false
  · -- Only comments stand in between.
    refine .inl ⟨[], part ++ (lead ++ core), trail, ?_, by simp, ?_, ?_, htrail⟩
    · rw [List.nil_append, List.append_assoc, List.append_assoc]
    · exact List.forall_mem_append.2
        ⟨hpart.isWhitespace_eq_false, List.forall_mem_append.2 ⟨hspace, hcore⟩⟩
    · exact .part hpart ((spells_blanks hlead).append hspells)
  · by_cases hparts : parts = []
    · -- Nothing but blanks follows the part.
      have hblank := hspells.eq_nil_iff.1 hparts
      subst hparts
      refine .inl ⟨[], part, lead ++ (core ++ trail), rfl, by simp, hpart.isWhitespace_eq_false,
        hpart.spells, ?_⟩
      exact List.forall_mem_append.2 ⟨hlead, List.forall_mem_append.2 ⟨hblank, htrail⟩⟩
    · -- Whitespace stands between the part and the next one.
      simp only [Classical.not_forall, Bool.not_eq_false] at hspace
      obtain ⟨x, hx, hspace⟩ := hspace
      obtain ⟨before, rest, rfl⟩ := List.append_of_mem hx
      obtain ⟨hbefore, hrest⟩ := List.forall_mem_append.1 hlead
      have hright := (spells_blanks (List.forall_mem_cons.1 hrest).2).append
        (hspells.append (spells_blanks htrail))
      refine .inr ⟨part ++ before, x, rest ++ (core ++ trail), [text] ++ [], [] ++ (parts ++ []),
        ?_, hspace, hpart.spells.append (spells_blanks hbefore), by simp, hright,
        by simpa using hparts⟩
      simp only [List.append_assoc, List.cons_append]

theorem Spells.contiguous_or_separated (h : Spells name parts) :
    Contiguous name parts ∨ Separated name := by
  induction h with
  | nil => exact .inl ⟨[], [], [], rfl, by simp, by simp, .nil, by simp⟩
  | @blank c cs parts hc hrest ih =>
    rcases ih with ⟨lead, core, trail, rfl, hlead, hcore⟩ | h
    · exact .inl ⟨c :: lead, core, trail, rfl, List.forall_mem_cons.2 ⟨hc, hlead⟩, hcore⟩
    · exact .inr (h.append_left (.blank hc .nil))
  | part hpart hrest ih =>
    rcases ih with h | h
    · exact h.append_part hpart
    · exact .inr (h.append_left hpart.spells)

theorem Contiguous.not_separated (h : Contiguous name parts) : ¬Separated name := by
  obtain ⟨lead, core, trail, rfl, hlead, hcore, -, htrail⟩ := h
  rintro ⟨left, space, right, parts₁, parts₂, hname, hspace, hleft, hne₁, hright, hne₂⟩
  -- The whitespace stands in one of the three stretches: a part is missing to the left of one in
  -- the first, or to the right of one in the last, and the second has none.
  rcases List.append_eq_append_iff.1 hname with ⟨mid, rfl, hmid⟩ | ⟨mid, rfl, hmid⟩
  · have hright_blank : (∀ x ∈ right, x.isBlank = true) → False :=
      fun hblank => hne₂ (hright.eq_nil_iff.2 hblank)
    rcases List.append_eq_append_iff.1 hmid with ⟨mid', rfl, rfl⟩ | ⟨mid', rfl, hmid'⟩
    · exact hright_blank fun x hx => htrail x (by simp [hx])
    · cases mid' with
      | nil =>
        obtain rfl : space :: right = trail := hmid'
        exact hright_blank fun x hx => htrail x (List.mem_cons_of_mem _ hx)
      | cons c mid' =>
        obtain ⟨rfl, -⟩ := List.cons.inj hmid'
        rw [hcore space (by simp)] at hspace
        cases hspace
  · exact hne₁ (hleft.eq_nil_iff.2 fun x hx => hlead x (List.mem_append_left _ hx))

theorem Spells.contiguous_iff (h : Spells name parts) : Contiguous name parts ↔ ¬Separated name :=
  ⟨Contiguous.not_separated, h.contiguous_or_separated.resolve_right⟩

end Whitespace

end Component

end Scss
