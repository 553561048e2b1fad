import Mathlib
import Scss.Proofs.Readings
import Scss.Proofs.TokenBoundary

/-!
# Comments in values

A comment between two tokens of a value never decides whether the value can be read.  It decides
what is read only for a number right after it: the text of the number is not looked at then, so the
number is the one that its token holds in single precision, and a sign of the number is not taken
for an operator after an operand.

## Main definitions

* `Draft.Follows`: a draft that has read what stands before a place
* `Value.CommentUnnoticed`: no number stands where a comment would be noticed

## Main results

* `Component.Inserted.agree_readAll`: components with one more comment are read alike
* `Value.read_comment`: what a comment between two tokens changes
* `Value.comment_hides_sign`: a sum that a comment turns into two numbers
-/

namespace Scss

namespace Draft

variable {d e : Draft} {l : Lexeme} {p : Position} {glued : Bool} {left : Left}

/-! ## What a draft has read last -/

/-- The draft has read what stands before a place: it knows whether a name has to come and whether a
comment stands there, and no operand is joined with a sign at the place unless one stands there. -/
structure Follows (d : Draft) (left : Left) : Prop where
  name : d.awaiting = .name ↔ left.awaitsName = true
  comment : ∀ b, left = .comment b → d.commented = true
  other : left = .other → d.awaiting = .term → d.spaced = true ∨ d.endsInOperand = false

theorem follows_start (allowsFlags : Bool) : (start allowsFlags).Follows .other where
  name := by simp [start, Left.awaitsName]
  comment := by simp
  other := fun _ _ => .inl rfl

/-- After a term there is no comment, and an operand only if the term is one. -/
theorem Adds.follows (h : d.Adds e) (hleft : left = .operand ∨ left = .other)
    (hother : left = .other → e.endsInOperand = false) : e.Follows left where
  name := by rcases hleft with rfl | rfl <;> simp [h.awaiting, Left.awaitsName]
  comment := by rcases hleft with rfl | rfl <;> simp
  other := fun hleft _ => .inr (hother hleft)

theorem follows_operand (h : d.Adds e) : e.Follows .operand :=
  h.follows (.inl rfl) (by simp)

theorem follows_other (h : d.Adds e) (he : e.endsInOperand = false) : e.Follows .other :=
  h.follows (.inr rfl) fun _ => he

theorem endsInOperand_push_operator (d : Draft) {o : Operator} (ho : o ≠ .rightParen) :
    (d.push [.operator o]).endsInOperand = false := by
  cases o with
  | rightParen => exact absurd rfl ho
  | _ => simp [push, endsInOperand]

theorem endsInOperand_pushWord (d : Draft) (joins : String → Bool) (text : String) :
    (d.pushWord joins text).endsInOperand = false := by
  unfold pushWord
  split
  · split <;> simp [push, endsInOperand]
  · simp [push, endsInOperand]

theorem endsInOperand_pushHash (d : Draft) (text : String) :
    (d.pushHash text).endsInOperand = false := by
  unfold pushHash
  split <;> simp [push, endsInOperand]

theorem follows_readDelim {c : Char} (hd : d.Plain) (ht : l.token = .delim c)
    (h : d.readTerm p glued l = .ok e) : e.Follows (left.next l.token) := by
  by_cases hc : c ∈ ['+', '*', '/', '-', '$', '#', '!']
  · rw [readTerm, ht] at h
    rw [ht]
    simp only [List.mem_cons, List.not_mem_nil, or_false] at hc
    rcases hc with rfl | rfl | rfl | rfl | rfl | rfl | rfl
    · cases h
      exact follows_other (adds_push ..) (endsInOperand_push_operator d (by simp))
    · cases h
      exact follows_other (adds_push ..) (endsInOperand_push_operator d (by simp))
    · cases h
      exact follows_other (adds_push ..) (endsInOperand_push_operator d (by simp))
    · cases h
      apply follows_other (adds_push ..)
      apply endsInOperand_push_operator
      split <;> simp
    · -- The name of a variable has to come.
      cases h
      exact ⟨by simp [await, Left.next, Left.awaitsName], by simp [Left.next], by simp [Left.next]⟩
    · cases h
      exact ⟨by simp [await, Left.next, Left.awaitsName], by simp [Left.next], by simp [await]⟩
    · simp only [hd.allowsFlags] at h
      cases h
  · rw [readTerm_delim_of_notMem ht hc] at h
    cases h

theorem follows_readTerm (hd : d.Plain) (h : d.readTerm p glued l = .ok e) :
    e.Follows (left.next l.token) := by
  cases ht : l.token with
  | delim c =>
    rw [← ht]
    exact follows_readDelim hd ht h
  | number | percentage | dimension =>
    rw [readTerm, ht] at h
    cases h
    exact follows_operand (adds_pushNumber ..)
  | ident text =>
    rw [readTerm, ht] at h
    cases h
    refine (adds_pushWord ..).follows ?_ fun _ => endsInOperand_pushWord ..
    rw [Left.next]
    split <;> simp
  | quotedString | unquotedUrl | comma =>
    rw [readTerm, ht] at h
    cases h
    exact follows_other (adds_push ..) (by simp [push, endsInOperand])
  | hash text | idHash text =>
    rw [readTerm, ht] at h
    cases h
    exact follows_other (adds_pushHash ..) (endsInOperand_pushHash ..)
  | _ =>
    rw [readTerm, ht] at h
    cases h

theorem Follows.readLeaf (hleft : d.Follows left) (hd : d.Plain)
    (h : d.readLeaf p glued l = .ok e) : e.Follows (left.next l.token) := by
  cases hcomment : l.token.isComment with
  | true =>
    -- A comment changes nothing about the name that may have to come.
    obtain ⟨text, ht⟩ := Token.eq_comment_of_isComment hcomment
    rw [readLeaf_of_isComment hcomment] at h
    cases h
    rw [ht]
    exact ⟨hleft.name, fun _ _ => rfl, by simp [Left.next]⟩
  | false =>
    cases hawaiting : d.awaiting with
    | flag q => exact absurd hawaiting (hd.awaiting q)
    | term =>
      cases hspace : l.token.isWhitespace with
      | true =>
        obtain ⟨text, ht⟩ := Token.eq_whitespace_of_isWhitespace hspace
        rw [readLeaf_of_isWhitespace hawaiting hspace] at h
        cases h
        rw [ht]
        exact ⟨by simp [hawaiting, Left.next, Left.awaitsName], by simp [Left.next],
          fun _ _ => .inl rfl⟩
      | false =>
        rw [readLeaf_of_term hawaiting hcomment hspace] at h
        exact follows_readTerm hd h
    | name =>
      rw [readLeaf_of_name hawaiting hcomment] at h
      split at h
      · -- The draft waits for a name, so a `$` stands before this one.
        rename_i name ht
        cases h
        rw [ht, Left.next, if_pos (hleft.name.1 hawaiting)]
        exact follows_operand (adds_push ..)
      · cases h
    | marker =>
      rw [readLeaf_of_marker hawaiting hcomment] at h
      cases h

theorem follows_readBlock {opener : Lexeme} {inner : List Component} {closer : Option Lexeme}
    (hd : d.Plain) (h : readComponent d p glued (.block opener inner closer) = .ok e) :
    e.Follows (left.after (.block opener inner closer)) := by
  rw [readComponent] at h
  rw [Left.after]
  cases hawaiting : d.awaiting with
  | flag q => exact absurd hawaiting (hd.awaiting q)
  | name =>
    rw [hawaiting] at h
    cases h
  | term =>
    rw [hawaiting] at h
    cases ht : opener.token with
    | function name =>
      rw [ht] at h
      obtain ⟨content, -, heq⟩ := bind_eq_ok_iff.1 h
      cases heq
      exact follows_operand (adds_push ..)
    | opening bracket =>
      cases bracket with
      | round =>
        rw [ht] at h
        obtain ⟨content, -, heq⟩ := bind_eq_ok_iff.1 h
        cases heq
        exact follows_operand (adds_push ..)
      | _ =>
        rw [ht] at h
        cases h
    | _ =>
      rw [ht] at h
      cases h
  | marker =>
    rw [hawaiting] at h
    obtain ⟨text, htext, heq⟩ := bind_eq_ok_iff.1 h
    cases heq
    rw [Component.marker] at htext
    split at htext
    · rename_i hcurly
      rw [hcurly]
      exact follows_other (adds_pushWord ..) (endsInOperand_pushWord ..)
    · cases htext

/-- The draft goes on to know what stands before. -/
theorem Follows.readComponent {c : Component} (hleft : d.Follows left) (hd : d.Plain)
    (h : d.readComponent p glued c = .ok e) : e.Follows (left.after c) := by
  cases c with
  | leaf l =>
    rw [Draft.readComponent] at h
    exact hleft.readLeaf hd h
  | block opener inner closer => exact follows_readBlock hd h

/-- A draft without flags stays one. -/
theorem Plain.readComponent {c : Component} (hd : d.Plain)
    (h : d.readComponent p glued c = .ok e) : e.Plain := by
  have hself : AgreeOnCause (Alike False) (d.readComponent p glued c)
      (d.readComponent p glued c) :=
    agree_readComponent d d p p glued c (hd.near d.commented) False.elim
  rw [h] at hself
  cases hself with
  | ok halike => exact halike.plain

/-! ## Numbers after a comment -/

/-- After a comment, the text of a number and the term before it are not looked at. -/
theorem pushNumber_of_commented (h : d.commented = true) (source : List Char) (n : Numeral)
    (unit : String) (single : Float32) :
    d.pushNumber source n unit single = d.push [.measure (Single.widen single) unit] := by
  simp [pushNumber, h]

/-- A number that joins no operand and whose text names what its token holds is read as after a
comment. -/
theorem pushNumber_of_indifferent {source : List Char} {n : Numeral} {unit : String}
    {single : Float32} (hsign : n.sign.isSome = true → d.spaced = true ∨ d.endsInOperand = false)
    (hexact : source = n.text ++ unit.toList → n.exact = Single.widen single) :
    d.pushNumber source n unit single = d.push [.measure (Single.widen single) unit] := by
  have hvalue : (if !d.commented && source == n.text ++ unit.toList then n.exact
      else Single.widen single) = Single.widen single := by
    split
    · rename_i h
      exact hexact (beq_iff_eq.1 (Bool.and_eq_true_iff.1 h).2)
    · rfl
  have hjoined : (n.sign.isSome && !d.commented && !d.spaced && d.endsInOperand) = false := by
    cases hsome : n.sign.isSome with
    | false => rfl
    | true => rcases hsign hsome with h | h <;> simp [h]
  simp only [pushNumber, hvalue, hjoined]
  rfl

theorem Follows.sameNumber (hleft : d.Follows left) (hawaiting : d.awaiting = .term)
    (hl : l.Indifferent left) : d.SameNumber { d with commented := true } l := by
  intro n unit single hn
  by_cases hcomment : ∃ b, left = .comment b
  · -- A comment stands there already.
    obtain ⟨b, hb⟩ := hcomment
    rw [← hleft.comment b hb]
  · obtain ⟨hoperand, hexact⟩ := hl (by simpa using hcomment) n unit single hn
    have hsign : n.sign.isSome = true → d.spaced = true ∨ d.endsInOperand = false := by
      intro hsome
      cases hleft' : left with
      | comment b => exact absurd ⟨b, hleft'⟩ hcomment
      | dollar =>
        have hname := hleft.name.2 (by rw [hleft', Left.awaitsName])
        rw [hawaiting] at hname
        cases hname
      | operand =>
        rw [hoperand hleft'] at hsome
        cases hsome
      | other => exact hleft.other hleft' hawaiting
    rw [pushNumber_of_indifferent hsign hexact, pushNumber_of_commented rfl]
    rfl

end Draft

/-! ## Components with one more comment -/

namespace Component.Inserted

variable {unnoticed : Prop} {left : Left} {cs cs' : List Component}

/-- A comment changes no other token. -/
theorem tokens_eq (h : Inserted unnoticed left cs cs') : tokens cs' = tokens cs := by
  induction h with
  | @here left comment after hcomment =>
    have hleaf : (Component.leaf comment).isComment = true := hcomment
    exact tokens_cons_of_isComment hleaf after
  | later c h ih =>
    cases hc : c.isComment with
    | true => rw [tokens_cons_of_isComment hc, tokens_cons_of_isComment hc, ih]
    | false => rw [tokens_cons hc, tokens_cons hc, ih]
  | inside opener closer after h =>
    simp only [tokens, List.filter_cons, isComment, token]
    split <;> rfl

/-- Components with one more comment are read alike. -/
theorem agree_readAll (h : Inserted unnoticed left cs cs') {d : Draft} (hd : d.Plain)
    (hleft : d.Follows left) (p : Position) :
    AgreeOnCause (Draft.Near unnoticed) (d.readAll p cs) (d.readAll p cs') := by
  -- Up to the comment both readings are one.  From there on, two drafts read the same components.
  induction h generalizing d p with
  | @here left comment after hcomment hnext =>
    have hread : Draft.readAll d p (.leaf comment :: after) =
        Draft.readAll { d with commented := true } (p.advance comment.source) after := by
      rw [Draft.readAll, Draft.readComponent, Draft.readLeaf_of_isComment hcomment]
      rfl
    rw [hread]
    apply Draft.agree_readAll _ _ _ _ after (hd.near true)
    intro hu hawaiting l hl
    exact hleft.sameNumber hawaiting (hnext hu l hl)
  | @later left c after after' h ih =>
    have hglued : Draft.isGlued after' = Draft.isGlued after := by
      rw [isGlued_eq, isGlued_eq, h.tokens_eq]
    rw [Draft.readAll, Draft.readAll, hglued]
    cases hc : d.readComponent p (Draft.isGlued after) c with
    | error e => exact .error rfl
    | ok e => exact ih (hd.readComponent hc) (hleft.readComponent hd hc) _
  | @inside left opener inner inner' closer after h ih =>
    have hinner := ih Draft.plain_start (Draft.follows_start false) (p.advance opener.source)
    rw [Draft.readAll, Draft.readAll]
    apply (Draft.agree_readBlock (hd.near d.commented) hinner h.tokens_eq).bind
    intro e e' _ _ he
    exact Draft.agree_readAll _ _ _ _ after he.near fun hu _ l _ => he.sameNumber hu l

end Component.Inserted

namespace Value

/-- A comment between the texts goes unnoticed by the first lexeme of the second text.

This is enough for the values to be equal, but not needed: the parenthesis that closes a call of
`rgb` or `rgba` counts as an operand here, although a sign after the colour it may be folded to
joins nothing, and two numbers inside such a call may give the same colour. -/
def CommentUnnoticed (u v : String) : Prop :=
  ∀ l ∈ (Lexeme.readAll v.toList).head?,
    l.Indifferent (Left.afterAll .other (Lexeme.readAll u.toList))

/-- A comment between two tokens of a text is one among its components. -/
theorem inserted_read {u v : String} (h : Lexeme.Boundary u.toList v.toList) :
    Component.Inserted (CommentUnnoticed u v) .other (Component.read (u ++ v))
      (Component.read (u ++ "/**/" ++ v)) := by
  have htext : (u ++ "/**/" ++ v).toList =
      u.toList ++ (Lexeme.emptyComment.source ++ v.toList) := by
    rw [String.toList_append, String.toList_append, List.append_assoc]
    rfl
  rw [Component.read, Component.read, String.toList_append, h.tokens, htext, h.readAll_comment]
  exact Component.inserted_ofLexemes rfl _ _ id

theorem agree_read_comment {u v : String} (h : Lexeme.Boundary u.toList v.toList) :
    AgreeOnCause (fun w w' => CommentUnnoticed u v → w' = w) (Value.read (u ++ v))
      (Value.read (u ++ "/**/" ++ v)) := by
  have hread := (inserted_read h).agree_readAll Draft.plain_start (Draft.follows_start false) .start
  apply hread.bind
  intro d d' _ _ hd
  refine .ok fun hu => ?_
  obtain ⟨b, rfl⟩ := hd.same hu
  rfl

/-- **What a comment changes.**  A comment between two tokens of a value changes neither whether it
can be read nor why it cannot.  It changes what is read only if it stands right before a number,
without another comment, and the number has a sign right after an operand or its text names a number
that single precision cannot hold; even then it may not (`CommentUnnoticed`). -/
theorem read_comment (u v : String) (h : Lexeme.Boundary u.toList v.toList) :
    (∀ e, Value.read (u ++ v) = .error e →
      ∃ e', Value.read (u ++ "/**/" ++ v) = .error e' ∧ e'.cause = e.cause) ∧
    (∀ w, Value.read (u ++ v) = .ok w →
      ∃ w', Value.read (u ++ "/**/" ++ v) = .ok w' ∧ (CommentUnnoticed u v → w' = w)) := by
  have hagree := agree_read_comment h
  generalize Value.read (u ++ "/**/" ++ v) = y at hagree ⊢
  constructor
  · intro e he
    rw [he] at hagree
    cases hagree with
    | error hcause => exact ⟨_, rfl, hcause.symm⟩
    | left h => cases h
    | right h => cases h
  · intro w hw
    rw [hw] at hagree
    cases hagree with
    | ok hsame => exact ⟨_, rfl, hsame⟩
    | right h => cases h

/-- A comment between a sign and a number in a call, and one before a bracket that nothing opens. -/
theorem read_comment_call :
    Lexeme.Boundary "f($a *".toList "2px)".toList ∧ CommentUnnoticed "f($a *" "2px)" ∧
    Value.read ("f($a *" ++ "/**/" ++ "2px)") =
      .ok [.call "f" [.variable "a", .operator .mul, .dimension 2 "px"]] ∧
    ∃ e, Value.read ("1px" ++ "/**/" ++ "]") = .error e ∧
      e.cause = .unexpected (.closing .square) := by
  have hboundary : Lexeme.Boundary "f($a *".toList "2px)".toList := ⟨by cbv, by cbv⟩
  have hfirst : Lexeme.readAll "2px)".toList =
      [⟨.dimension ⟨none, ['2'], [], none⟩ "px", ['2', 'p', 'x']⟩, ⟨.closing .round, [')']⟩] := by
    cbv
  have htwo : (⟨none, ['2'], [], none⟩ : Numeral).exact = 2 := by decide +kernel
  have hsingle : Single.widen (Single.ofDouble
      (⟨none, ['2'], [], none⟩ : Numeral).approximate) = 2 := by
    decide +kernel
  have hunnoticed : CommentUnnoticed "f($a *" "2px)" := by
    intro l hl _ n unit single hn
    rw [hfirst] at hl
    cases hl
    cases hn
    exact ⟨fun _ => rfl, fun _ => htwo.trans hsingle.symm⟩
  have hcall : Component.read ("f($a *" ++ "2px)") =
      [.block ⟨.function "f", ['f', '(']⟩
        [.leaf ⟨.delim '$', ['$']⟩, .leaf ⟨.ident "a", ['a']⟩, .leaf ⟨.whitespace " ", [' ']⟩,
          .leaf ⟨.delim '*', ['*']⟩,
          .leaf ⟨.dimension ⟨none, ['2'], [], none⟩ "px", ['2', 'p', 'x']⟩]
        (some ⟨.closing .round, [')']⟩)] := by
    cbv
  have hread : Value.read ("f($a *" ++ "2px)") =
      .ok [.call "f" [.variable "a", .operator .mul, .dimension 2 "px"]] := by
    rw [Value.read, hcall, ← htwo]
    rfl
  have hstray : Lexeme.Boundary "1px".toList "]".toList := ⟨by cbv, by cbv⟩
  have hbracket : Component.read ("1px" ++ "]") =
      [.leaf ⟨.dimension ⟨none, ['1'], [], none⟩ "px", ['1', 'p', 'x']⟩,
        .leaf ⟨.closing .square, [']']⟩] := by
    cbv
  have hrefused : Value.read ("1px" ++ "]") = .error ⟨⟨0, 5⟩, .unexpected (.closing .square)⟩ := by
    rw [Value.read, hbracket]
    rfl
  obtain ⟨w, hw, hsame⟩ := (read_comment "f($a *" "2px)" hboundary).2 _ hread
  exact ⟨hboundary, hunnoticed, by rw [hw, hsame hunnoticed],
    (read_comment "1px" "]" hstray).1 _ hrefused⟩

/-- A sum of two lengths is read as two lengths, if a comment stands before its sign. -/
theorem comment_hides_sign :
    Lexeme.Boundary "1px".toList "+2px".toList ∧
    Value.read ("1px" ++ "+2px") = .ok [.dimension 1 "px", .operator .add, .dimension 2 "px"] ∧
    Value.read ("1px" ++ "/**/" ++ "+2px") = .ok [.dimension 1 "px", .dimension 2 "px"] := by
  have hplain : Component.read ("1px" ++ "+2px") =
      [.leaf ⟨.dimension ⟨none, ['1'], [], none⟩ "px", ['1', 'p', 'x']⟩,
        .leaf ⟨.dimension ⟨some '+', ['2'], [], none⟩ "px", ['+', '2', 'p', 'x']⟩] := by
    cbv
  have hcommented : Component.read ("1px" ++ "/**/" ++ "+2px") =
      [.leaf ⟨.dimension ⟨none, ['1'], [], none⟩ "px", ['1', 'p', 'x']⟩, .leaf Lexeme.emptyComment,
        .leaf ⟨.dimension ⟨some '+', ['2'], [], none⟩ "px", ['+', '2', 'p', 'x']⟩] := by
    cbv
  have hone : (⟨none, ['1'], [], none⟩ : Numeral).exact = 1 := by decide +kernel
  have htwo : (⟨some '+', ['2'], [], none⟩ : Numeral).exact.abs = 2 := by decide +kernel
  have hsingle : Single.widen (Single.ofDouble
      (⟨some '+', ['2'], [], none⟩ : Numeral).approximate) = 2 := by
    decide +kernel
  refine ⟨⟨by cbv, by cbv⟩, ?_, ?_⟩
  · rw [Value.read, hplain, ← hone, ← htwo]
    rfl
  · rw [Value.read, hcommented, ← hone, ← hsingle]
    simp only [Draft.readAll, Draft.readComponent, Draft.readLeaf, Draft.readTerm,
      Lexeme.emptyComment, Draft.start, bind, Except.bind, Draft.pushNumber_of_commented]
    rfl

end Value

end Scss
