import Scss.Proofs.Insertion
import Scss.Result
import Scss.Value.Read

/-!
# Two readings of the same components

What a draft does with a component depends on the component's tokens and on what the draft waits
for.  The position only shows in the errors, the terms so far only in the terms that are added, and
a comment that was read last only in numbers.  So two drafts that wait for the same read the same
components to the same end: both fail, for the same cause, or both go on and wait for the same
again.  If in addition nothing but a comment tells them apart, and no number comes next that would
notice it, they read the same terms.

Both are proved together: `unnoticed` stands for the condition under which the terms are the same.

## Main definitions

* `AgreeOnCause`: two readings with related results, or with the same cause of failure
* `Component.tokens`: the tokens of components, without comments
* `Draft.Near`, `Draft.Alike`: two drafts before and after a component

## Main results

* `Component.agree_marker`: what a marker holds is read off its tokens
* `Draft.agree_readComponent`, `Draft.agree_readAll`: drafts that are alike read alike
-/

namespace Scss

/-- The results of two readings agree, wherever a failure is reported. -/
abbrev AgreeOnCause {α β : Type} (R : α → β → Prop) (x : Except SyntaxError α)
    (y : Except SyntaxError β) : Prop :=
  Agree (fun _ => False) (fun e e' : SyntaxError => e.cause = e'.cause) R x y

/-! ## Tokens and markers -/

namespace Component

variable {cs cs' : List Component} {p p' : Position}

/-- The tokens at the start of the components, without comments. -/
def tokens (cs : List Component) : List Token :=
  (cs.filter (!·.isComment)).map token

theorem tokens_cons_of_isComment {c : Component} (h : c.isComment = true) (rest : List Component) :
    tokens (c :: rest) = tokens rest := by
  simp [tokens, h]

theorem tokens_cons {c : Component} (h : c.isComment = false) (rest : List Component) :
    tokens (c :: rest) = c.token :: tokens rest := by
  simp [tokens, h]

/-- What is glued to a component is told by the tokens after it. -/
theorem isGlued_eq (cs : List Component) :
    Draft.isGlued cs = (tokens cs).head?.any (!·.isWhitespace) := by
  induction cs with
  | nil => rfl
  | cons c rest ih =>
    cases hc : c.isComment with
    | true =>
      rw [tokens_cons_of_isComment hc, ← ih, Draft.isGlued, Draft.isGlued,
        List.dropWhile_cons_of_pos hc]
    | false =>
      rw [tokens_cons hc, Draft.isGlued, List.dropWhile_cons_of_neg (by simp [hc])]
      rfl

/-- Two places among components with the same tokens: both are at the end, or the same token comes
next and the same tokens follow it. -/
inductive SameNext : Position × List Component → Position × List Component → Prop
  | nil (q q' : Position) : SameNext (q, []) (q', [])
  | cons (q q' : Position) {c c' : Component} {rest rest' : List Component}
      (hc : c'.token = c.token) (hrest : tokens rest' = tokens rest) :
      SameNext (q, c :: rest) (q', c' :: rest')

theorem sameNext_of_tokens (h : tokens cs' = tokens cs) (hcs : cs.head?.any isComment = false)
    (hcs' : cs'.head?.any isComment = false) : SameNext (p, cs) (p', cs') := by
  cases cs with
  | nil =>
    cases cs' with
    | nil => exact .nil p p'
    | cons c' rest' =>
      rw [tokens_cons (by simpa using hcs')] at h
      cases h
  | cons c rest =>
    rw [tokens_cons (by simpa using hcs)] at h
    cases cs' with
    | nil => cases h
    | cons c' rest' =>
      rw [tokens_cons (by simpa using hcs')] at h
      exact .cons p p' (List.cons.inj h).1 (List.cons.inj h).2

theorem skip_isComment (p : Position) (cs : List Component) :
    tokens (skip isComment p cs).2 = tokens cs ∧
      (skip isComment p cs).2.head?.any isComment = false := by
  fun_induction skip isComment p cs with
  | case1 => exact ⟨rfl, rfl⟩
  | case2 p c rest hc ih =>
    rw [tokens_cons_of_isComment hc]
    exact ih
  | case3 p c rest hc => exact ⟨rfl, by simpa using hc⟩

theorem skip_isBlank (p : Position) (cs : List Component) :
    tokens (skip isBlank p cs).2 = (tokens cs).dropWhile Token.isWhitespace ∧
      (skip isBlank p cs).2.head?.any isComment = false := by
  fun_induction skip isBlank p cs with
  | case1 => exact ⟨rfl, rfl⟩
  | case2 p c rest hc ih =>
    cases hcomment : c.isComment with
    | true =>
      rw [tokens_cons_of_isComment hcomment]
      exact ih
    | false =>
      have hspace : c.token.isWhitespace = true := by
        simpa [isBlank, isWhitespace, hcomment] using hc
      rw [tokens_cons hcomment, List.dropWhile_cons_of_pos hspace]
      exact ih
  | case3 p c rest hc =>
    obtain ⟨hspace, hcomment⟩ : c.token.isWhitespace = false ∧ c.isComment = false := by
      simpa [isBlank, isWhitespace] using hc
    rw [tokens_cons hcomment, List.dropWhile_cons_of_neg (by simp [hspace])]
    exact ⟨rfl, by simpa using hcomment⟩

theorem sameNext_skip_isComment (h : tokens cs' = tokens cs) (p p' : Position) :
    SameNext (skip isComment p cs) (skip isComment p' cs') := by
  apply sameNext_of_tokens
  · rw [(skip_isComment p cs).1, (skip_isComment p' cs').1, h]
  · exact (skip_isComment p cs).2
  · exact (skip_isComment p' cs').2

theorem sameNext_skip_isBlank (h : tokens cs' = tokens cs) (p p' : Position) :
    SameNext (skip isBlank p cs) (skip isBlank p' cs') := by
  apply sameNext_of_tokens
  · rw [(skip_isBlank p cs).1, (skip_isBlank p' cs').1, h]
  · exact (skip_isBlank p cs).2
  · exact (skip_isBlank p' cs').2

theorem agree_name (h : tokens cs' = tokens cs) (p p' : Position) :
    AgreeOnCause (fun r r' => r'.1 = r.1 ∧ tokens r'.2.2 = tokens r.2.2)
      (name p cs) (name p' cs') := by
  have hnext := sameNext_skip_isComment h p p'
  unfold name
  generalize skip isComment p cs = r at hnext ⊢
  generalize skip isComment p' cs' = r' at hnext ⊢
  cases hnext with
  | nil q q' => exact .error rfl
  | cons q q' hc hrest =>
    dsimp only
    rw [hc]
    split
    · exact .ok ⟨rfl, hrest⟩
    · exact .error (congrArg SyntaxError.Cause.unexpected hc.symm)

/-- What a marker holds is read off its tokens. -/
theorem agree_markerName (h : tokens cs' = tokens cs) (p p' : Position) :
    AgreeOnCause (fun text text' => text' = text) (markerName p cs) (markerName p' cs') := by
  have hnext := sameNext_skip_isBlank h p p'
  unfold markerName
  generalize skip isBlank p cs = r at hnext ⊢
  generalize skip isBlank p' cs' = r' at hnext ⊢
  cases hnext with
  | nil q q' => exact .error rfl
  | @cons q q' c c' rest rest' hc hrest =>
    dsimp only
    rw [hc]
    split
    · refine (agree_name hrest _ _).bind fun a a' _ _ ha => ?_
      obtain ⟨name, p₁, rest₁⟩ := a
      obtain ⟨name', p₁', rest₁'⟩ := a'
      obtain ⟨rfl, hrest₁⟩ : name' = name ∧ tokens rest₁' = tokens rest₁ := ha
      have hnext₁ := sameNext_skip_isBlank hrest₁ p₁ p₁'
      dsimp only
      generalize skip isBlank p₁ rest₁ = r at hnext₁ ⊢
      generalize skip isBlank p₁' rest₁' = r' at hnext₁ ⊢
      cases hnext₁ with
      | nil => exact .ok rfl
      | cons _ _ hc₁ => exact .error (congrArg SyntaxError.Cause.unexpected hc₁.symm)
    · exact .error (congrArg SyntaxError.Cause.unexpected hc.symm)

theorem agree_marker {opener : Lexeme} {closer : Option Lexeme} (h : tokens cs' = tokens cs)
    (p p' : Position) :
    AgreeOnCause (fun text text' => text' = text) (marker p (.block opener cs closer))
      (marker p' (.block opener cs' closer)) := by
  rw [marker, marker]
  split
  · exact (agree_markerName h _ _).map fun name name' hname => congrArg markerText hname
  · exact .error rfl

end Component

namespace Draft

/-! ## Drafts -/

/-- The draft is that of a value on its own, without flags. -/
structure Plain (d : Draft) : Prop where
  allowsFlags : d.allowsFlags = false
  awaiting : ∀ p, d.awaiting ≠ .flag p

/-- Two drafts of values that wait for the same. -/
structure Matches (d d' : Draft) : Prop where
  plain : d.Plain
  plain' : d'.Plain
  awaiting : d'.awaiting = d.awaiting

/-- Two drafts that wait for the same.  If `unnoticed` holds, they may only differ in whether a
comment was read last. -/
structure Near (unnoticed : Prop) (d d' : Draft) : Prop extends Matches d d' where
  same : unnoticed → ∃ b, d' = { d with commented := b }

/-- Two drafts that wait for the same and, if `unnoticed` holds, are the same. -/
structure Alike (unnoticed : Prop) (d d' : Draft) : Prop extends Matches d d' where
  same : unnoticed → d' = d

/-- Both drafts add the same number, if the lexeme is one. -/
def SameNumber (d d' : Draft) (l : Lexeme) : Prop :=
  ∀ n unit single, l.token.numeric? = some (n, unit, single) →
    d'.pushNumber l.source n unit single = d.pushNumber l.source n unit single

variable {unnoticed : Prop} {d d' e e' : Draft} {l : Lexeme} {p p' : Position} {glued : Bool}

theorem plain_start : (start false).Plain where
  allowsFlags := rfl
  awaiting := by
    intro p h
    cases h

theorem Plain.near (h : d.Plain) (b : Bool) : Near unnoticed d { d with commented := b } where
  plain := h
  plain' := ⟨h.allowsFlags, h.awaiting⟩
  awaiting := rfl
  same := fun _ => ⟨b, rfl⟩

theorem Alike.near (h : Alike unnoticed d d') : Near unnoticed d d' where
  toMatches := h.toMatches
  same := fun hu => ⟨d.commented, h.same hu⟩

theorem Alike.sameNumber (h : Alike unnoticed d d') (hu : unnoticed) (l : Lexeme) :
    d.SameNumber d' l := by
  intro n unit single _
  rw [h.same hu]

/-- The draft has been added to: the next term may come. -/
structure Adds (d e : Draft) : Prop where
  allowsFlags : e.allowsFlags = d.allowsFlags
  awaiting : e.awaiting = .term

theorem adds_push (d : Draft) (ts : Value) : d.Adds (d.push ts) := ⟨rfl, rfl⟩

theorem adds_pushNumber (d : Draft) (source : List Char) (n : Numeral) (unit : String)
    (single : Float32) : d.Adds (d.pushNumber source n unit single) := by
  unfold pushNumber
  dsimp only
  split <;> exact adds_push d _

theorem adds_pushWord (d : Draft) (joins : String → Bool) (text : String) :
    d.Adds (d.pushWord joins text) := by
  unfold pushWord
  split
  · split
    · exact ⟨rfl, rfl⟩
    · exact adds_push d _
  · exact adds_push d _

theorem adds_pushHash (d : Draft) (text : String) : d.Adds (d.pushHash text) := by
  unfold pushHash
  split <;> exact adds_push d _

theorem pushWord_commented (d : Draft) (b : Bool) (joins : String → Bool) (text : String) :
    ({ d with commented := b } : Draft).pushWord joins text = d.pushWord joins text := by
  unfold pushWord
  dsimp only
  split
  · split <;> rfl
  · rfl

theorem pushHash_commented (d : Draft) (b : Bool) (text : String) :
    ({ d with commented := b } : Draft).pushHash text = d.pushHash text := by
  unfold pushHash
  split <;> rfl

theorem Near.adds (h : Near unnoticed d d') (he : d.Adds e) (he' : d'.Adds e')
    (hsame : unnoticed → e' = e) : Alike unnoticed e e' where
  plain := ⟨by rw [he.allowsFlags, h.plain.allowsFlags], by simp [he.awaiting]⟩
  plain' := ⟨by rw [he'.allowsFlags, h.plain'.allowsFlags], by simp [he'.awaiting]⟩
  awaiting := by rw [he.awaiting, he'.awaiting]
  same := hsame

theorem Near.push (h : Near unnoticed d d') {ts ts' : Value} (hts : unnoticed → ts' = ts) :
    Alike unnoticed (d.push ts) (d'.push ts') := by
  refine h.adds (adds_push d ts) (adds_push d' ts') fun hu => ?_
  obtain ⟨b, rfl⟩ := h.same hu
  rw [hts hu]
  rfl

theorem Near.pushNumber (h : Near unnoticed d d') {n : Numeral} {unit : String} {single : Float32}
    (ht : l.token.numeric? = some (n, unit, single)) (hnumber : unnoticed → d.SameNumber d' l) :
    Alike unnoticed (d.pushNumber l.source n unit single)
      (d'.pushNumber l.source n unit single) :=
  h.adds (adds_pushNumber ..) (adds_pushNumber ..) fun hu => hnumber hu n unit single ht

theorem Near.pushWord (h : Near unnoticed d d') (joins : String → Bool) (text : String) :
    Alike unnoticed (d.pushWord joins text) (d'.pushWord joins text) := by
  refine h.adds (adds_pushWord ..) (adds_pushWord ..) fun hu => ?_
  obtain ⟨b, rfl⟩ := h.same hu
  exact pushWord_commented d b joins text

theorem Near.pushHash (h : Near unnoticed d d') (text : String) :
    Alike unnoticed (d.pushHash text) (d'.pushHash text) := by
  refine h.adds (adds_pushHash ..) (adds_pushHash ..) fun hu => ?_
  obtain ⟨b, rfl⟩ := h.same hu
  exact pushHash_commented d b text

theorem Near.await (h : Near unnoticed d d') {what : Awaiting} (hwhat : ∀ p, what ≠ .flag p) :
    Alike unnoticed (d.await what) (d'.await what) where
  plain := ⟨h.plain.allowsFlags, hwhat⟩
  plain' := ⟨h.plain'.allowsFlags, hwhat⟩
  awaiting := rfl
  same := by
    intro hu
    obtain ⟨b, rfl⟩ := h.same hu
    rfl

/-- Other marks start no term. -/
theorem readTerm_delim_of_notMem {c : Char} (ht : l.token = .delim c)
    (hc : c ∉ ['+', '*', '/', '-', '$', '#', '!']) :
    d.readTerm p glued l = .error ⟨p, .unexpected l.token⟩ := by
  unfold readTerm
  rw [ht]
  split <;> simp_all

theorem agree_readDelim (h : Near unnoticed d d') {c : Char} (ht : l.token = .delim c) :
    AgreeOnCause (Alike unnoticed) (d.readTerm p glued l) (d'.readTerm p' glued l) := by
  by_cases hc : c ∈ ['+', '*', '/', '-', '$', '#', '!']
  · unfold readTerm
    rw [ht]
    simp only [List.mem_cons, List.not_mem_nil, or_false] at hc
    rcases hc with rfl | rfl | rfl | rfl | rfl | rfl | rfl
    · exact .ok (h.push fun _ => rfl)
    · exact .ok (h.push fun _ => rfl)
    · exact .ok (h.push fun _ => rfl)
    · refine .ok (h.push fun hu => ?_)
      obtain ⟨b, rfl⟩ := h.same hu
      rfl
    · exact .ok (h.await nofun)
    · exact .ok (h.await nofun)
    · -- Without flags an exclamation mark cannot be read.
      simp only [h.plain.allowsFlags, h.plain'.allowsFlags]
      exact .error rfl
  · rw [readTerm_delim_of_notMem ht hc, readTerm_delim_of_notMem ht hc]
    exact .error rfl

/-- Both drafts read a token that starts a term, or neither does. -/
theorem agree_readTerm (h : Near unnoticed d d') (hnumber : unnoticed → d.SameNumber d' l) :
    AgreeOnCause (Alike unnoticed) (d.readTerm p glued l) (d'.readTerm p' glued l) := by
  -- Each kind of token adds its own terms; those that start no term are refused on both sides.
  cases ht : l.token with
  | delim c => exact agree_readDelim h ht
  | number n | dimension n unit | percentage n =>
    rw [readTerm, readTerm, ht]
    exact .ok (h.pushNumber (by rw [ht]; rfl) hnumber)
  | ident text =>
    rw [readTerm, readTerm, ht]
    exact .ok (h.pushWord _ text)
  | hash text | idHash text =>
    rw [readTerm, readTerm, ht]
    exact .ok (h.pushHash text)
  | quotedString | unquotedUrl | comma =>
    rw [readTerm, readTerm, ht]
    exact .ok (h.push fun _ => rfl)
  | _ =>
    rw [readTerm, readTerm, ht]
    exact .error rfl

/-- A comment is taken note of, whatever the draft waits for. -/
theorem readLeaf_of_isComment (hl : l.token.isComment = true) :
    d.readLeaf p glued l = .ok { d with commented := true } := by
  obtain ⟨text, ht⟩ := Token.eq_comment_of_isComment hl
  simp only [readLeaf, ht]

theorem readLeaf_of_isWhitespace (hd : d.awaiting = .term) (hl : l.token.isWhitespace = true) :
    d.readLeaf p glued l = .ok { d with spaced := true, commented := false } := by
  obtain ⟨text, ht⟩ := Token.eq_whitespace_of_isWhitespace hl
  simp only [readLeaf, hd, ht]

theorem readLeaf_of_term (hd : d.awaiting = .term) (hcomment : l.token.isComment = false)
    (hspace : l.token.isWhitespace = false) :
    d.readLeaf p glued l = d.readTerm (p.advance l.source) glued l := by
  cases ht : l.token with
  | comment =>
    rw [ht] at hcomment
    cases hcomment
  | whitespace =>
    rw [ht] at hspace
    cases hspace
  | _ => simp only [readLeaf, hd, ht]

theorem readLeaf_of_name (hd : d.awaiting = .name) (hcomment : l.token.isComment = false) :
    d.readLeaf p glued l =
      match l.token with
      | .ident name => .ok (d.push [.reference name])
      | token => .error ⟨p.advance l.source, .unexpected token⟩ := by
  cases ht : l.token with
  | comment =>
    rw [ht] at hcomment
    cases hcomment
  | _ => simp only [readLeaf, hd, ht]

theorem readLeaf_of_marker (hd : d.awaiting = .marker) (hcomment : l.token.isComment = false) :
    d.readLeaf p glued l = .error ⟨p.advance l.source, .unexpected l.token⟩ := by
  cases ht : l.token with
  | comment =>
    rw [ht] at hcomment
    cases hcomment
  | _ => simp only [readLeaf, hd, ht]

theorem agree_readLeaf (h : Near unnoticed d d')
    (hnumber : unnoticed → d.awaiting = .term → d.SameNumber d' l) :
    AgreeOnCause (Alike unnoticed) (d.readLeaf p glued l) (d'.readLeaf p' glued l) := by
  cases hcomment : l.token.isComment with
  | true =>
    rw [readLeaf_of_isComment hcomment, readLeaf_of_isComment hcomment]
    refine .ok ⟨⟨⟨h.plain.allowsFlags, h.plain.awaiting⟩,
      ⟨h.plain'.allowsFlags, h.plain'.awaiting⟩, h.awaiting⟩, fun hu => ?_⟩
    obtain ⟨b, rfl⟩ := h.same hu
    rfl
  | false =>
    have hawaiting' := h.awaiting
    cases hawaiting : d.awaiting with
    | flag q => exact absurd hawaiting (h.plain.awaiting q)
    | term =>
      rw [hawaiting] at hawaiting'
      cases hspace : l.token.isWhitespace with
      | true =>
        rw [readLeaf_of_isWhitespace hawaiting hspace, readLeaf_of_isWhitespace hawaiting' hspace]
        refine .ok ⟨⟨⟨h.plain.allowsFlags, h.plain.awaiting⟩,
          ⟨h.plain'.allowsFlags, h.plain'.awaiting⟩, h.awaiting⟩, fun hu => ?_⟩
        obtain ⟨b, rfl⟩ := h.same hu
        rfl
      | false =>
        rw [readLeaf_of_term hawaiting hcomment hspace, readLeaf_of_term hawaiting' hcomment hspace]
        exact agree_readTerm h fun hu => hnumber hu hawaiting
    | name =>
      rw [hawaiting] at hawaiting'
      rw [readLeaf_of_name hawaiting hcomment, readLeaf_of_name hawaiting' hcomment]
      split
      · exact .ok (h.push fun _ => rfl)
      · exact .error rfl
    | marker =>
      rw [hawaiting] at hawaiting'
      rw [readLeaf_of_marker hawaiting hcomment, readLeaf_of_marker hawaiting' hcomment]
      exact .error rfl

/-! ## Blocks -/

/-- Blocks with contents that are read alike are read alike. -/
theorem agree_readBlock {opener : Lexeme} {inner inner' : List Component} {closer : Option Lexeme}
    (h : Near unnoticed d d')
    (hinner : AgreeOnCause (Near unnoticed)
      (readAll (start false) (p.advance opener.source) inner)
      (readAll (start false) (p'.advance opener.source) inner'))
    (htokens : Component.tokens inner' = Component.tokens inner) :
    AgreeOnCause (Alike unnoticed) (readComponent d p glued (.block opener inner closer))
      (readComponent d' p' glued (.block opener inner' closer)) := by
  have hterms : ∀ c c' : Draft, Near unnoticed c c' → unnoticed → c'.terms = c.terms := by
    intro c c' hc hu
    obtain ⟨b, rfl⟩ := hc.same hu
    rfl
  have hawaiting' := h.awaiting
  rw [readComponent, readComponent]
  cases hawaiting : d.awaiting with
  | flag q => exact absurd hawaiting (h.plain.awaiting q)
  | term =>
    rw [hawaiting] at hawaiting'
    rw [hawaiting']
    cases ht : opener.token with
    | opening bracket =>
      cases bracket with
      | round =>
        refine hinner.bind fun c c' _ _ hc => .ok (h.push fun hu => ?_)
        rw [hterms c c' hc hu]
      | _ => exact .error rfl
    | function name =>
      refine hinner.bind fun c c' _ _ hc => .ok (h.push fun hu => ?_)
      rw [hterms c c' hc hu]
    | _ => exact .error rfl
  | name =>
    rw [hawaiting] at hawaiting'
    rw [hawaiting']
    exact .error rfl
  | marker =>
    -- The content of a marker is not read as a value, but token by token.
    rw [hawaiting] at hawaiting'
    rw [hawaiting']
    refine (Component.agree_marker htokens p p').bind fun text text' _ _ htext => ?_
    obtain rfl : text' = text := htext
    exact .ok (h.pushWord _ _)

theorem agree_finish (h : Near unnoticed d d') :
    AgreeOnCause (Near unnoticed) (d.finish p) (d'.finish p') := by
  rw [finish, finish, h.awaiting]
  split
  · exact .ok h
  · exact .error rfl

mutual

/-- Drafts that may differ in a comment before the component read it alike, unless it is a number
that they read differently. -/
theorem agree_readComponent (d d' : Draft) (p p' : Position) (glued : Bool) (c : Component)
    (h : Near unnoticed d d')
    (hnumber : unnoticed → d.awaiting = .term → ∀ l, c = .leaf l → d.SameNumber d' l) :
    AgreeOnCause (Alike unnoticed) (readComponent d p glued c) (readComponent d' p' glued c) := by
  match c with
  | .leaf l =>
    rw [readComponent, readComponent]
    exact agree_readLeaf h fun hu hawaiting => hnumber hu hawaiting l rfl
  | .block opener inner closer =>
    refine agree_readBlock h ?_ rfl
    -- The content starts with the same draft in both readings.
    refine agree_readAll (start false) (start false) _ _ inner (plain_start.near _) ?_
    intro _ _ l _ n unit single _
    rfl

/-- Drafts that may differ in a comment before the components read them alike, unless they start
with a number that is read differently. -/
theorem agree_readAll (d d' : Draft) (p p' : Position) (cs : List Component)
    (h : Near unnoticed d d')
    (hnumber : unnoticed → d.awaiting = .term →
      ∀ l, cs.head? = some (.leaf l) → d.SameNumber d' l) :
    AgreeOnCause (Near unnoticed) (readAll d p cs) (readAll d' p' cs) := by
  match cs with
  | [] =>
    rw [readAll, readAll]
    exact agree_finish h
  | c :: rest =>
    rw [readAll, readAll]
    refine (agree_readComponent d d' p p' _ c h ?_).bind fun e e' _ _ he => ?_
    · rintro hu hawaiting l rfl
      exact hnumber hu hawaiting l rfl
    · exact agree_readAll e e' _ _ rest he.near fun hu _ l _ => he.sameNumber hu l

end

end Draft

end Scss
