import Scss.Token.Component

/-!
# Blocks from the right

Lexemes are put into blocks from left to right, with a stack of the blocks that are open.  What the
lexemes from some place on add to the blocks that are open there does not depend on what stands
before: they continue the innermost block, and may close it and go on after it.  So the components
of a text can be read off its lexemes from right to left as well, without a stack of what was seen.

## Main definitions

* `Completion`: what some lexemes add to the blocks that are open before them
* `Component.complete`: the completion that some lexemes form

## Main results

* `Nesting.finish_foldl_feed`: open blocks are completed by the lexemes that follow
* `Component.ofLexemes_eq_complete`: the components of lexemes from right to left
* `Component.ofLexemes_cons`: a lexeme that opens nothing stands before the other components
* `Component.ofLexemes_of_append`: components at the end are those of the lexemes at the end
-/

namespace Scss

/-- The end of a block: what closes it, and the components after it. -/
structure BlockEnd where
  /-- What closes the block. -/
  closer : Lexeme
  /-- The components after the block, up to the end of the block around it. -/
  after : List Component

/-- What some lexemes add to the blocks that are open before them. -/
structure Completion where
  /-- The components up to the end of the innermost block. -/
  inner : List Component
  /-- The ends of the blocks that are closed, the innermost first. -/
  ends : List BlockEnd

namespace Completion

/-- Puts components in front. -/
def prepend (cs : List Component) (r : Completion) : Completion :=
  { r with inner := cs ++ r.inner }

/-- Opens a block in front.  If nothing closes it, nothing stands after it. -/
def enclose (opener : Lexeme) (r : Completion) : Completion :=
  match r.ends with
  | [] => ⟨[.block opener r.inner none], []⟩
  | e :: ends => ⟨.block opener r.inner (some e.closer) :: e.after, ends⟩

/-- Closes a block in front. -/
def close (closer : Lexeme) (r : Completion) : Completion :=
  ⟨[], ⟨closer, r.inner⟩ :: r.ends⟩

/-- The components of a text with open blocks that are completed. -/
def fill : List OpenBlock → Completion → List Component
  | [], r => r.inner
  | block :: outer, r => fill outer ((r.enclose block.opener).prepend block.before.reverse)

end Completion

/-- What lexemes add to open blocks with the given brackets, the innermost first. -/
def Component.complete (brackets : List Bracket) : List Lexeme → Completion
  | [] => ⟨[], []⟩
  | l :: ls =>
    match l.token.opens?, brackets with
    | some bracket, _ => (complete (bracket :: brackets) ls).enclose l
    | none, bracket :: outer =>
      if l.token.closes? = some bracket then (complete outer ls).close l
      else (complete brackets ls).prepend [.leaf l]
    | none, [] => (complete [] ls).prepend [.leaf l]

namespace Component

variable {l : Lexeme} {bracket : Bracket} {brackets : List Bracket}

theorem complete_of_opens (h : l.token.opens? = some bracket) (ls : List Lexeme) :
    complete brackets (l :: ls) = (complete (bracket :: brackets) ls).enclose l := by
  simp [complete, h]

theorem complete_of_closes (hopens : l.token.opens? = none)
    (hcloses : l.token.closes? = some bracket) (ls : List Lexeme) :
    complete (bracket :: brackets) (l :: ls) = (complete brackets ls).close l := by
  simp [complete, hopens, hcloses]

theorem complete_of_leaf (hopens : l.token.opens? = none)
    (hcloses : ∀ bracket ∈ brackets.head?, l.token.closes? ≠ some bracket) (ls : List Lexeme) :
    complete brackets (l :: ls) = (complete brackets ls).prepend [.leaf l] := by
  cases brackets with
  | nil => simp [complete, hopens]
  | cons bracket outer => simp [complete, hopens, hcloses bracket rfl]

/-- What a lexeme does to the open blocks does not depend on the lexemes after it: it opens a block,
closes the innermost one, or is a component of that one. -/
theorem complete_cons (brackets : List Bracket) (l : Lexeme) :
    (∃ bracket, l.token.opens? = some bracket ∧
      ∀ ls, complete brackets (l :: ls) = (complete (bracket :: brackets) ls).enclose l) ∨
    (∃ bracket outer, brackets = bracket :: outer ∧ l.token.closes? = some bracket ∧
      ∀ ls, complete brackets (l :: ls) = (complete outer ls).close l) ∨
    (∀ ls, complete brackets (l :: ls) = (complete brackets ls).prepend [.leaf l]) := by
  cases hopens : l.token.opens? with
  | some bracket => exact .inl ⟨bracket, rfl, complete_of_opens hopens⟩
  | none =>
    right
    by_cases hcloses : ∃ bracket ∈ brackets.head?, l.token.closes? = some bracket
    · left
      obtain ⟨bracket, hbracket, hcloses⟩ := hcloses
      obtain ⟨outer, rfl⟩ := List.head?_eq_some_iff.1 hbracket
      exact ⟨bracket, outer, rfl, hcloses, complete_of_closes hopens hcloses⟩
    · right
      exact complete_of_leaf hopens (by simpa using hcloses)

end Component

namespace Nesting

theorem finish_eq_fill (blocks : List OpenBlock) (done : List Component) :
    finish blocks done = Completion.fill blocks ⟨done.reverse, []⟩ := by
  induction blocks generalizing done with
  | nil => rfl
  | cons block outer ih =>
    rw [finish, ih, Completion.fill, close, List.reverse_cons]
    rfl

/-- Open blocks are completed by the lexemes that follow. -/
theorem finish_foldl_feed (ls : List Lexeme) (blocks : List OpenBlock) (done : List Component) :
    finish (ls.foldl feed ⟨blocks, done⟩).blocks (ls.foldl feed ⟨blocks, done⟩).done =
      Completion.fill blocks
        ((Component.complete (blocks.map OpenBlock.bracket) ls).prepend done.reverse) := by
  induction ls generalizing blocks done with
  | nil =>
    rw [List.foldl_nil, finish_eq_fill, Component.complete, Completion.prepend, List.append_nil]
  | cons l ls ih =>
    rw [List.foldl_cons]
    cases hopens : l.token.opens? with
    | some bracket =>
      have hfeed : feed ⟨blocks, done⟩ l = ⟨⟨l, bracket, done⟩ :: blocks, []⟩ := by
        simp [feed, hopens]
      rw [hfeed, ih, Component.complete_of_opens hopens]
      rfl
    | none =>
      by_cases hcloses : ∃ block ∈ blocks.head?, l.token.closes? = some block.bracket
      · obtain ⟨block, hblock, hcloses⟩ := hcloses
        obtain ⟨outer, rfl⟩ := List.head?_eq_some_iff.1 hblock
        have hfeed : feed ⟨block :: outer, done⟩ l =
            ⟨outer, .block block.opener done.reverse (some l) :: block.before⟩ := by
          simp [feed, hopens, hcloses, close]
        rw [hfeed, ih, List.map_cons, Component.complete_of_closes hopens hcloses]
        simp [Completion.fill, Completion.close, Completion.prepend, Completion.enclose]
      · have hfeed : feed ⟨blocks, done⟩ l = ⟨blocks, .leaf l :: done⟩ := by
          cases blocks with
          | nil => simp [feed, hopens]
          | cons block outer =>
            have hother : l.token.closes? ≠ some block.bracket := fun h => hcloses ⟨block, rfl, h⟩
            simp [feed, hopens, hother]
        rw [hfeed, ih, Component.complete_of_leaf hopens (by simpa using hcloses)]
        simp [Completion.prepend]

end Nesting

namespace Component

/-- The components of lexemes, from right to left. -/
theorem ofLexemes_eq_complete (ls : List Lexeme) : ofLexemes ls = (complete [] ls).inner :=
  Nesting.finish_foldl_feed ls [] []

/-- A lexeme that opens nothing stands before the components of the others. -/
theorem ofLexemes_cons {l : Lexeme} (h : l.token.opens? = none) (ls : List Lexeme) :
    ofLexemes (l :: ls) = .leaf l :: ofLexemes ls := by
  rw [ofLexemes_eq_complete, ofLexemes_eq_complete, complete_of_leaf h (by simp)]
  rfl

/-- If the innermost block is closed, the lexemes after what closes it are left to the blocks around
it. -/
theorem complete_ends (bracket : Bracket) (brackets : List Bracket) (ls : List Lexeme) :
    (complete (bracket :: brackets) ls).ends = [] ∨
      ∃ inside closer ls', ls = inside ++ closer :: ls' ∧
        (complete (bracket :: brackets) ls).ends =
          ⟨closer, (complete brackets ls').inner⟩ :: (complete brackets ls').ends := by
  match ls with
  | [] => exact .inl rfl
  | l :: ls =>
    rcases complete_cons (bracket :: brackets) l with ⟨other, -, hstep⟩ | ⟨_, _, heq, -, hstep⟩ |
      hstep
    · rw [hstep]
      rcases complete_ends other (bracket :: brackets) ls with hopen |
        ⟨inside, closer, ls', hls, hends⟩
      · left
        simp [Completion.enclose, hopen]
      · -- After the block that is opened here, the innermost one goes on.
        have henclose : ((complete (other :: bracket :: brackets) ls).enclose l).ends =
            (complete (bracket :: brackets) ls').ends := by
          simp [Completion.enclose, hends]
        have hlength : ls'.length ≤ ls.length := by simp [hls]; omega
        rw [henclose]
        rcases complete_ends bracket brackets ls' with hopen | ⟨inside', closer', ls'', rfl, hends'⟩
        · exact .inl hopen
        · refine .inr ⟨l :: inside ++ closer :: inside', closer', ls'', ?_, hends'⟩
          simp [hls]
    · cases heq
      rw [hstep]
      exact .inr ⟨[], l, ls, rfl, rfl⟩
    · rw [hstep]
      rcases complete_ends bracket brackets ls with hopen | ⟨inside, closer, ls', rfl, hends⟩
      · exact .inl hopen
      · exact .inr ⟨l :: inside, closer, ls', rfl, hends⟩
termination_by ls.length

/-- The first component starts with the first lexeme, and the others are those of the lexemes that
follow it. -/
theorem ofLexemes_eq_cons {ls : List Lexeme} {c : Component} {rest : List Component}
    (h : ofLexemes ls = c :: rest) :
    ∃ l inside ls', ls = l :: (inside ++ ls') ∧ c.token = l.token ∧ rest = ofLexemes ls' ∧
      (l.token.opens? = none → c = .leaf l) := by
  match ls with
  | [] => cases h
  | l :: ls =>
    cases hopens : l.token.opens? with
    | none =>
      rw [ofLexemes_cons hopens] at h
      cases h
      exact ⟨l, [], ls, rfl, rfl, rfl, fun _ => rfl⟩
    | some bracket =>
      rw [ofLexemes_eq_complete, complete_of_opens hopens, Completion.enclose] at h
      rcases complete_ends bracket [] ls with hopen | ⟨inside, closer, ls', rfl, hends⟩
      · rw [hopen] at h
        cases h
        exact ⟨l, ls, [], by simp, rfl, rfl, by simp [hopens]⟩
      · rw [hends] at h
        cases h
        refine ⟨l, inside ++ [closer], ls', by simp, rfl, ?_, by simp [hopens]⟩
        rw [ofLexemes_eq_complete]

/-- Components at the end are those of the lexemes at the end. -/
theorem ofLexemes_of_append {ls : List Lexeme} {before rest : List Component}
    (h : ofLexemes ls = before ++ rest) : ∃ ls₁ ls₂, ls = ls₁ ++ ls₂ ∧ rest = ofLexemes ls₂ := by
  induction before generalizing ls with
  | nil => exact ⟨[], ls, rfl, h.symm⟩
  | cons c before ih =>
    obtain ⟨l, inside, ls', rfl, -, hrest, -⟩ := ofLexemes_eq_cons h
    obtain ⟨ls₁, ls₂, rfl, hls₂⟩ := ih hrest.symm
    exact ⟨l :: (inside ++ ls₁), ls₂, by simp, hls₂⟩

end Component

end Scss
