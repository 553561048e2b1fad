import Scss.Proofs.Nesting

/-!
# A comment among components

A comment between two lexemes becomes one more component of some block.  It opens and closes
nothing, so all other components stay where they are.  What a number after it is read as may depend
on what stands before it, so that is carried along: `Left.next` follows it lexeme by lexeme, and
`Left.after` component by component.

## Main definitions

* `Left`: what stands right before a place
* `Lexeme.Indifferent`: a comment before the lexeme changes nothing
* `Component.Inserted`: a comment is put among components

## Main results

* `Component.inserted_ofLexemes`: a comment among lexemes is one among their components
-/

namespace Scss

/-! ## What stands before a place -/

/-- What stands right before a place, as far as the reading of a number there depends on it. -/
inductive Left where
  /-- A comment, perhaps one between a `$` and its name. -/
  | comment (awaitsName : Bool)
  /-- A `$`. -/
  | dollar
  /-- A number, the name of a variable or a closing parenthesis. -/
  | operand
  /-- Something else, or nothing. -/
  | other

/-- A block with the bracket. -/
def Bracket.left : Bracket → Left
  | .round => .operand
  | _ => .other

namespace Left

/-- Whether the name of a variable has to come next. -/
def awaitsName : Left → Bool
  | .comment awaitsName => awaitsName
  | .dollar => true
  | _ => false

/-- What stands before the place after a token. -/
def next (left : Left) : Token → Left
  | .comment _ => .comment left.awaitsName
  | .delim c => if c = '$' then .dollar else .other
  | .ident _ => if left.awaitsName then .operand else .other
  | .number _ | .percentage _ | .dimension _ _ => .operand
  | .closing bracket => bracket.left
  | _ => .other

/-- What stands before the place after a component. -/
def after (left : Left) : Component → Left
  | .leaf l => left.next l.token
  | .block opener _ _ => opener.token.opens?.elim .other Bracket.left

/-- What stands before the place after some lexemes. -/
def afterAll (left : Left) (ls : List Lexeme) : Left :=
  ls.foldl (fun left l => left.next l.token) left

theorem next_of_opens {t : Token} {bracket : Bracket} (h : t.opens? = some bracket) (left : Left) :
    left.next t = .other := by
  cases t with
  | function | opening => rfl
  | _ => cases h

theorem next_of_closes {t : Token} {bracket : Bracket} (h : t.closes? = some bracket)
    (left : Left) : left.next t = bracket.left := by
  cases t with
  | closing =>
    cases h
    rfl
  | _ => cases h

end Left

namespace Token

theorem eq_comment_of_isComment {t : Token} (h : t.isComment = true) :
    ∃ text, t = .comment text := by
  cases t with
  | comment text => exact ⟨text, rfl⟩
  | _ => cases h

theorem eq_whitespace_of_isWhitespace {t : Token} (h : t.isWhitespace = true) :
    ∃ text, t = .whitespace text := by
  cases t with
  | whitespace text => exact ⟨text, rfl⟩
  | _ => cases h

/-- The numeral of a numeric token, its unit, and the number that the token holds. -/
def numeric? : Token → Option (Numeral × String × Float32)
  | .number n => some (n, "", Single.ofDouble n.approximate)
  | .dimension n unit => some (n, unit, Single.ofDouble n.approximate)
  | .percentage n => some (n, "%", Single.ofDouble (n.approximate / 100) * 100)
  | _ => none

end Token

/-- A comment between `left` and the lexeme changes nothing: there is one already, or the lexeme is
no number, or it is one that has no sign to join it with an operand before it and whose text names
the number that its token holds. -/
def Lexeme.Indifferent (left : Left) (l : Lexeme) : Prop :=
  (∀ b, left ≠ .comment b) → ∀ n unit single, l.token.numeric? = some (n, unit, single) →
    (left = .operand → n.sign = none) ∧
    (l.source = n.text ++ unit.toList → n.exact = Single.widen single)

/-! ## A comment is put somewhere -/

/-- A comment is put among components that follow `left`, at any depth.  If `unnoticed` holds, it
changes nothing for the lexeme after it. -/
inductive Component.Inserted (unnoticed : Prop) :
    Left → List Component → List Component → Prop
  | here {left : Left} {comment : Lexeme} {after : List Component}
      (hcomment : comment.token.isComment = true)
      (hnext : unnoticed → ∀ l, after.head? = some (.leaf l) → l.Indifferent left) :
      Inserted unnoticed left after (.leaf comment :: after)
  | later {left : Left} (c : Component) {after after' : List Component}
      (h : Inserted unnoticed (left.after c) after after') :
      Inserted unnoticed left (c :: after) (c :: after')
  | inside {left : Left} (opener : Lexeme) {inner inner' : List Component}
      (closer : Option Lexeme) (after : List Component)
      (h : Inserted unnoticed .other inner inner') :
      Inserted unnoticed left (.block opener inner closer :: after)
        (.block opener inner' closer :: after)

/-- A comment is put somewhere after a block that ends. -/
inductive BlockEnd.Inserted (unnoticed : Prop) :
    List Bracket → List BlockEnd → List BlockEnd → Prop
  | here {bracket : Bracket} {brackets : List Bracket} {closer : Lexeme}
      {after after' : List Component} {ends : List BlockEnd}
      (h : Component.Inserted unnoticed bracket.left after after') :
      Inserted unnoticed (bracket :: brackets) (⟨closer, after⟩ :: ends) (⟨closer, after'⟩ :: ends)
  | later {bracket : Bracket} {brackets : List Bracket} (e : BlockEnd) {ends ends' : List BlockEnd}
      (h : Inserted unnoticed brackets ends ends') :
      Inserted unnoticed (bracket :: brackets) (e :: ends) (e :: ends')

/-- A comment is put into a completion. -/
inductive Completion.Inserted (unnoticed : Prop) (left : Left) (brackets : List Bracket) :
    Completion → Completion → Prop
  | inner {inner inner' : List Component} {ends : List BlockEnd}
      (h : Component.Inserted unnoticed left inner inner') :
      Inserted unnoticed left brackets ⟨inner, ends⟩ ⟨inner', ends⟩
  | ends {inner : List Component} {ends ends' : List BlockEnd}
      (h : BlockEnd.Inserted unnoticed brackets ends ends') :
      Inserted unnoticed left brackets ⟨inner, ends⟩ ⟨inner, ends'⟩

namespace Completion.Inserted

variable {unnoticed : Prop} {left : Left} {bracket : Bracket} {brackets : List Bracket}
  {r r' : Completion} {l : Lexeme}

theorem leaf (h : Inserted unnoticed (left.next l.token) brackets r r') :
    Inserted unnoticed left brackets (r.prepend [.leaf l]) (r'.prepend [.leaf l]) := by
  cases h with
  | inner h => exact .inner (.later (.leaf l) h)
  | ends h => exact .ends h

theorem close (hcloses : l.token.closes? = some bracket)
    (h : Inserted unnoticed (left.next l.token) brackets r r') :
    Inserted unnoticed left (bracket :: brackets) (r.close l) (r'.close l) := by
  rw [Left.next_of_closes hcloses] at h
  cases h with
  | inner h => exact .ends (.here h)
  | ends h => exact .ends (.later _ h)

theorem enclose (hopens : l.token.opens? = some bracket)
    (h : Inserted unnoticed (left.next l.token) (bracket :: brackets) r r') :
    Inserted unnoticed left brackets (r.enclose l) (r'.enclose l) := by
  rw [Left.next_of_opens hopens] at h
  cases h with
  | @inner inner inner' ends h =>
    cases ends with
    | nil => exact .inner (.inside l none [] h)
    | cons e ends => exact .inner (.inside l (some e.closer) e.after h)
  | ends h =>
    cases h with
    | here h =>
      -- The block that is opened here stands before the comment.
      refine .inner (.later _ ?_)
      rw [Left.after, hopens]
      exact h
    | later e h => exact .ends h

/-- Where no block is open, the comment stands among the components. -/
theorem inner_of_nil (h : Inserted unnoticed left [] r r') :
    Component.Inserted unnoticed left r.inner r'.inner := by
  cases h with
  | inner h => exact h
  | ends h => cases h

end Completion.Inserted

namespace Component

variable {unnoticed : Prop} {left : Left} {brackets : List Bracket}

/-- If the first component is a lexeme, it is the first lexeme. -/
theorem head?_of_complete {ls : List Lexeme} {l : Lexeme}
    (h : (complete brackets ls).inner.head? = some (.leaf l)) : ls.head? = some l := by
  cases ls with
  | nil => cases h
  | cons first ls =>
    rcases complete_cons brackets first with ⟨_, -, hstep⟩ | ⟨_, _, -, -, hstep⟩ | hstep
    · rw [hstep, Completion.enclose] at h
      split at h <;> cases h
    · rw [hstep] at h
      cases h
    · rw [hstep] at h
      cases h
      rfl

/-- A comment among lexemes is one in what they complete. -/
theorem inserted_complete {comment : Lexeme} (hcomment : comment.token.isComment = true)
    (ls ms : List Lexeme) (hnext : unnoticed → ∀ l ∈ ms.head?, l.Indifferent (left.afterAll ls)) :
    Completion.Inserted unnoticed left brackets (complete brackets (ls ++ ms))
      (complete brackets (ls ++ comment :: ms)) := by
  induction ls generalizing left brackets with
  | nil =>
    have hplain : comment.token.opens? = none ∧ comment.token.closes? = none := by
      obtain ⟨text, ht⟩ := Token.eq_comment_of_isComment hcomment
      rw [ht]
      exact ⟨rfl, rfl⟩
    rw [List.nil_append, List.nil_append, complete_of_leaf hplain.1 (by simp [hplain.2])]
    refine .inner (.here hcomment ?_)
    intro hu l hl
    exact hnext hu l (head?_of_complete hl)
  | cons l ls ih =>
    rw [List.cons_append, List.cons_append]
    rcases complete_cons brackets l with ⟨bracket, hopens, hstep⟩ |
      ⟨bracket, outer, rfl, hcloses, hstep⟩ | hstep
    · rw [hstep, hstep]
      exact .enclose hopens (ih hnext)
    · rw [hstep, hstep]
      exact .close hcloses (ih hnext)
    · rw [hstep, hstep]
      exact .leaf (ih hnext)

/-- A comment among lexemes is one among their components. -/
theorem inserted_ofLexemes {comment : Lexeme} (hcomment : comment.token.isComment = true)
    (ls ms : List Lexeme)
    (hnext : unnoticed → ∀ l ∈ ms.head?, l.Indifferent (Left.afterAll .other ls)) :
    Inserted unnoticed .other (ofLexemes (ls ++ ms)) (ofLexemes (ls ++ comment :: ms)) := by
  rw [ofLexemes_eq_complete, ofLexemes_eq_complete]
  exact (inserted_complete hcomment ls ms hnext).inner_of_nil

end Component

end Scss
