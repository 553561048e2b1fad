import Scss.Proofs.Lexing
import Scss.Value.Read

/-!
# The layout of written values

A value is written term by term, with a space between neighbours where one belongs.  Its layout is
what the text consists of: the lexemes of simple terms, a block for each call and each pair of
parentheses, and the spaces.  The text of a value is cut into the lexemes of its layout, and these
lexemes form its components.

## Main definitions

* `Term.Leaf`, `Term.lexemes`: the simple terms, and the lexemes they are written with
* `Layout`: the components of the text of a value that follows a term
* `Component.lexemesAll`: the lexemes of some components, in order

## Main results

* `Layout.readAll`: the text of a value is cut into the lexemes of its layout
* `Layout.ofLexemes`: the lexemes of a layout form its components
-/

namespace Scss

/-! ## Spaces between terms -/

/-- Whether a space may stand after the term. -/
def Term.spaceAfter : Term → Bool
  | .separator .slash | .operator .div | .operator .leftParen | .operator .neg => false
  | _ => true

/-- Whether a space may stand before the term. -/
def Term.spaceBefore : Term → Bool
  | .separator _ | .operator .div | .operator .rightParen => false
  | _ => true

/-- A space stands between neighbours if it may stand after the one and before the other. -/
theorem needsSpace_eq (left right : Term) :
    needsSpace left right = (left.spaceAfter && right.spaceBefore) := by
  -- Each pattern but the last names one neighbour that allows no space.
  unfold needsSpace
  split
  · exact (Bool.and_false _).symm
  · rfl
  · exact (Bool.and_false _).symm
  · rfl
  · exact (Bool.and_false _).symm
  · rfl
  · exact (Bool.and_false _).symm
  · rfl
  · rename_i hafterSlash hafterDiv hopening hneg hcomma hslash hdiv hclosing
    have hafter : left.spaceAfter = true := by
      unfold Term.spaceAfter
      split
      · exact (hafterSlash rfl).elim
      · exact (hafterDiv rfl).elim
      · exact (hopening rfl).elim
      · exact (hneg rfl).elim
      · rfl
    have hbefore : right.spaceBefore = true := by
      unfold Term.spaceBefore
      split
      · rename_i separator
        cases separator with
        | comma => exact (hcomma rfl).elim
        | slash => exact (hslash rfl).elim
      · exact (hdiv rfl).elim
      · exact (hclosing rfl).elim
      · rfl
    rw [hafter, hbefore]
    rfl

/-! ## Layouts -/

namespace Lexeme

/-- The space between terms. -/
def space : Lexeme := ⟨.whitespace " ", [' ']⟩

/-- The opening parenthesis of a group. -/
def openParen : Lexeme := ⟨.opening .round, ['(']⟩

/-- The name and the opening parenthesis of a call. -/
def openCall (name : String) : Lexeme := ⟨.function name, name.toList ++ ['(']⟩

/-- The closing parenthesis. -/
def closeParen : Lexeme := ⟨.closing .round, [')']⟩

end Lexeme

namespace Term

/-- A simple term that is written as it is read: a string without line ends and NUL, a plain word, a
reference to one, a sign or a comma. -/
inductive Leaf : Term → Prop
  | string {text : String} (h : Text.isUnbroken text.toList = true) : Leaf (.string text)
  | word {text : String} (h : Word.spells text.toList = true) : Leaf (.word text)
  | reference {name : String} (h : Word.spells name.toList = true) : Leaf (.variable name)
  | sign {o : Operator} (h : o = .add ∨ o = .sub ∨ o = .mul) : Leaf (.operator o)
  | comma : Leaf (.separator .comma)

/-- The lexemes with which a simple term is written. -/
def lexemes : Term → List Lexeme
  | .string text => [⟨.quotedString text, quoteString text.toList⟩]
  | .word text => [⟨.ident text, text.toList⟩]
  | .variable name => [⟨.delim '$', ['$']⟩, ⟨.ident name, name.toList⟩]
  | .operator o => [⟨.delim o.symbol, [o.symbol]⟩]
  | .separator _ => [⟨.comma, [',']⟩]
  | _ => []

end Term

/-- The space before a term that follows `left`, where one belongs. -/
def Component.gap (left : Option Term) (t : Term) : List Component :=
  if left.any (needsSpace · t) then [.leaf .space] else []

/-- The components of the text of a value that follows `left`.  A minus sign is not followed by a
comma, and a call is not one that is read as a colour. -/
inductive Layout : Option Term → Value → List Component → Prop
  | nil {left : Option Term} : Layout left [] []
  | leaf {left : Option Term} {t : Term} {rest : Value} {cs : List Component} (ht : t.Leaf)
    (hsub : t.isOperator .sub = true → rest.head?.any Term.isComma = false)
    (hrest : Layout (some t) rest cs) :
    Layout left (t :: rest) (Component.gap left t ++ t.lexemes.map .leaf ++ cs)
  | call {left : Option Term} {name : String} {parameters rest : Value}
    {inner cs : List Component} (hname : Word.spells name.toList = true)
    (hurl : name.toList.map Char.toLower ≠ ['u', 'r', 'l'])
    (hfold : foldColor name parameters = .call name parameters)
    (hparameters : Layout none parameters inner)
    (hrest : Layout (some (.call name parameters)) rest cs) :
    Layout left (.call name parameters :: rest)
      (Component.gap left (.call name parameters) ++
        .block (.openCall name) inner (some .closeParen) :: cs)
  | group {left : Option Term} {content rest : Value} {inner cs : List Component}
    (hcontent : Layout (some (.operator .leftParen)) content inner)
    (hrest : Layout (some (.operator .rightParen)) rest cs) :
    Layout left (.operator .leftParen :: (content ++ .operator .rightParen :: rest))
      (Component.gap left (.operator .leftParen) ++
        .block .openParen inner (some .closeParen) :: cs)

mutual

/-- The lexemes of a component, in order. -/
def Component.lexemes : Component → List Lexeme
  | .leaf l => [l]
  | .block opener inner closer => opener :: (Component.lexemesAll inner ++ closer.toList)

/-- The lexemes of some components, in order. -/
def Component.lexemesAll : List Component → List Lexeme
  | [] => []
  | c :: rest => c.lexemes ++ Component.lexemesAll rest

end

namespace Component

theorem lexemesAll_append (cs cs' : List Component) :
    lexemesAll (cs ++ cs') = lexemesAll cs ++ lexemesAll cs' := by
  induction cs with
  | nil => rw [lexemesAll, List.nil_append, List.nil_append]
  | cons c rest ih => rw [List.cons_append, lexemesAll, lexemesAll, ih, List.append_assoc]

theorem lexemesAll_leaves (ls : List Lexeme) : lexemesAll (ls.map .leaf) = ls := by
  induction ls with
  | nil => rw [List.map_nil, lexemesAll]
  | cons l rest ih => rw [List.map_cons, lexemesAll, ih, lexemes, List.singleton_append]

theorem lexemesAll_block (opener closer : Lexeme) (inner cs : List Component) :
    lexemesAll (.block opener inner (some closer) :: cs) =
      opener :: (lexemesAll inner ++ closer :: lexemesAll cs) := by
  rw [lexemesAll, lexemes]
  simp

end Component

/-! ## From text to lexemes -/

namespace Term

variable {t : Term} {left : Option Term} {s : Style} {rest : List Char}

theorem Leaf.spaceAfter (h : t.Leaf) : t.spaceAfter = true := by
  cases h with
  | sign h => rcases h with rfl | rfl | rfl <;> rfl
  | _ => rfl

theorem Leaf.isOperator_div (h : t.Leaf) : t.isOperator .div = false := by
  cases h with
  | sign h => rcases h with rfl | rfl | rfl <;> rfl
  | _ => rfl

theorem Leaf.head_write (h : t.Leaf) (s : Style) (rest : List Char) :
    (t.write s true ++ rest).head?.any isSpace = false := by
  cases h with
  | string h => rfl
  | word h => exact Word.head_of_spells h rest
  | reference h => rfl
  | sign h => rcases h with rfl | rfl | rfl <;> rfl
  | comma => rfl

theorem Leaf.readAll (h : t.Leaf) (s : Style) (hrest : EndsTerm rest) :
    Lexeme.readAll (t.write s true ++ rest) = t.lexemes ++ Lexeme.readAll rest := by
  cases h with
  | @string text h =>
    have hread := Lexeme.readAll_string h rest
    rwa [String.ofList_toList] at hread
  | @word text h =>
    have hread := Lexeme.readAll_word h hrest
    rwa [String.ofList_toList] at hread
  | @reference name h =>
    have hread := Lexeme.readAll_word h hrest
    rw [String.ofList_toList] at hread
    -- The sign and the name are lexemes of their own.
    rw [Term.write, List.cons_append, Lexeme.readAll_dollar h, hread]
    rfl
  | sign h => rcases h with rfl | rfl | rfl <;> exact Lexeme.readAll_sign (by decide) hrest
  | comma => exact Lexeme.readAll_comma rest

end Term

theorem Component.readAll_gap {left : Option Term} {t : Term} {rest : List Char}
    (h : rest.head?.any isSpace = false) :
    Lexeme.readAll ((if left.any (needsSpace · t) then [' '] else []) ++ rest) =
      lexemesAll (gap left t) ++ Lexeme.readAll rest := by
  unfold gap
  split
  · exact Lexeme.readAll_space h
  · rfl

/-- A closing parenthesis is written right after what it closes. -/
theorem Value.writeAfter_append_close (s : Style) (left : Option Term) (content rest : Value) :
    Value.writeAfter s true left (content ++ .operator .rightParen :: rest) =
      Value.writeAfter s true left content ++
        ')' :: Value.writeAfter s true (some (.operator .rightParen)) rest := by
  induction content generalizing left with
  | nil =>
    have hspace : left.any (needsSpace · (.operator .rightParen)) = false := by
      cases left <;> simp [needsSpace_eq, Term.spaceBefore]
    rw [List.nil_append, writeAfter, writeAfter, hspace]
    rfl
  | cons t content ih =>
    rw [List.cons_append, writeAfter, writeAfter, ih]
    simp only [List.append_assoc]

namespace Layout

variable {left : Option Term} {t : Term} {v : Value} {cs : List Component} {rest : List Char}

/-- After a term that a space may follow, a value is empty or starts with a comma or a space. -/
theorem eq_nil_or_comma_or_space (h : Layout (some t) v cs) (ht : t.spaceAfter = true) :
    (v = [] ∧ cs = []) ∨ (∃ rest, v = .separator .comma :: rest) ∨
      ∃ u rest more, v = u :: rest ∧ u.spaceBefore = true ∧ cs = .leaf .space :: more := by
  have hgap : ∀ {u : Term}, u.spaceBefore = true → Component.gap (some t) u = [.leaf .space] := by
    intro u hu
    rw [Component.gap, Option.any_some, needsSpace_eq, ht, hu]
    rfl
  cases h with
  | nil => exact .inl ⟨rfl, rfl⟩
  | @leaf _ u rest cs hleaf hsub hrest =>
    by_cases hu : u.spaceBefore = true
    · exact .inr (.inr ⟨u, rest, _, rfl, hu, by rw [hgap hu]; rfl⟩)
    · cases hleaf with
      | comma => exact .inr (.inl ⟨rest, rfl⟩)
      | sign h => rcases h with rfl | rfl | rfl <;> exact absurd rfl hu
      | _ => exact absurd rfl hu
  | call => exact .inr (.inr ⟨_, _, _, rfl, rfl, by rw [hgap rfl]; rfl⟩)
  | group => exact .inr (.inr ⟨_, _, _, rfl, rfl, by rw [hgap rfl]; rfl⟩)

theorem endsTerm (h : Layout (some t) v cs) (ht : t.spaceAfter = true) (s : Style)
    (hrest : EndsTerm rest) : EndsTerm (Value.writeAfter s true (some t) v ++ rest) := by
  rcases h.eq_nil_or_comma_or_space ht with ⟨rfl, -⟩ | ⟨more, rfl⟩ | ⟨u, more, _, rfl, hu, -⟩
  · rw [Value.writeAfter, List.nil_append]
    exact hrest
  · rw [Value.writeAfter, Option.any_some, needsSpace_eq, ht]
    exact fun c hc => .inr (.inl (by simpa [Term.spaceBefore, Term.write] using hc.symm))
  · rw [Value.writeAfter, Option.any_some, needsSpace_eq, ht, hu]
    exact fun c hc => .inl (by simpa using hc.symm)

/-- The text of a value is cut into the lexemes of its layout. -/
theorem readAll (h : Layout left v cs) (s : Style) (hrest : EndsTerm rest) :
    Lexeme.readAll (Value.writeAfter s true left v ++ rest) =
      Component.lexemesAll cs ++ Lexeme.readAll rest := by
  -- What follows a value inside parentheses is the closing one, so `rest` varies.
  induction h generalizing rest with
  | nil =>
    rw [Value.writeAfter, Component.lexemesAll, List.nil_append, List.nil_append]
  | leaf ht hsub hv ih =>
    have hends := hv.endsTerm ht.spaceAfter s hrest
    rw [Value.writeAfter, List.append_assoc, List.append_assoc,
      Component.readAll_gap (ht.head_write s _), ht.readAll s hends, ih hrest]
    simp only [Component.lexemesAll_append, Component.lexemesAll_leaves, List.append_assoc]
  | @call left name ps v inner cs hname hurl hfold hps hv ihps ih =>
    have hclose : EndsTerm (')' :: (Value.writeAfter s true (some (.call name ps)) v ++ rest)) :=
      fun c hc => .inr (.inr (by simpa using hc.symm))
    rw [Value.writeAfter, Term.write]
    simp only [List.append_assoc, List.cons_append, List.nil_append]
    rw [Component.readAll_gap (Word.head_of_spells hname _), Lexeme.readAll_function hname hurl,
      ihps hclose, Lexeme.readAll_close, ih hrest, Component.lexemesAll_append,
      Component.lexemesAll_block, String.ofList_toList]
    simp [Lexeme.openCall, Lexeme.closeParen]
  | @group left content v inner cs hcontent hv ihcontent ih =>
    have hclose : EndsTerm
        (')' :: (Value.writeAfter s true (some (.operator .rightParen)) v ++ rest)) :=
      fun c hc => .inr (.inr (by simpa using hc.symm))
    rw [Value.writeAfter, Term.write, Value.writeAfter_append_close]
    simp only [List.append_assoc, List.cons_append, List.nil_append, Operator.symbol]
    rw [Component.readAll_gap rfl, Lexeme.readAll_open, ihcontent hclose, Lexeme.readAll_close,
      ih hrest, Component.lexemesAll_append, Component.lexemesAll_block]
    simp [Lexeme.openParen, Lexeme.closeParen]

end Layout

/-! ## From lexemes to components -/

namespace Nesting

variable {blocks : List OpenBlock} {done : List Component}

/-- Lexemes that open and close nothing are components of their own. -/
theorem foldl_feed_leaves {ls : List Lexeme}
    (h : ∀ l ∈ ls, l.token.opens? = none ∧ l.token.closes? = none) :
    ls.foldl feed ⟨blocks, done⟩ = ⟨blocks, (ls.map Component.leaf).reverse ++ done⟩ := by
  induction ls generalizing done with
  | nil => rfl
  | cons l rest ih =>
    obtain ⟨hopens, hcloses⟩ := h l List.mem_cons_self
    have hfeed : feed ⟨blocks, done⟩ l = ⟨blocks, .leaf l :: done⟩ := by
      cases blocks <;> simp [feed, hopens, hcloses]
    rw [List.foldl_cons, hfeed, ih fun l' hl' => h l' (List.mem_cons_of_mem _ hl')]
    simp

/-- A bracket, what stands in it, and its closing bracket form a block. -/
theorem foldl_feed_block {opener closer : Lexeme} {bracket : Bracket} {inner : List Component}
    (hopener : opener.token.opens? = some bracket) (hcloser : closer.token.opens? = none)
    (hcloses : closer.token.closes? = some bracket)
    (hinner : ∀ blocks, (Component.lexemesAll inner).foldl feed ⟨blocks, []⟩ =
      ⟨blocks, inner.reverse⟩) (more : List Lexeme) :
    (opener :: (Component.lexemesAll inner ++ closer :: more)).foldl feed ⟨blocks, done⟩ =
      more.foldl feed ⟨blocks, .block opener inner (some closer) :: done⟩ := by
  have hopen : feed ⟨blocks, done⟩ opener = ⟨⟨opener, bracket, done⟩ :: blocks, []⟩ := by
    simp [feed, hopener]
  have hclose : feed ⟨⟨opener, bracket, done⟩ :: blocks, inner.reverse⟩ closer =
      ⟨blocks, .block opener inner (some closer) :: done⟩ := by
    simp [feed, hcloser, hcloses, close]
  rw [List.foldl_cons, hopen, List.foldl_append, hinner, List.foldl_cons, hclose]

end Nesting

theorem Term.Leaf.opens_closes {t : Term} (h : t.Leaf) :
    ∀ l ∈ t.lexemes, l.token.opens? = none ∧ l.token.closes? = none := by
  cases h <;> simp [Term.lexemes, Token.opens?, Token.closes?]

namespace Layout

variable {left : Option Term} {v : Value} {cs : List Component}

theorem foldl_feed_gap (left : Option Term) (t : Term) (blocks : List OpenBlock)
    (done : List Component) :
    (Component.lexemesAll (Component.gap left t)).foldl Nesting.feed ⟨blocks, done⟩ =
      ⟨blocks, (Component.gap left t).reverse ++ done⟩ := by
  unfold Component.gap
  split
  · cases blocks <;> rfl
  · rfl

/-- The lexemes of a layout form its components, whatever was read before. -/
theorem foldl_feed (h : Layout left v cs) (blocks : List OpenBlock) (done : List Component) :
    (Component.lexemesAll cs).foldl Nesting.feed ⟨blocks, done⟩ = ⟨blocks, cs.reverse ++ done⟩ := by
  -- Inside a block nothing is done yet and one more block is open.
  induction h generalizing blocks done with
  | nil => rfl
  | leaf ht hsub hv ih =>
    rw [Component.lexemesAll_append, Component.lexemesAll_append, Component.lexemesAll_leaves,
      List.foldl_append, List.foldl_append, foldl_feed_gap,
      Nesting.foldl_feed_leaves ht.opens_closes, ih]
    simp
  | call hname hurl hfold hps hv ihps ih =>
    rw [Component.lexemesAll_append, Component.lexemesAll_block, List.foldl_append, foldl_feed_gap,
      Nesting.foldl_feed_block rfl rfl rfl fun blocks => by rw [ihps, List.append_nil], ih]
    simp
  | group hcontent hv ihcontent ih =>
    rw [Component.lexemesAll_append, Component.lexemesAll_block, List.foldl_append, foldl_feed_gap,
      Nesting.foldl_feed_block rfl rfl rfl fun blocks => by rw [ihcontent, List.append_nil], ih]
    simp

theorem ofLexemes (h : Layout left v cs) : Component.ofLexemes (Component.lexemesAll cs) = cs := by
  rw [Component.ofLexemes, Nesting.start, h.foldl_feed]
  simp [Nesting.finish]

/-- The text of a value has the components of its layout. -/
theorem read (h : Layout none v cs) (s : Style) : Component.read (s.render v) = cs := by
  have hends : EndsTerm [] := by simp [EndsTerm]
  have hread := h.readAll s hends
  have hnil : Lexeme.readAll [] = [] := by rw [Lexeme.readAll]
  rw [List.append_nil, hnil, List.append_nil] at hread
  rw [Component.read, Style.render, String.toList_ofList, hread, h.ofLexemes]

end Layout

end Scss
