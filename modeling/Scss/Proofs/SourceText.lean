import Scss.Proofs.Nesting
import Scss.Stylesheet.Read

/-!
# Reading loses no text

What follows a token is an end of the text, so the lexemes of a text, put together, are the text
again; and so are the components that they form.  The statements of a stylesheet are pieces of
its text.  Nothing that was read before a component has to do with it: the end of a text that
follows some of its components is read on its own as those that remain.

## Main definitions

* `Nesting.text`: the text of what has been read while blocks are open

## Main results

* `Lexeme.flatMap_source_readAll`: the lexemes of a text make up the text
* `Component.sourceAll_read`: the components of a text make up the text
* `Component.read_of_append`: what follows some components is read on its own
* `Component.infix_of_mem_statements`: a statement is a piece of the components
-/

namespace Scss

/-! ## Lexemes and components -/

/-- The lexemes of a text make up the text. -/
theorem Lexeme.flatMap_source_readAll (s : List Char) :
    (Lexeme.readAll s).flatMap Lexeme.source = s := by
  fun_induction Lexeme.readAll s with
  | case1 => rfl
  | case2 c rest hlength after ih =>
    obtain ⟨source, hsource⟩ := (Token.suffix_read c rest).trans (List.suffix_cons c rest)
    rw [List.flatMap_cons, ih]
    dsimp only
    rw [← hsource]
    simp [after]

/-- Lexemes at the end of a text are those of its end. -/
theorem Lexeme.readAll_of_append {s : List Char} {ms ns : List Lexeme}
    (h : Lexeme.readAll s = ms ++ ns) : Lexeme.readAll (ns.flatMap Lexeme.source) = ns := by
  induction ms generalizing s with
  | nil => rw [← List.nil_append ns, ← h, Lexeme.flatMap_source_readAll]
  | cons m ms ih =>
    match s with
    | [] => simp [Lexeme.readAll] at h
    | c :: rest =>
      rw [Lexeme.readAll] at h
      exact ih (List.cons.inj h).2

theorem Component.sourceAll_append (cs cs' : List Component) :
    sourceAll (cs ++ cs') = sourceAll cs ++ sourceAll cs' := by
  induction cs with
  | nil => rw [sourceAll, List.nil_append, List.nil_append]
  | cons c rest ih => rw [List.cons_append, sourceAll, sourceAll, ih, List.append_assoc]

namespace Nesting

/-- The text read so far: that of the blocks still open, the innermost first, and of the components
after the innermost opening bracket, the last one first. -/
def text : List OpenBlock → List Component → List Char
  | [], done => Component.sourceAll done.reverse
  | block :: outer, done =>
    text outer block.before ++ block.opener.source ++ Component.sourceAll done.reverse

theorem text_cons (blocks : List OpenBlock) (c : Component) (done : List Component) :
    text blocks (c :: done) = text blocks done ++ c.source := by
  have hreverse : Component.sourceAll (c :: done).reverse =
      Component.sourceAll done.reverse ++ c.source := by
    rw [List.reverse_cons, Component.sourceAll_append, Component.sourceAll, Component.sourceAll,
      List.append_nil]
  cases blocks with
  | nil => exact hreverse
  | cons block outer => rw [text, text, hreverse, ← List.append_assoc]

theorem text_close (closer : Option Lexeme) (block : OpenBlock) (outer : List OpenBlock)
    (done : List Component) :
    text outer (close closer block outer done).done =
      text (block :: outer) done ++ closer.elim [] Lexeme.source := by
  rw [close, text_cons, Component.source, text]
  simp only [List.append_assoc]

/-- A lexeme adds its own text. -/
theorem text_feed (n : Nesting) (l : Lexeme) :
    text (n.feed l).blocks (n.feed l).done = text n.blocks n.done ++ l.source := by
  obtain ⟨blocks, done⟩ := n
  have hleaf : text blocks (.leaf l :: done) = text blocks done ++ l.source := by
    rw [text_cons, Component.source]
  cases hopens : l.token.opens? with
  | some bracket =>
    simp only [feed, hopens]
    rw [text, List.reverse_nil, Component.sourceAll, List.append_nil]
  | none =>
    cases blocks with
    | nil =>
      simp only [feed, hopens]
      exact hleaf
    | cons block outer =>
      by_cases hcloses : l.token.closes? = some block.bracket
      · simp only [feed, hopens, if_pos hcloses]
        exact text_close (some l) block outer done
      · simp only [feed, hopens, if_neg hcloses]
        exact hleaf

theorem text_foldl_feed (ls : List Lexeme) (n : Nesting) :
    text (ls.foldl feed n).blocks (ls.foldl feed n).done =
      text n.blocks n.done ++ ls.flatMap Lexeme.source := by
  induction ls generalizing n with
  | nil => rw [List.foldl_nil, List.flatMap_nil, List.append_nil]
  | cons l ls ih => rw [List.foldl_cons, ih, text_feed, List.flatMap_cons, List.append_assoc]

/-- The end of the text closes all blocks and adds nothing. -/
theorem sourceAll_finish (blocks : List OpenBlock) (done : List Component) :
    Component.sourceAll (finish blocks done) = text blocks done := by
  induction blocks generalizing done with
  | nil => rfl
  | cons block outer ih => rw [finish, ih, text_close, Option.elim_none, List.append_nil]

end Nesting

namespace Component

/-- The components of some lexemes have their text. -/
theorem sourceAll_ofLexemes (ls : List Lexeme) :
    sourceAll (ofLexemes ls) = ls.flatMap Lexeme.source := by
  rw [ofLexemes, Nesting.sourceAll_finish, Nesting.text_foldl_feed]
  simp [Nesting.start, Nesting.text, sourceAll]

/-- The components of a text make up the text. -/
theorem sourceAll_read (text : String) : sourceAll (read text) = text.toList := by
  rw [read, sourceAll_ofLexemes, Lexeme.flatMap_source_readAll]

/-- What follows some components is read on its own. -/
theorem read_of_append {text : String} {before rest : List Component}
    (h : read text = before ++ rest) : ofLexemes (Lexeme.readAll (sourceAll rest)) = rest := by
  obtain ⟨ms, ns, hlexemes, rfl⟩ := ofLexemes_of_append h
  rw [sourceAll_ofLexemes, Lexeme.readAll_of_append hlexemes]

/-- The first statement is at the start of the components, and the others are further on. -/
theorem exists_statements (cs : List Component) :
    ∃ first others, statements cs = first :: others ∧ first <+: cs ∧
      ∀ part ∈ others, part <:+: cs := by
  induction cs with
  | nil => exact ⟨[], [], rfl, List.prefix_rfl, by simp⟩
  | cons c rest ih =>
    obtain ⟨first, others, heq, hfirst, hothers⟩ := ih
    have hlater : ∀ part ∈ others, part <:+: c :: rest := fun part hpart =>
      List.infix_cons (hothers part hpart)
    by_cases hc : c.token = .semicolon
    · refine ⟨[], first :: others, by rw [statements, if_pos hc, heq], List.nil_prefix, ?_⟩
      exact List.forall_mem_cons.2 ⟨List.infix_cons hfirst.isInfix, hlater⟩
    · refine ⟨c :: first, others, by rw [statements, if_neg hc, heq], ?_, hlater⟩
      exact List.cons_prefix_cons.2 ⟨rfl, hfirst⟩

/-- A statement is a piece of the components. -/
theorem infix_of_mem_statements {cs part : List Component} (h : part ∈ statements cs) :
    part <:+: cs := by
  obtain ⟨first, others, heq, hfirst, hothers⟩ := exists_statements cs
  rw [heq] at h
  rcases List.mem_cons.1 h with rfl | h
  · exact hfirst.isInfix
  · exact hothers part h

/-- A statement of a stylesheet is a piece of its text. -/
theorem sourceAll_infix_of_mem_statements {text : String} {part : List Component}
    (h : part ∈ statements (read text)) : sourceAll part <:+: text.toList := by
  obtain ⟨before, after, heq⟩ := infix_of_mem_statements h
  refine ⟨sourceAll before, sourceAll after, ?_⟩
  rw [← sourceAll_append, ← sourceAll_append, heq, sourceAll_read]

end Component

end Scss
