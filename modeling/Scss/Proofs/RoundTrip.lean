import Scss.Proofs.Arguments
import Scss.Proofs.Layout
import Scss.Proofs.Values
import Scss.Result

/-!
# Written values read back

The components of a layout are read, one after the other, as the terms that were laid out.  A value
has a layout if its terms can be read from their texts and its parentheses are nested properly, so
such a value is what its text is read as.

## Main definitions

* `Draft.Reads`: some components are read to their end, as a value
* `Value.Legible`: a value that can be read from its text
* `Closes`: a value that closes parentheses it did not open

## Main results

* `Layout.reads`: the components of a layout are read as the value that was laid out
* `foldColor_of_legible`: a call with legible parameters is not read as a colour
* `Value.closes_of_legible`: a legible value has a layout
* `Value.read_render`: what is written is read back
-/

namespace Scss

/-! ## From components to values -/

/-- A plain word has no `$` to take off. -/
theorem bareName_of_spells {name : String} (h : Word.spells name.toList = true) :
    bareName name = name := by
  unfold bareName
  split
  · rename_i rest hname
    rw [hname] at h
    cases h
  · rfl

namespace Draft

variable {d : Draft} {left : Option Term} {t : Term} {cs : List Component} {v : Value}

/-- The draft is ready for a value that follows `left`: if no space may stand after `left`, one
counts as read. -/
structure Ready (d : Draft) (left : Option Term) : Prop where
  awaiting : d.awaiting = .term
  spaced : left.any Term.spaceAfter = false → d.spaced = true

/-- The components are read to their end and add the terms of the value. -/
def Reads (d : Draft) (cs : List Component) (v : Value) : Prop :=
  ∀ p, ∃ d', readAll d p cs = .ok d' ∧ d'.terms = d.terms ++ v

theorem ready_start (allowsFlags : Bool) : (start allowsFlags).Ready left :=
  ⟨rfl, fun _ => rfl⟩

theorem ready_push (d : Draft) (ts : Value) (ht : t.spaceAfter = true) :
    (d.push ts).Ready (some t) :=
  ⟨rfl, fun h => by simp [ht] at h⟩

theorem Ready.reads_nil (h : d.Ready left) : d.Reads [] [] := by
  intro p
  refine ⟨d, ?_, by simp⟩
  rw [readAll, finish, h.awaiting]

/-- A component that is read adds its terms before those of the components after it. -/
theorem Reads.cons {c : Component} (d₁ : Draft) (ts : Value)
    (hc : ∀ p, readComponent d p (isGlued cs) c = .ok d₁) (hterms : d₁.terms = d.terms ++ ts)
    (hrest : d₁.Reads cs v) : d.Reads (c :: cs) (ts ++ v) := by
  intro p
  obtain ⟨d', hread, hd'⟩ := hrest (p.advance c.source)
  refine ⟨d', ?_, by rw [hd', hterms, List.append_assoc]⟩
  rw [readAll, hc p]
  exact hread

theorem Reads.push {l : Lexeme}
    (hl : ∀ p, d.readLeaf p (isGlued cs) l = .ok (d.push [t])) (hrest : (d.push [t]).Reads cs v) :
    d.Reads (.leaf l :: cs) (t :: v) :=
  Reads.cons (d.push [t]) [t] (fun p => by rw [readComponent, hl p]) rfl hrest

/-- A space between terms adds nothing, and after it a space counts as read. -/
theorem Ready.reads_gap (h : d.Ready left) (ht : t.spaceBefore = true)
    (hcs : ∀ d₁ : Draft, d₁.awaiting = .term → d₁.spaced = true → d₁.Reads cs v) :
    d.Reads (Component.gap left t ++ cs) v := by
  unfold Component.gap
  split
  · refine Reads.cons { d with spaced := true, commented := false } [] ?_ (by simp)
      (hcs _ h.awaiting rfl)
    intro p
    simp [readComponent, readLeaf, Lexeme.space, h.awaiting]
  · -- There is no gap because no space may follow `left`, and then one counts as read.
    rename_i hspace
    refine hcs d h.awaiting (h.spaced ?_)
    cases left with
    | none => rfl
    | some u => simpa [needsSpace_eq, ht] using hspace

theorem pushWord_of_spaced (h : d.spaced = true) (joins : String → Bool)
    (text : String) : d.pushWord joins text = d.push [.word text] := by
  unfold pushWord
  split
  · simp [h]
  · rfl

/-- The lexemes of a simple term after a space are read as the term.  A minus sign is a difference
if nothing is glued to it. -/
theorem reads_leaf (ht : t.Leaf)
    (hglued : t.isOperator .sub = true → isGlued cs = false) (hawaiting : d.awaiting = .term)
    (hspaced : t.spaceBefore = true → d.spaced = true)
    (hrest : ∀ d₁ : Draft, d₁.Ready (some t) → d₁.Reads cs v) :
    d.Reads (t.lexemes.map .leaf ++ cs) (t :: v) := by
  have hready : ∀ d₁ : Draft, (d₁.push [t]).Reads cs v := fun d₁ =>
    hrest _ (d₁.ready_push [t] ht.spaceAfter)
  cases ht with
  | string h => exact .push (fun p => by simp [readLeaf, hawaiting, readTerm]) (hready d)
  | word h =>
    refine .push (fun p => ?_) (hready d)
    simp [readLeaf, hawaiting, readTerm, pushWord_of_spaced (hspaced rfl)]
  | @reference name h =>
    have hname : Term.reference name = .variable name := by
      rw [Term.reference, bareName_of_spells h]
    -- The sign adds nothing yet: the term is there when its name is read.
    refine Reads.cons (d.await .name) [] (fun p => ?_) (by simp [await]) ?_
    · simp [readComponent, readLeaf, hawaiting, readTerm]
    · exact .push (fun p => by simp [readLeaf, await, hname]) (hready _)
  | sign h =>
    refine .push (fun p => ?_) (hready d)
    rcases h with rfl | rfl | rfl
    · simp [readLeaf, hawaiting, readTerm, Operator.symbol]
    · simp [readLeaf, hawaiting, readTerm, Operator.symbol, hglued rfl]
    · simp [readLeaf, hawaiting, readTerm, Operator.symbol]
  | comma => exact .push (fun p => by simp [readLeaf, hawaiting, readTerm]) (hready d)

theorem reads_group {inner : List Component} {content : Value}
    (hawaiting : d.awaiting = .term) (hinner : (start false).Reads inner content)
    (hrest : ∀ d₁ : Draft, d₁.Ready (some (.operator .rightParen)) → d₁.Reads cs v) :
    d.Reads (.block .openParen inner (some .closeParen) :: cs)
      (.operator .leftParen :: (content ++ .operator .rightParen :: v)) := by
  have hgroup : Term.operator .leftParen :: (content ++ .operator .rightParen :: v) =
      (.operator .leftParen :: content ++ [.operator .rightParen]) ++ v := by simp
  rw [hgroup]
  refine Reads.cons (d.push _) _ (fun p => ?_) rfl (hrest _ (d.ready_push _ rfl))
  obtain ⟨d', hread, hterms⟩ := hinner (p.advance Lexeme.openParen.source)
  rw [readComponent, hawaiting, hread]
  simp [Lexeme.openParen, hterms, start, bind, Except.bind, pure, Except.pure]

theorem reads_call {name : String} {inner : List Component} {parameters : Value}
    (hawaiting : d.awaiting = .term) (hinner : (start false).Reads inner parameters)
    (hfold : foldColor name parameters = .call name parameters)
    (hrest : ∀ d₁ : Draft, d₁.Ready (some (.call name parameters)) → d₁.Reads cs v) :
    d.Reads (.block (.openCall name) inner (some .closeParen) :: cs)
      (.call name parameters :: v) := by
  refine Reads.cons (d.push [_]) [_] (fun p => ?_) rfl (hrest _ (d.ready_push _ rfl))
  obtain ⟨d', hread, hterms⟩ := hinner (p.advance (Lexeme.openCall name).source)
  rw [readComponent, hawaiting, hread]
  simp [Lexeme.openCall, hterms, start, hfold, bind, Except.bind, pure, Except.pure]

end Draft

namespace Layout

variable {left : Option Term} {t : Term} {v : Value} {cs : List Component}

/-- Nothing is glued to a term that a space may follow, unless a comma comes next. -/
theorem isGlued (h : Layout (some t) v cs) (ht : t.spaceAfter = true)
    (hv : v.head?.any Term.isComma = false) : Draft.isGlued cs = false := by
  rcases h.eq_nil_or_comma_or_space ht with ⟨-, rfl⟩ | ⟨rest, rfl⟩ | ⟨u, rest, more, -, -, rfl⟩
  · rfl
  · cases hv
  · rfl

/-- The components of a layout are read as the value that was laid out. -/
theorem reads (h : Layout left v cs) {d : Draft} (hd : d.Ready left) : d.Reads cs v := by
  induction h generalizing d with
  | nil => exact hd.reads_nil
  | @leaf left t v cs ht hsub hv ih =>
    have hglued : t.isOperator .sub = true → Draft.isGlued cs = false := fun h =>
      hv.isGlued ht.spaceAfter (hsub h)
    rw [List.append_assoc]
    by_cases hbefore : t.spaceBefore = true
    · exact hd.reads_gap hbefore fun d₁ hawaiting hspaced =>
        Draft.reads_leaf ht hglued hawaiting (fun _ => hspaced) fun _ => ih
    · have hgap : Component.gap left t = [] := by
        cases left <;> simp [Component.gap, needsSpace_eq, hbefore]
      rw [hgap, List.nil_append]
      exact Draft.reads_leaf ht hglued hd.awaiting (fun h => absurd h hbefore) fun _ => ih
  | call hname hurl hfold hps hv ihps ih =>
    exact hd.reads_gap rfl fun d₁ hawaiting _ =>
      Draft.reads_call hawaiting (ihps (Draft.ready_start false)) hfold fun _ => ih
  | group hcontent hv ihcontent ih =>
    exact hd.reads_gap rfl fun d₁ hawaiting _ =>
      Draft.reads_group hawaiting (ihcontent (Draft.ready_start false)) fun _ => ih

end Layout

/-! ## Legible values -/

namespace Value

/-- Whether the parentheses are nested properly, `depth` of them being open. -/
def nests : Nat → Value → Bool
  | depth, [] => depth == 0
  | depth, .operator .leftParen :: rest => nests (depth + 1) rest
  | 0, .operator .rightParen :: _ => false
  | depth + 1, .operator .rightParen :: rest => nests depth rest
  | depth, _ :: rest => nests depth rest

/-- Whether a comma stands right after a minus sign. -/
def subtractsComma : Value → Bool
  | [] => false
  | t :: rest => t.isOperator .sub && rest.head?.any Term.isComma || subtractsComma rest

end Value

mutual

/-- Whether the term can be read from its text: strings without line ends and NUL, plain words and
references to them, commas, parentheses and signs other than a slash or a sign that belongs to one
term, and calls with legible parameters. -/
def Term.legible : Term → Bool
  | .string text => Text.isUnbroken text.toList
  | .word text => Word.spells text.toList
  | .variable name => Word.spells name.toList
  | .call name parameters =>
    Word.spells name.toList && name.toList.map Char.toLower != ['u', 'r', 'l'] &&
      Value.nests 0 parameters && !Value.subtractsComma parameters && Value.termsLegible parameters
  | .operator o => o != .div && o != .neg
  | .separator s => s == .comma
  | _ => false

/-- Whether each term can be read from its text. -/
def Value.termsLegible : Value → Bool
  | [] => true
  | t :: rest => t.legible && Value.termsLegible rest

end

/-- A value that can be read from its text: its terms are legible, its parentheses are nested
properly, and no minus sign stands right before a comma, at any depth. -/
def Value.Legible (v : Value) : Prop :=
  v.termsLegible = true ∧ v.nests 0 = true ∧ v.subtractsComma = false

instance (v : Value) : Decidable v.Legible :=
  inferInstanceAs (Decidable (_ ∧ _ ∧ _))

theorem Value.termsLegible_cons {t : Term} {rest : Value} :
    Value.termsLegible (t :: rest) = true ↔ t.legible = true ∧ rest.termsLegible = true := by
  rw [termsLegible, Bool.and_eq_true]

theorem Value.legible_of_mem {v : Value} {t : Term} (h : v.termsLegible = true) (ht : t ∈ v) :
    t.legible = true := by
  induction v with
  | nil => cases ht
  | cons u rest ih =>
    obtain ⟨hu, hrest⟩ := termsLegible_cons.1 h
    rcases List.mem_cons.1 ht with rfl | ht
    · exact hu
    · exact ih hrest ht

/-- A legible call has a plain name other than `url` and legible parameters. -/
theorem Term.legible_call {name : String} {parameters : Value}
    (h : (Term.call name parameters).legible = true) :
    Word.spells name.toList = true ∧ name.toList.map Char.toLower ≠ ['u', 'r', 'l'] ∧
      parameters.Legible := by
  simp only [Term.legible, Bool.and_eq_true, bne_iff_ne, Bool.not_eq_true'] at h
  obtain ⟨⟨⟨⟨hname, hurl⟩, hnests⟩, hsub⟩, hterms⟩ := h
  exact ⟨hname, hurl, hterms, hnests, hsub⟩

/-- A legible term other than a call is a simple one or a parenthesis. -/
theorem Term.leaf_or_paren_of_legible {t : Term} (h : t.legible = true)
    (hcall : t.isCall = false) :
    t.Leaf ∨ t = .operator .leftParen ∨ t = .operator .rightParen := by
  cases t with
  | string text => exact .inl (.string h)
  | word text => exact .inl (.word h)
  | «variable» name => exact .inl (.reference h)
  | operator o =>
    cases o with
    | add => exact .inl (.sign (.inl rfl))
    | sub => exact .inl (.sign (.inr (.inl rfl)))
    | mul => exact .inl (.sign (.inr (.inr rfl)))
    | div | neg => cases h
    | leftParen => exact .inr (.inl rfl)
    | rightParen => exact .inr (.inr rfl)
  | separator sep =>
    cases sep with
    | comma => exact .inl .comma
    | slash => cases h
  | call name parameters => cases hcall
  | number | dimension | color => cases h

/-- Simple terms open and close nothing. -/
theorem Value.nests_leaf {t : Term} (ht : t.Leaf) (depth : Nat) (rest : Value) :
    nests depth (t :: rest) = nests depth rest := by
  cases ht with
  | sign h => rcases h with rfl | rfl | rfl <;> rw [nests] <;> simp
  | _ => rw [nests] <;> simp

/-- A legible value has no slashes to tell apart. -/
theorem Value.classify_of_legible {v : Value} (h : v.termsLegible = true) : v.classify = v := by
  have hafter : ∀ left busy, classifyAfter left busy v = v := by
    induction v using Value.induction with
    | nil => simp [classifyAfter]
    | call name parameters rest ihps ih =>
      intro left busy
      obtain ⟨hcall, hrest⟩ := termsLegible_cons.1 h
      obtain ⟨-, -, hps, -⟩ := Term.legible_call hcall
      rw [classifyAfter, Term.classify, ihps hps, ih hrest]
      rfl
    | other t rest ht ih =>
      intro left busy
      obtain ⟨hlegible, hrest⟩ := termsLegible_cons.1 h
      have hdiv : t.isOperator .div = false := by
        rcases Term.leaf_or_paren_of_legible hlegible ht with hleaf | rfl | rfl
        · exact hleaf.isOperator_div
        · rfl
        · rfl
      rw [classifyAfter, Term.classify_of_isCall_eq_false ht, hdiv, ih hrest]
      rfl
  exact hafter _ _

/-! ## Calls that are no colours -/

/-- Commas alone separate empty arguments. -/
theorem Value.eq_nil_of_mem_arguments {v : Value} (h : ∀ t ∈ v, t.isComma = true) {part : Value}
    (hpart : part ∈ v.arguments) : part = [] := by
  unfold arguments at hpart
  split at hpart
  · cases hpart
  · refine List.eq_nil_iff_forall_not_mem.2 fun t ht => ?_
    exact isComma_of_notMem (comma_notMem_of_mem_commaParts hpart) ht
      (h t (mem_of_mem_commaParts hpart ht))

/-- The functions that make colours of channels fail if there are no channels between the commas. -/
theorem Generator.apply_of_commas {generator : Generator}
    (hgenerator : generator = rgb ∨ generator = rgba) (call : Call)
    (h : ∀ t ∈ call.parameters, t.isComma = true) (s : Style) :
    ∃ e, generator.apply call s = .error e := by
  -- Whatever number of arguments is asked for, the first of them is empty.
  have hempty : ∀ {least most : Nat} {first : Value} {rest : List Value},
      call.arguments least most = .ok (first :: rest) → first = [] := by
    intro least most first rest hargs
    obtain ⟨hparts, -⟩ := Call.arguments_eq_ok_iff.1 hargs
    exact Value.eq_nil_of_mem_arguments h (by rw [hparts]; exact List.mem_cons_self)
  cases hout : generator.apply call s with
  | error e => exact ⟨e, rfl⟩
  | ok out =>
    rcases hgenerator with rfl | rfl
    · obtain ⟨arguments, hargs, hout⟩ := bind_eq_ok_iff.1 hout
      obtain ⟨r, hr, -⟩ := bind_eq_ok_iff.1 hout
      cases arguments with
      | nil => cases hr
      | cons first rest =>
        cases hempty hargs
        cases hr
    · obtain ⟨arguments, hargs, hout⟩ := bind_eq_ok_iff.1 hout
      split at hout
      · obtain ⟨c, hc, -⟩ := bind_eq_ok_iff.1 hout
        cases hempty hargs
        cases hc
      · obtain ⟨r, hr, -⟩ := bind_eq_ok_iff.1 hout
        cases hempty hargs
        cases hr
      · cases hout

/-- A call with legible parameters is not read as a colour: what is literal in them is commas. -/
theorem foldColor_of_legible {parameters : Value} (h : parameters.termsLegible = true)
    (name : String) : foldColor name parameters = .call name parameters := by
  unfold foldColor
  dsimp only
  split
  · rfl
  · rename_i generator hgenerator
    split
    · rename_i hliteral
      have hcommas : ∀ t ∈ parameters, t.isComma = true := by
        intro t ht
        have hlegible := Value.legible_of_mem h ht
        have hlit := List.all_eq_true.1 hliteral t ht
        cases t with
        | separator sep =>
          cases sep with
          | comma => rfl
          | slash => cases hlegible
        | number | dimension | color => cases hlegible
        | _ => cases hlit
      have hcolor : generator = .rgb ∨ generator = .rgba := by
        split at hgenerator
        · exact .inl (Option.some.inj hgenerator).symm
        · split at hgenerator
          · exact .inr (Option.some.inj hgenerator).symm
          · cases hgenerator
      obtain ⟨e, he⟩ := Generator.apply_of_commas hcolor ⟨name, parameters⟩ hcommas .standard
      rw [he]
    · rfl

/-! ## The layout of a legible value -/

/-- A value in which `depth` parentheses are closed that it did not open: between them it is laid
out. -/
inductive Closes : Nat → Option Term → Value → Prop
  | done {left : Option Term} {v : Value} {cs : List Component} (h : Layout left v cs) :
    Closes 0 left v
  | close {depth : Nat} {left : Option Term} {content rest : Value} {cs : List Component}
    (hcontent : Layout left content cs)
    (hrest : Closes depth (some (.operator .rightParen)) rest) :
    Closes (depth + 1) left (content ++ .operator .rightParen :: rest)

namespace Closes

variable {depth : Nat} {left : Option Term} {t : Term} {v : Value}

theorem leaf (ht : t.Leaf) (hsub : t.isOperator .sub = true → v.head?.any Term.isComma = false)
    (h : Closes depth (some t) v) : Closes depth left (t :: v) := by
  cases h with
  | done hv => exact .done (.leaf ht hsub hv)
  | @close depth _ content rest cs hcontent hrest =>
    refine .close (.leaf ht (fun hminus => ?_) hcontent) hrest
    -- In front of a parenthesis that closes, no comma is next.
    cases content with
    | nil => rfl
    | cons u content => exact hsub hminus

theorem call {name : String} {parameters : Value} (hname : Word.spells name.toList = true)
    (hurl : name.toList.map Char.toLower ≠ ['u', 'r', 'l'])
    (hfold : foldColor name parameters = .call name parameters)
    (hparameters : Closes 0 none parameters) (h : Closes depth (some (.call name parameters)) v) :
    Closes depth left (.call name parameters :: v) := by
  obtain ⟨hparameters⟩ := hparameters
  cases h with
  | done hv => exact .done (.call hname hurl hfold hparameters hv)
  | close hcontent hrest => exact .close (.call hname hurl hfold hparameters hcontent) hrest

/-- An opening parenthesis pairs with the first one that is closed. -/
theorem openParen (h : Closes (depth + 1) (some (.operator .leftParen)) v) :
    Closes depth left (.operator .leftParen :: v) := by
  obtain _ | ⟨hcontent, hrest⟩ := h
  cases hrest with
  | done hv => exact .done (.group hcontent hv)
  | @close depth _ content rest cs hmore hrest =>
    have hgroup : Layout left _ _ := .group hcontent hmore
    simpa using Closes.close hgroup hrest

theorem closeParen (h : Closes depth (some (.operator .rightParen)) v) :
    Closes (depth + 1) left (.operator .rightParen :: v) := by
  have hnil : Layout left [] [] := .nil
  exact Closes.close hnil h

end Closes

/-- A legible value closes what is open before it, and is laid out in between. -/
theorem Value.closes_of_legible {v : Value} (hterms : v.termsLegible = true)
    (hsub : v.subtractsComma = false) {depth : Nat} (hnests : v.nests depth = true)
    (left : Option Term) : Closes depth left v := by
  -- Each parenthesis changes the depth, each term what stands to the left.
  induction v using Value.induction generalizing depth left with
  | nil =>
    obtain rfl : depth = 0 := by simpa [nests] using hnests
    exact .done .nil
  | call name parameters rest ihps ih =>
    obtain ⟨hcall, hrest⟩ := termsLegible_cons.1 hterms
    obtain ⟨hname, hurl, hps, hpsnests, hpssub⟩ := Term.legible_call hcall
    exact .call hname hurl (foldColor_of_legible hps name) (ihps hps hpssub hpsnests none)
      (ih hrest hsub hnests _)
  | other t rest ht ih =>
    obtain ⟨hlegible, hrest⟩ := termsLegible_cons.1 hterms
    obtain ⟨hminus, hsub⟩ := Bool.or_eq_false_iff.1 hsub
    rcases Term.leaf_or_paren_of_legible hlegible ht with hleaf | rfl | rfl
    · rw [nests_leaf hleaf] at hnests
      exact .leaf hleaf (fun h => by simpa [h] using hminus) (ih hrest hsub hnests _)
    · exact .openParen (ih hrest hsub hnests _)
    · cases depth with
      | zero => cases hnests
      | succ depth => exact .closeParen (ih hrest hsub hnests _)

/-- **What is written is read back.**  The text of a legible value, in any style, is read as that
value. -/
theorem Value.read_render {v : Value} (h : v.Legible) (s : Style) :
    Value.read (s.render v) = .ok v := by
  obtain ⟨hterms, hnests, hsub⟩ := h
  obtain ⟨hlayout⟩ := closes_of_legible hterms hsub hnests none
  obtain ⟨d, hread, hd⟩ := hlayout.reads (Draft.ready_start false) .start
  rw [Draft.start, List.nil_append] at hd
  rw [Value.read, hlayout.read s, hread]
  simp [hd, classify_of_legible hterms, bind, Except.bind, pure, Except.pure]

/-- A value with groups in calls and calls in groups, minus signs next to each other and to
parentheses, a quote and a backslash in a string, and a colour function that is given only commas. -/
def nestedValue : Value :=
  [.call "rgb" [.separator .comma, .separator .comma], .operator .sub, .operator .sub,
    .operator .leftParen, .variable "a", .operator .sub, .operator .leftParen,
    .operator .rightParen, .operator .sub, .operator .rightParen, .separator .comma,
    .operator .sub, .call "f" [.operator .leftParen, .string "\"\\", .operator .mul,
      .call "g-1" [], .operator .rightParen, .separator .comma, .variable "_b"],
    .word "red", .word "e3"]

theorem Value.read_render_nestedValue :
    nestedValue.Legible ∧ Value.read (Style.diagnostic.render nestedValue) = .ok nestedValue ∧
      Value.read ((Style.canonical 0).render nestedValue) = .ok nestedValue :=
  have hlegible : nestedValue.Legible := by decide
  ⟨hlegible, read_render hlegible _, read_render hlegible _⟩

end Scss
