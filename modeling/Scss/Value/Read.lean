import Scss.Arithmetic.Division
import Scss.Function.Builtin
import Scss.Token.SyntaxError

/-!
# Reading values

The components of a value are read from left to right into a draft.  A draft knows whether a space
was seen last, which decides what a minus sign means and whether neighbouring words belong
together, and what it waits for: after `$` a name, after `#` a block with a marker, after `!` a
flag.  The text of a number is read exactly, unless a comment or an escape hides it; then the
single precision number of its token is taken.

## Main definitions

* `Component.skip`, `Component.name`, `Component.marker`: pieces shared with statements;
* `Draft`, with `Draft.readAll`: components read into a draft;
* `Value.read`: the value of a text.
-/

namespace Scss

namespace Component

/-- Skips the components that `drop` accepts, with the position after them. -/
def skip (drop : Component → Bool) (p : Position) : List Component → Position × List Component
  | [] => (p, [])
  | c :: rest => if drop c then skip drop (p.advance c.source) rest else (p, c :: rest)

/-- Reads a name, perhaps after comments: the name, the position after it, and what follows. -/
def name (p : Position) (cs : List Component) :
    Except SyntaxError (String × Position × List Component) :=
  let (p, cs) := skip isComment p cs
  match cs with
  | [] => .error (.atEnd p)
  | c :: rest =>
    match c.token with
    | .ident name => .ok (name, p.advance c.source, rest)
    | _ => .error (.unexpected p c)

/-- Reads what a marker holds between its braces: a `$` and a name. -/
def markerName (p : Position) (inner : List Component) : Except SyntaxError String := do
  match skip isBlank p inner with
  | (p, []) => throw (.atEnd p)
  | (q, c :: rest) =>
    if c.token = .delim '$' then
      let (name, p, rest) ← name (q.advance c.source) rest
      match skip isBlank p rest with
      | (_, []) => return name
      | (_, c :: _) => throw (.unexpectedAfter p c)
    else throw (.unexpectedAfter p c)

/-- The text of the marker with a given name. -/
def markerText (name : String) : String :=
  "#\x7b$" ++ name ++ "\x7d"

/-- Reads the block of a marker that starts at `p`. -/
def marker (p : Position) : Component → Except SyntaxError String
  | .block opener inner closer =>
    if opener.token = .opening .curly then
      (markerName (p.advance opener.source) inner).map markerText
    else .error (.unexpected p (.block opener inner closer))
  | c => .error (.unexpected p c)

end Component

/-- The flags after a value. -/
structure Flags where
  /-- The flag `!important`. -/
  important : Bool
  /-- The flag `!default`. -/
  default : Bool
  deriving DecidableEq, Repr

/-- What a draft waits for. -/
inductive Awaiting where
  /-- The next term. -/
  | term
  /-- The name after a `$`. -/
  | name
  /-- The block after a `#`. -/
  | marker
  /-- The name of a flag after a `!` that ends at `start`. -/
  | flag (start : Position)

/-- A value being read. -/
structure Draft where
  /-- The terms so far. -/
  terms : Value
  /-- Whether whitespace, or nothing, was read last. -/
  spaced : Bool
  /-- Whether a comment was read last. -/
  commented : Bool
  /-- What must come next. -/
  awaiting : Awaiting
  /-- The flags so far. -/
  flags : Flags
  /-- Whether flags may be written. -/
  allowsFlags : Bool

/-- The call `name(parameters)`, or the colour of `rgb` and `rgba` with literal arguments. -/
def foldColor (name : String) (parameters : Value) : Term :=
  let isLiteral : Term → Bool
    | .number _ | .dimension _ _ | .color _ | .separator .comma => true
    | _ => false
  let generator? :=
    if name = "rgb" then some Generator.rgb
    else if name = "rgba" then some Generator.rgba
    else none
  match generator? with
  | none => .call name parameters
  | some generator =>
    if parameters.all isLiteral then
      match generator.apply ⟨name, parameters⟩ .standard with
      | .ok (.value (.color c :: _)) => .color c
      | _ => .call name parameters
    else .call name parameters

namespace Draft

/-- An empty draft. -/
def start (allowsFlags : Bool) : Draft :=
  { terms := [], spaced := true, commented := false, awaiting := .term,
    flags := ⟨false, false⟩, allowsFlags }

/-- Adds terms. -/
def push (d : Draft) (ts : Value) : Draft :=
  { d with terms := d.terms ++ ts, spaced := false, commented := false, awaiting := .term }

/-- Adds text to the last word if `joins` accepts that word and no space was read since; otherwise
adds a word. -/
def pushWord (d : Draft) (joins : String → Bool) (text : String) : Draft :=
  match d.terms.getLast? with
  | some (.word before) =>
    if !d.spaced && joins before then
      { d with terms := d.terms.dropLast }.push [.word (before ++ text)]
    else d.push [.word text]
  | _ => d.push [.word text]

/-- Waits for something. -/
def await (d : Draft) (what : Awaiting) : Draft :=
  { d with awaiting := what, commented := false }

/-- Whether a sign right after the last term joins it with the next one. -/
def endsInOperand (d : Draft) : Bool :=
  match d.terms.getLast? with
  | some (.number _) | some (.dimension _ _) | some (.variable _) | some (.call _ _)
  | some (.operator .rightParen) => true
  | _ => false

/-- Whether the last term is an item, to the right of which a minus sign may belong to the next
one. -/
def endsInItem (d : Draft) : Bool :=
  match d.terms.getLast? with
  | none | some (.separator _) => false
  | some (.operator o) => o == .rightParen
  | some _ => true

/-- Adds the number of a token.  Its text is read exactly if it stands in the source as it is; a
sign right after an operand becomes an operator. -/
def pushNumber (d : Draft) (source : List Char) (n : Numeral) (unit : String)
    (single : Float32) : Draft :=
  let value :=
    if !d.commented && source == n.text ++ unit.toList then n.exact else Single.widen single
  if n.sign.isSome && !d.commented && !d.spaced && d.endsInOperand then
    d.push [.operator (if n.negative then .sub else .add), .measure value.abs unit]
  else d.push [.measure value unit]

/-- Adds a hexadecimal colour, or the word that is written like one. -/
def pushHash (d : Draft) (text : String) : Draft :=
  match Color.ofHex? text with
  | some c => d.push [.color c]
  | none => d.push [.word ("#" ++ text)]

/-- Sets a flag. -/
def setFlag (d : Draft) (after : Position) (flag : String) : Except SyntaxError Draft :=
  let lower := flag.toList.map Char.toLower
  if lower == "important".toList then
    .ok ({ d with flags := { d.flags with important := true } }.push [])
  else if lower == "default".toList then
    .ok ({ d with flags := { d.flags with default := true } }.push [])
  else .error ⟨after, .unknownFlag flag⟩

/-- Reads a token that starts a term.  `after` is the position after it, and `glued` tells whether
something follows without a space. -/
def readTerm (d : Draft) (after : Position) (glued : Bool) (l : Lexeme) :
    Except SyntaxError Draft :=
  match l.token with
  | .number n => .ok (d.pushNumber l.source n "" (Single.ofDouble n.approximate))
  | .dimension n unit => .ok (d.pushNumber l.source n unit (Single.ofDouble n.approximate))
  | .percentage n =>
    .ok (d.pushNumber l.source n "%" (Single.ofDouble (n.approximate / 100) * 100))
  | .ident text => .ok (d.pushWord (·.toList.getLast? == some '\x7d') text)
  | .quotedString text => .ok (d.push [.string text])
  | .hash text | .idHash text => .ok (d.pushHash text)
  | .unquotedUrl url => .ok (d.push [.word ("url(" ++ url ++ ")")])
  | .comma => .ok (d.push [.separator .comma])
  | .delim '+' => .ok (d.push [.operator .add])
  | .delim '*' => .ok (d.push [.operator .mul])
  | .delim '/' => .ok (d.push [.operator .div])
  | .delim '-' =>
    .ok (d.push [.operator (if d.spaced && d.endsInItem && glued then .neg else .sub)])
  | .delim '$' => .ok (d.await .name)
  | .delim '#' => .ok (d.await .marker)
  | .delim '!' =>
    if d.allowsFlags then .ok (d.await (.flag after)) else .error ⟨after, .unexpected l.token⟩
  | token => .error ⟨after, .unexpected token⟩

/-- Reads a lexeme that starts at `p`. -/
def readLeaf (d : Draft) (p : Position) (glued : Bool) (l : Lexeme) : Except SyntaxError Draft :=
  let after := p.advance l.source
  match d.awaiting, l.token with
  | _, .comment _ => .ok { d with commented := true }
  | .term, .whitespace _ => .ok { d with spaced := true, commented := false }
  | .term, _ => d.readTerm after glued l
  | .name, .ident name => .ok (d.push [.reference name])
  | .flag _, .whitespace _ => .ok d
  | .flag _, .ident flag => d.setFlag after flag
  | .flag start, token => .error ⟨start, .unexpected token⟩
  | _, token => .error ⟨after, .unexpected token⟩

/-- The end of the value at `p`. -/
def finish (d : Draft) (p : Position) : Except SyntaxError Draft :=
  match d.awaiting with
  | .term => .ok d
  | _ => .error (.atEnd p)

/-- Whether the components start with something other than whitespace, comments apart. -/
def isGlued (rest : List Component) : Bool :=
  match rest.dropWhile Component.isComment with
  | [] => false
  | c :: _ => !c.isWhitespace

mutual

/-- Reads a component that starts at `p`. -/
def readComponent (d : Draft) (p : Position) (glued : Bool) : Component → Except SyntaxError Draft
  | .leaf l => d.readLeaf p glued l
  | .block opener inner closer =>
    match d.awaiting, opener.token with
    | .term, .opening .round => do
      let content ← readAll (.start false) (p.advance opener.source) inner
      return d.push (.operator .leftParen :: content.terms ++ [.operator .rightParen])
    | .term, .function name => do
      let content ← readAll (.start false) (p.advance opener.source) inner
      return d.push [foldColor name content.terms]
    | .marker, _ => do
      let text ← Component.marker p (.block opener inner closer)
      return d.pushWord (fun _ => true) text
    | .flag start, token => .error ⟨start, .unexpected token⟩
    | _, token => .error ⟨p.advance opener.source, .unexpected token⟩

/-- Reads components, the first of which starts at `p`, to their end. -/
def readAll (d : Draft) (p : Position) : List Component → Except SyntaxError Draft
  | [] => d.finish p
  | c :: rest => do
    let d ← readComponent d p (isGlued rest) c
    readAll d (p.advance c.source) rest

end

end Draft

/-- Reads a value.  Its slashes are told apart when all of it has been read. -/
def Value.read (text : String) : Except SyntaxError Value := do
  let draft ← Draft.readAll (.start false) .start (Component.read text)
  return draft.terms.classify

end Scss
