import GameScript.Syntax.Token
import GameScript.Syntax.NodeKind
import GameScript.Syntax.Problem
/-!
# The parser's cursor

The grammar reads the significant tokens only: trivia is dropped, line breaks
stay (they end statements), and each identifier carries one bit saying whether
the catalog knows it as a function. It builds a `BareTree`: nodes and the
tokens it consumed, in order, without trivia and without positions; trivia is
attached afterwards (`GameScript.Syntax.Tree`).

The cursor holds the tokens not yet consumed and the parser's counters. Every
step returns the cursor it leaves behind together with a proof that no token
came back (`Step`), which is what the grammar's termination measure needs.

A problem is reported at the next unconsumed token, unless that token ends the
line (a line break or the end of input): then it is reported as an empty range
just after the last consumed token that is not a line break.
-/

namespace GameScript

/-- A significant token as the grammar sees it. -/
structure Lexeme where
  kind : TokenKind
  start : Nat
  stop : Nat
  /-- An identifier that the catalog names as a function. -/
  known : Bool
  deriving DecidableEq, Repr, Inhabited

/-- The tree the grammar builds: nodes and consumed tokens, no trivia. -/
inductive BareTree where
  | token (kind : TokenKind)
  | node (kind : NodeKind) (children : List BareTree)
  deriving Repr, Inhabited

/-- How deep expressions and block bodies may nest before the parser stops
descending. -/
def nestingLimit : Nat := 128

/-- The parser's position and counters. -/
structure Cursor where
  /-- Significant tokens not yet consumed. -/
  rest : List Lexeme
  /-- Open parentheses: while positive, line breaks after a token are
  consumed with it. -/
  parenDepth : Nat := 0
  /-- Open `begin` blocks and lambda bodies. -/
  beginDepth : Nat := 0
  /-- Expression and block nesting at the current position. -/
  nesting : Nat := 0
  /-- End of the last consumed token that is not a line break. -/
  lastEnd : Nat := 0
  /-- Problems reported so far, in order. -/
  errors : Array SyntaxError := #[]
  deriving Inhabited

/-- A parsing step from `s`: a value and a cursor that has not moved back. -/
abbrev Step (s : Cursor) (α : Type) := { p : α × Cursor // p.2.rest.length ≤ s.rest.length }

namespace Cursor

/-- The kind of the next token; the end of input once all are consumed. -/
def current (s : Cursor) : TokenKind :=
  match s.rest with
  | t :: _ => t.kind
  | [] => .eof

/-- The kind of the token after the next one. -/
def second (s : Cursor) : TokenKind :=
  match s.rest with
  | _ :: t :: _ => t.kind
  | _ => .eof

/-- At the end of input. -/
def atEnd (s : Cursor) : Bool := s.current == .eof

/-- At a line break or the end of input. -/
def atLineEnd (s : Cursor) : Bool := s.current == .newline || s.current == .eof

/-- At an identifier the catalog names as a function. -/
def atKnownFunction (s : Cursor) : Bool :=
  match s.rest with
  | t :: _ => t.kind == .ident && t.known
  | [] => false

/-- Nesting has reached the limit. -/
def tooDeep (s : Cursor) : Bool := s.nesting ≥ nestingLimit

theorem rest_ne_nil {s : Cursor} {k : TokenKind} (h : s.current = k) (hk : k ≠ .eof) :
    s.rest ≠ [] := by
  intro he
  simp only [current, he] at h
  exact hk h.symm

theorem rest_ne_nil_of_ne {s : Cursor} (h : s.current ≠ .eof) : s.rest ≠ [] :=
  rest_ne_nil rfl h

/-- Where a problem reported now points: the next token, or an empty range
after the last consumed one when the next token ends the line. -/
def problemRange (s : Cursor) : Nat × Nat :=
  match s.rest with
  | t :: _ => if t.kind == .newline then (s.lastEnd, s.lastEnd) else (t.start, t.stop)
  | [] => (s.lastEnd, s.lastEnd)

/-- Reports a problem at the current position. -/
def report (s : Cursor) (p : SyntaxProblem) : Cursor :=
  let (a, b) := s.problemRange
  { s with errors := s.errors.push ⟨p, a, b⟩ }

@[simp] theorem report_rest (s : Cursor) (p : SyntaxProblem) : (s.report p).rest = s.rest := rfl

/-- A step that consumes nothing. -/
def stay (s : Cursor) (a : α) : Step s α := ⟨(a, s), Nat.le_refl _⟩

/-- Consumes the line breaks at the front (inside parentheses). -/
def eatLineBreaks (s : Cursor) : Step s (List BareTree) :=
  match h : s.rest with
  | t :: more =>
    if t.kind == .newline then
      let ⟨⟨ts, s1⟩, h1⟩ := eatLineBreaks { s with rest := more }
      ⟨(.token .newline :: ts, s1), by simp only [h, List.length_cons] at h1 ⊢; omega⟩
    else stay s []
  | [] => stay s []
termination_by s.rest.length
decreasing_by simp [h]

/-- Consumes the next token, which must exist; inside parentheses the line
breaks right after it go with it. -/
def bumpAt (s : Cursor) (h : s.rest ≠ []) :
    { p : List BareTree × Cursor // p.2.rest.length < s.rest.length } :=
  match hr : s.rest, h with
  | t :: more, _ =>
    let s1 : Cursor :=
      { s with rest := more, lastEnd := if t.kind == .newline then s.lastEnd else t.stop }
    if s.parenDepth > 0 then
      let ⟨⟨ts, s2⟩, h2⟩ := eatLineBreaks s1
      ⟨(.token t.kind :: ts, s2), by simp only [s1] at h2; simp; omega⟩
    else ⟨([.token t.kind], s1), by simp [s1]⟩

/-- Consumes the next token whatever it is; nothing at the end of input. -/
def bumpAny (s : Cursor) : Step s (List BareTree) :=
  if h : s.rest = [] then stay s [] else
  let ⟨p, hp⟩ := bumpAt s h
  ⟨p, Nat.le_of_lt hp⟩

/-- Consumes the next token if it is of kind `k` (never the end of input). -/
def eat (s : Cursor) (k : TokenKind) : Step s (Bool × List BareTree) :=
  if s.current == k && k != .eof then
    let ⟨⟨ts, s1⟩, h1⟩ := s.bumpAny
    ⟨((true, ts), s1), h1⟩
  else stay s (false, [])

/-- Consumes a token of kind `k`, or reports it missing. -/
def expect (s : Cursor) (k : TokenKind) : Step s (Bool × List BareTree) :=
  let ⟨⟨(ok, ts), s1⟩, h1⟩ := s.eat k
  if ok then ⟨((ok, ts), s1), h1⟩ else ⟨((false, ts), s1.report (.expectedToken k)), by simpa using h1⟩

/-- Wraps the next token in an error node after reporting `p`, unless the
token is one recovery stops at or ends the line: then only reports. -/
def recover (s : Cursor) (p : SyntaxProblem) (stopAt : TokenKind → Bool) : Step s (List BareTree) :=
  if stopAt s.current || s.atLineEnd then stay (s.report p) []
  else
    let ⟨⟨ts, s1⟩, h1⟩ := (s.report p).bumpAny
    ⟨([.node .error ts], s1), by simpa using h1⟩

/-- Consumes every token left. -/
def skipAll (s : Cursor) : Step s (List BareTree) :=
  if hr : s.rest = [] then stay s [] else
  let ⟨⟨ts, s1⟩, h1⟩ := s.bumpAt hr
  let ⟨⟨more, s2⟩, h2⟩ := skipAll s1
  ⟨(ts ++ more, s2), by dsimp only at *; omega⟩
termination_by s.rest.length

/-- Consumes tokens up to the end of the line and returns them. -/
def skipLine (s : Cursor) : Step s (List BareTree) :=
  if hl : s.atLineEnd then stay s [] else
  have hne : s.rest ≠ [] := by
    intro he; simp [atLineEnd, current, he] at hl
  let ⟨⟨ts, s1⟩, h1⟩ := s.bumpAt hne
  let ⟨⟨more, s2⟩, h2⟩ := skipLine s1
  ⟨(ts ++ more, s2), by dsimp only at *; omega⟩
termination_by s.rest.length

/-- Consumes the rest of the line, but not a closing bracket opened before
it; `opened` counts the brackets opened along the way. -/
def skipNested (s : Cursor) (opened : Nat) : Step s (List BareTree) :=
  if hl : s.atLineEnd then stay s [] else
  have hne : s.rest ≠ [] := by
    intro he; simp [atLineEnd, current, he] at hl
  let k := s.current
  if (k == .rParen || k == .rBracket || k == .rBrace) && opened == 0 then stay s [] else
  let opened2 :=
    if k == .lParen || k == .lBracket || k == .lBrace then opened + 1
    else if k == .rParen || k == .rBracket || k == .rBrace then opened - 1
    else opened
  let ⟨⟨ts, s1⟩, h1⟩ := s.bumpAt hne
  let ⟨⟨more, s2⟩, h2⟩ := skipNested s1 opened2
  ⟨(ts ++ more, s2), by dsimp only at *; omega⟩
termination_by s.rest.length

/-- Expressions nested too deeply: reports it and wraps the rest of the line
in an error node, stopping before a closing bracket opened outside it. Line
breaks are not skipped inside the node even within parentheses. -/
def expressionTooDeep (s : Cursor) : Step s (List BareTree) :=
  let s0 := { s.report .expressionTooDeep with parenDepth := 0 }
  let ⟨⟨ts, s1⟩, h1⟩ := skipNested s0 0
  ⟨([.node .error ts], { s1 with parenDepth := s.parenDepth }), by simpa [s0] using h1⟩

/-- Consumes a block body up to the terminator that closes the enclosing
block; `opened` counts blocks opened along the way. -/
def skipBlock (s : Cursor) (opened : Nat) : Step s (List BareTree) :=
  if he : s.atEnd then stay s [] else
  have hne : s.rest ≠ [] := by
    intro h; simp [atEnd, current, h] at he
  let k := s.current
  let isOpener := k == .kwIf || k == .kwWhile || k == .kwForeach || k == .kwBegin
  let isCloser := k == .kwEndIf || k == .kwLoop || k == .kwEnd
  if !isOpener && !(isCloser && opened > 0) && opened == 0 && k.isBlockEnd then stay s [] else
  let opened2 := if isOpener then opened + 1 else if isCloser && opened > 0 then opened - 1 else opened
  let ⟨⟨ts, s1⟩, h1⟩ := s.bumpAt hne
  let ⟨⟨more, s2⟩, h2⟩ := skipBlock s1 opened2
  ⟨(ts ++ more, s2), by dsimp only at *; omega⟩
termination_by s.rest.length

/-- Blocks nested too deeply: reports it and wraps the body in an error
node. -/
def blockTooDeep (s : Cursor) : Step s (List BareTree) :=
  let ⟨⟨ts, s1⟩, h1⟩ := skipBlock (s.report .blockTooDeep) 0
  ⟨([.node .error ts], s1), by simpa using h1⟩

/-- Ends a statement: consumes its line break. Anything else left on the line
is reported and wrapped in one error node. -/
def expectNewline (s : Cursor) : Step s (List BareTree) :=
  let ⟨⟨(ok, ts), s1⟩, h1⟩ := s.eat .newline
  if ok || s1.atEnd then ⟨(ts, s1), h1⟩ else
  let ⟨⟨junk, s2⟩, h2⟩ := skipLine (s1.report .expectedNewline)
  let ⟨⟨(_, nl), s3⟩, h3⟩ := s2.eat .newline
  ⟨(ts ++ [.node .error junk] ++ nl, s3), by dsimp only [report_rest] at *; omega⟩

/-- A declared name: an identifier wrapped in a `name` node, or the problem
`expectedName role`. -/
def name (s : Cursor) (role : NameRole) : Step s (List BareTree) :=
  let ⟨⟨(ok, ts), s1⟩, h1⟩ := s.eat .ident
  if ok then ⟨([.node .name ts], s1), h1⟩
  else ⟨([], s1.report (.expectedName role)), by simpa using h1⟩

/-- `type name`, the type keyword being the next token. -/
def varDecl (s : Cursor) : Step s (List BareTree) :=
  let ⟨⟨ty, s1⟩, h1⟩ := s.bumpAny
  let ⟨⟨n, s2⟩, h2⟩ := s1.name .variable
  ⟨([.node .varDecl (ty ++ n)], s2), by dsimp only at *; omega⟩

/-- A declaration or a plain variable, as in `foreach` headers and block
parameters. -/
def varOrVarDecl (s : Cursor) (stopAt : TokenKind → Bool) : Step s (List BareTree) :=
  if s.current.isType then s.varDecl
  else if s.current == .ident then
    let ⟨⟨ts, s1⟩, h1⟩ := s.bumpAny
    ⟨([.node .nameRef ts], s1), h1⟩
  else s.recover .expectedVariable stopAt

/-- The entries of a parameter list, up to `}` or the end of the line. -/
def paramEntries (s : Cursor) : Step s (List BareTree) :=
  if s.current == .rBrace || s.atLineEnd then stay s [] else
  let ⟨⟨v, s1⟩, h1⟩ := s.varOrVarDecl (· == .rBrace)
  let ⟨⟨(_, c), s2⟩, h2⟩ := s1.eat .comma
  if hp : s2.rest.length < s.rest.length then
    let ⟨⟨more, s3⟩, h3⟩ := paramEntries s2
    ⟨(v ++ c ++ more, s3), by dsimp only at *; omega⟩
  else ⟨(v ++ c, s2), by dsimp only at *; omega⟩
termination_by s.rest.length

/-- `{ var, type var, ... }`, the `{` being the next token. -/
def paramList (s : Cursor) : Step s (List BareTree) :=
  let ⟨⟨lb, s1⟩, h1⟩ := s.bumpAny
  let ⟨⟨entries, s2⟩, h2⟩ := s1.paramEntries
  let ⟨⟨(_, rb), s3⟩, h3⟩ := s2.expect .rBrace
  ⟨([.node .paramList (lb ++ entries ++ rb)], s3), by dsimp only at *; omega⟩

end Cursor

end GameScript
