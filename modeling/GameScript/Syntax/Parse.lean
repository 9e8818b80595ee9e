import GameScript.Syntax.Lexer
import GameScript.Syntax.Grammar
import GameScript.Syntax.Tree
/-!
# Parsing a source text

A script is an optional run of blank lines, a `scriptname` line, then
declarations, `set`/`let` lines and `begin` blocks. Other statements are
accepted at the top level with a warning; a stray block terminator is an
error node. A standalone expression is an expression surrounded by blank
lines, anything after it being one error node.

Parsing never fails: every text yields a tree that holds all its tokens, and
a list of problems in the order they were found.
-/

namespace GameScript

/-- A parsed text: its lossless tree and the problems found. -/
structure ParseResult where
  root : SyntaxTree
  errors : List SyntaxError
  deriving Inhabited

namespace ParseResult

/-- No problem at all, warnings included. -/
def ok (p : ParseResult) : Bool := p.errors.isEmpty

/-- At least one problem of error severity. -/
def hasErrors (p : ParseResult) : Bool := p.errors.any (·.severity == .error)

/-- The root is a script (not a standalone expression). -/
def isScript (p : ParseResult) : Bool := p.root.nodeKind? == some .script

end ParseResult

namespace Grammar

open Cursor

/-- `scriptname Name`. -/
def scriptNameDecl (s : Cursor) : List BareTree × Cursor :=
  let (kw, s1) := s.bumpAny.val
  let (n, s2) := (s1.name .script).val
  let (nl, s3) := s2.expectNewline.val
  ([.node .scriptNameDecl (kw ++ n ++ nl)], s3)

/-- Statements allowed outside blocks without a warning. -/
def allowedAtTopLevel (k : TokenKind) : Bool :=
  k.isType || k == .kwSet || k == .kwLet || k == .kwBegin

/-- The top level after the script name, up to the end of input. -/
def topLevel : Nat → Cursor → List BareTree × Cursor
  | 0, s => ([], s)
  | fuel + 1, s =>
    if s.atEnd then ([], s) else
    let (item, s1) :=
      if s.current == .newline then
        let ((_, nl), s1) := (s.eat .newline).val
        (nl, s1)
      else if s.current == .kwScriptName then
        scriptNameDecl (s.report .duplicateScriptName)
      else if s.current.isBlockEnd then
        (s.recover (.unexpectedCloser s.current) (fun _ => false)).val
      else if allowedAtTopLevel s.current then statement fuel s
      else statement fuel (s.report .statementAtTopLevel)
    let (more, s2) := topLevel fuel s1
    (item ++ more, s2)

/-- A whole script. -/
def script (fuel : Nat) (s : Cursor) : BareTree × Cursor :=
  let (blank, s1) := s.eatLineBreaks.val
  let (decl, s2) :=
    if s1.current == .kwScriptName then scriptNameDecl s1
    else ([], s1.report .missingScriptName)
  let (items, s3) := topLevel fuel s2
  (.node .script (blank ++ decl ++ items), s3)

/-- A standalone expression. -/
def exprRoot (fuel : Nat) (s : Cursor) : BareTree × Cursor :=
  let (blank, s1) := s.eatLineBreaks.val
  let (e, s2) := expression fuel s1
  let (blank2, s3) := s2.eatLineBreaks.val
  let (junk, s4) :=
    if s3.atEnd then ([], s3)
    else
      let (ts, s4) := (s3.report .inputAfterExpression).skipAll.val
      ([BareTree.node .error ts], s4)
  (.node .exprRoot (blank ++ e ++ blank2 ++ junk), s4)

end Grammar

/-- The significant tokens of a token list, each identifier marked when
`isFunction` names it. -/
def Lexeme.ofTokens (tokens : List Token) (isFunction : String → Bool) : List Lexeme :=
  tokens.filterMap fun t =>
    if t.kind.isTrivia || t.kind == .eof then none
    else some ⟨t.kind, t.start, t.stop, t.kind == .ident && isFunction t.text⟩

/-- Parses a script; identifiers that `isFunction` names are calls even
without arguments. -/
def parseScript (source : String) (isFunction : String → Bool) : ParseResult :=
  let tokens := lex source
  let lexemes := Lexeme.ofTokens tokens isFunction
  let (bare, s) := Grammar.script (Grammar.fuelFor lexemes.length) { rest := lexemes }
  ⟨bare.attach tokens, s.errors.toList⟩

/-- Parses a standalone expression. -/
def parseExpr (source : String) : ParseResult :=
  let tokens := lex source
  let lexemes := Lexeme.ofTokens tokens (fun _ => false)
  let (bare, s) := Grammar.exprRoot (Grammar.fuelFor lexemes.length) { rest := lexemes }
  ⟨bare.attach tokens, s.errors.toList⟩

end GameScript
