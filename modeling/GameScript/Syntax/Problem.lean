import GameScript.Syntax.TokenKind
/-!
# Syntax problems

What the parser can object to, as causes rather than text. Every problem has
one fixed message and a severity; a reported problem also carries the byte
range it points at (see `GameScript.Syntax.Cursor` for how that range is
chosen).
-/

namespace GameScript

/-- How serious a diagnostic is. -/
inductive Severity where
  | error
  | warning
  deriving DecidableEq, Repr, Inhabited

/-- The word a severity is printed as. -/
def Severity.word : Severity → String
  | .error => "error"
  | .warning => "warning"

/-- Which declared name the parser expected. -/
inductive NameRole where
  /-- The name after `scriptname`. -/
  | script
  /-- The block type after `begin`. -/
  | blockType
  /-- The name after a type keyword. -/
  | variable
  deriving DecidableEq, Repr, Inhabited

/-- Something the parser found wrong with its input. -/
inductive SyntaxProblem where
  /-- The script does not start with `scriptname`. -/
  | missingScriptName
  /-- A second `scriptname` line. -/
  | duplicateScriptName
  /-- A block terminator with no block open. -/
  | unexpectedCloser (kind : TokenKind)
  /-- A statement other than a declaration, `set`, `let` or `begin` outside
  every block; only a warning. -/
  | statementAtTopLevel
  /-- A name was expected. -/
  | expectedName (role : NameRole)
  /-- A standalone expression is followed by more input. -/
  | inputAfterExpression
  /-- A statement does not end at its line break. -/
  | expectedNewline
  /-- Expressions nested past the nesting limit. -/
  | expressionTooDeep
  /-- Block bodies nested past the nesting limit. -/
  | blockTooDeep
  /-- Neither a declaration nor a variable where one was needed. -/
  | expectedVariable
  /-- A `begin` block inside another. -/
  | nestedBegin
  /-- No name after `.` or `->`. -/
  | expectedMemberName
  /-- No expression where one was needed. -/
  | expectedExpression
  /-- Something that cannot start an argument inside call parentheses. -/
  | expectedArgument
  /-- A required keyword or bracket is missing. -/
  | expectedToken (kind : TokenKind)
  deriving DecidableEq, Repr, Inhabited

namespace SyntaxProblem

/-- How a block terminator is named in messages. -/
def closerWord : TokenKind → String
  | .kwEnd => "end"
  | .kwEndIf => "endif"
  | .kwElseIf => "elseif"
  | .kwElse => "else"
  | .kwLoop => "loop"
  | _ => "token"

/-- How a required token is named in messages. -/
def tokenWord : TokenKind → String
  | .kwTo => "to"
  | .kwEndIf => "endif"
  | .kwLoop => "loop"
  | .lArrow => "<-"
  | .kwEnd => "end"
  | .rBrace => "\x7d"
  | .rParen => ")"
  | .rBracket => "]"
  | k => k.kindName

/-- The message of a problem. -/
def message : SyntaxProblem → String
  | missingScriptName => "expected script name declaration"
  | duplicateScriptName => "duplicate script name declaration"
  | unexpectedCloser k => "unexpected " ++ closerWord k
  | statementAtTopLevel => "statement not allowed at top level"
  | expectedName .script => "expected script name"
  | expectedName .blockType => "expected block type"
  | expectedName .variable => "expected variable name"
  | inputAfterExpression => "unexpected input after expression"
  | expectedNewline => "expected newline"
  | expressionTooDeep => "expression nested too deeply"
  | blockTooDeep => "block nested too deeply"
  | expectedVariable => "expected variable"
  | nestedBegin => "nested begin blocks not allowed"
  | expectedMemberName => "expected member name"
  | expectedExpression => "expected expression"
  | expectedArgument => "expected argument"
  | expectedToken k => "expected " ++ tokenWord k

/-- Only statements outside blocks are merely suspicious. -/
def severity : SyntaxProblem → Severity
  | statementAtTopLevel => .warning
  | _ => .error

end SyntaxProblem

/-- A problem reported at a byte range of the source. -/
structure SyntaxError where
  problem : SyntaxProblem
  start : Nat
  stop : Nat
  deriving DecidableEq, Repr, Inhabited

namespace SyntaxError

/-- The message of the underlying problem. -/
def message (e : SyntaxError) : String := e.problem.message

/-- The severity of the underlying problem. -/
def severity (e : SyntaxError) : Severity := e.problem.severity

/-- `<severity>: <message> at <start>..<stop>`. -/
def display (e : SyntaxError) : String :=
  s!"{e.severity.word}: {e.message} at {e.start}..{e.stop}"

end SyntaxError

end GameScript
