/-!
# Token kinds

The lexical categories of the language: trivia (blanks and comments), line
breaks, literals, identifiers, operators and punctuation, keywords, type
names, a catch-all for characters outside the alphabet, and the end of input.

The order of the constructors is part of the interface: tools list the kinds
in this order, and the operator kinds form one contiguous run.
-/

namespace GameScript

/-- The kind of a lexical token. -/
inductive TokenKind where
  | whitespace | comment | newline
  | number | hexNumber | string | ident
  | colonEq | plusEq | minusEq | starEq | slashEq | caretEq | pipeEq | ampEq | percentEq
  | pipePipe | ampAmp | eqEq | bangEq | gtEq | ltEq | shl | shr | arrow | lArrow
  | plus | minus | star | slash | percent | caret | bang | dollar | hash | amp | pipe
  | lt | gt | dot | comma | colon | lParen | rParen | lBracket | rBracket | lBrace | rBrace
  | kwScriptName | kwBegin | kwEnd | kwIf | kwElseIf | kwElse | kwEndIf | kwWhile | kwLoop
  | kwForeach | kwContinue | kwBreak | kwReturn | kwSet | kwTo | kwLet
  | kwShort | kwInt | kwLong | kwFloat | kwRef | kwStringVar | kwArrayVar
  | unknown
  | eof
  deriving DecidableEq, Repr, Inhabited

namespace TokenKind

/-- Every token kind, in declaration order. -/
def all : List TokenKind :=
  [whitespace, comment, newline, number, hexNumber, string, ident,
   colonEq, plusEq, minusEq, starEq, slashEq, caretEq, pipeEq, ampEq, percentEq,
   pipePipe, ampAmp, eqEq, bangEq, gtEq, ltEq, shl, shr, arrow, lArrow,
   plus, minus, star, slash, percent, caret, bang, dollar, hash, amp, pipe,
   lt, gt, dot, comma, colon, lParen, rParen, lBracket, rBracket, lBrace, rBrace,
   kwScriptName, kwBegin, kwEnd, kwIf, kwElseIf, kwElse, kwEndIf, kwWhile, kwLoop,
   kwForeach, kwContinue, kwBreak, kwReturn, kwSet, kwTo, kwLet,
   kwShort, kwInt, kwLong, kwFloat, kwRef, kwStringVar, kwArrayVar,
   unknown, eof]

/-- The name tools print for a kind. -/
def kindName : TokenKind → String
  | whitespace => "Whitespace" | comment => "Comment" | newline => "Newline"
  | number => "Number" | hexNumber => "HexNumber" | string => "String" | ident => "Ident"
  | colonEq => "ColonEq" | plusEq => "PlusEq" | minusEq => "MinusEq" | starEq => "StarEq"
  | slashEq => "SlashEq" | caretEq => "CaretEq" | pipeEq => "PipeEq" | ampEq => "AmpEq"
  | percentEq => "PercentEq" | pipePipe => "PipePipe" | ampAmp => "AmpAmp" | eqEq => "EqEq"
  | bangEq => "BangEq" | gtEq => "GtEq" | ltEq => "LtEq" | shl => "Shl" | shr => "Shr"
  | arrow => "Arrow" | lArrow => "LArrow" | plus => "Plus" | minus => "Minus"
  | star => "Star" | slash => "Slash" | percent => "Percent" | caret => "Caret"
  | bang => "Bang" | dollar => "Dollar" | hash => "Hash" | amp => "Amp" | pipe => "Pipe"
  | lt => "Lt" | gt => "Gt" | dot => "Dot" | comma => "Comma" | colon => "Colon"
  | lParen => "LParen" | rParen => "RParen" | lBracket => "LBracket"
  | rBracket => "RBracket" | lBrace => "LBrace" | rBrace => "RBrace"
  | kwScriptName => "KwScriptName" | kwBegin => "KwBegin" | kwEnd => "KwEnd"
  | kwIf => "KwIf" | kwElseIf => "KwElseIf" | kwElse => "KwElse" | kwEndIf => "KwEndIf"
  | kwWhile => "KwWhile" | kwLoop => "KwLoop" | kwForeach => "KwForeach"
  | kwContinue => "KwContinue" | kwBreak => "KwBreak" | kwReturn => "KwReturn"
  | kwSet => "KwSet" | kwTo => "KwTo" | kwLet => "KwLet" | kwShort => "KwShort"
  | kwInt => "KwInt" | kwLong => "KwLong" | kwFloat => "KwFloat" | kwRef => "KwRef"
  | kwStringVar => "KwStringVar" | kwArrayVar => "KwArrayVar"
  | unknown => "Unknown" | eof => "Eof"

/-- Blanks and comments: kept in the tree, ignored by the grammar. -/
def isTrivia : TokenKind → Bool
  | whitespace | comment => true
  | _ => false

/-- A run of line-break characters. -/
def isNewline (k : TokenKind) : Bool := k == newline

/-- Number, hexadecimal number and string literals. -/
def isLiteral : TokenKind → Bool
  | number | hexNumber | string => true
  | _ => false

/-- Statement keywords (type names excluded). -/
def isKeyword : TokenKind → Bool
  | kwScriptName | kwBegin | kwEnd | kwIf | kwElseIf | kwElse | kwEndIf | kwWhile | kwLoop
  | kwForeach | kwContinue | kwBreak | kwReturn | kwSet | kwTo | kwLet => true
  | _ => false

/-- The type names that declare variables. -/
def isType : TokenKind → Bool
  | kwShort | kwInt | kwLong | kwFloat | kwRef | kwStringVar | kwArrayVar => true
  | _ => false

/-- The compound assignment operators, `:=` included. -/
def isAssignOp : TokenKind → Bool
  | colonEq | plusEq | minusEq | starEq | slashEq | caretEq | pipeEq | ampEq | percentEq => true
  | _ => false

/-- Operators and punctuation: the run from `:=` to `}`. -/
def isOperator : TokenKind → Bool
  | colonEq | plusEq | minusEq | starEq | slashEq | caretEq | pipeEq | ampEq | percentEq
  | pipePipe | ampAmp | eqEq | bangEq | gtEq | ltEq | shl | shr | arrow | lArrow
  | plus | minus | star | slash | percent | caret | bang | dollar | hash | amp | pipe
  | lt | gt | dot | comma | colon | lParen | rParen | lBracket | rBracket | lBrace | rBrace => true
  | _ => false

/-- Binding powers of the infix operators, left and right. A right power
below the left one makes the operator right associative. -/
def infixPower : TokenKind → Option (Nat × Nat)
  | colonEq | plusEq | minusEq | starEq | slashEq | caretEq | pipeEq | ampEq | percentEq =>
    some (2, 1)
  | pipePipe => some (3, 4)
  | ampAmp => some (5, 6)
  | colon => some (7, 8)
  | eqEq | bangEq => some (9, 10)
  | lt | gt | ltEq | gtEq => some (11, 12)
  | pipe => some (13, 14)
  | amp => some (15, 16)
  | shl | shr => some (17, 18)
  | plus | minus => some (19, 20)
  | star | slash | percent => some (21, 22)
  | caret => some (24, 23)
  | _ => none

/-- Binding power of the prefix operators `! - $ # * &`. -/
def prefixPower : TokenKind → Option Nat
  | bang | minus | dollar | hash | star | amp => some 25
  | _ => none

/-- Tokens that can begin an expression. -/
def canStartExpr (k : TokenKind) : Bool :=
  k.isLiteral || (k.prefixPower).isSome || k == ident || k == lParen

/-- Tokens that can begin a bare call argument: unlike an expression, no
`-`, `*` or `&`, which would read as infix operators after a name. -/
def canStartArgument (k : TokenKind) : Bool :=
  k.isLiteral || k == ident || k == lParen || k == dollar || k == hash || k == bang

/-- Tokens that close a block body. -/
def isBlockEnd : TokenKind → Bool
  | kwEnd | kwEndIf | kwElseIf | kwElse | kwLoop => true
  | _ => false

/-- Tokens at which an expression stops without being swallowed by error
recovery: closing brackets, separators, and block terminators. -/
def stopsExpression (k : TokenKind) : Bool :=
  match k with
  | rParen | rBracket | rBrace | comma | kwTo | lArrow => true
  | _ => k.isBlockEnd

/-- The keyword spelled by a word, compared without ASCII case; `scn` and
`reference` are short and long spellings. -/
def keyword? (lower : String) : Option TokenKind :=
  match lower with
  | "scriptname" | "scn" => some kwScriptName
  | "begin" => some kwBegin
  | "end" => some kwEnd
  | "if" => some kwIf
  | "elseif" => some kwElseIf
  | "else" => some kwElse
  | "endif" => some kwEndIf
  | "while" => some kwWhile
  | "loop" => some kwLoop
  | "foreach" => some kwForeach
  | "continue" => some kwContinue
  | "break" => some kwBreak
  | "return" => some kwReturn
  | "set" => some kwSet
  | "to" => some kwTo
  | "let" => some kwLet
  | "short" => some kwShort
  | "int" => some kwInt
  | "long" => some kwLong
  | "float" => some kwFloat
  | "ref" | "reference" => some kwRef
  | "string_var" => some kwStringVar
  | "array_var" => some kwArrayVar
  | _ => none

/-- The kind of a word: a keyword if its ASCII lowercase is one, else an
identifier. -/
def ofWord (word : String) : TokenKind :=
  (keyword? word.toLower).getD ident

end TokenKind

end GameScript
