import GameScript.Syntax.Token
/-!
# The lexer

`lex` cuts a source text into tokens that tile it: each token starts where the
previous one ends, every token but the last is non-empty, and the last is a
zero-width end-of-input token. Nothing is skipped; blanks, comments and line
breaks are tokens too.

The shapes, tried on the first character:

* blanks `[ \t\f]+`, comments `;` up to a line break, line breaks `[\r\n]+`;
* strings: a quote (`"` or `'`), everything up to the same quote, and that
  quote if the input has one;
* words `[0-9A-Za-z_]+`: a word that starts with a letter or `_` is a keyword
  when its ASCII lowercase is one, else an identifier. A word that starts with
  a digit is a hexadecimal number (`0x` and at least one hex digit, the rest
  of the word lexed again), or a decimal number `d+(.d+)?` (which may run on
  past the word through a point), or, when a word character follows the
  digits, an identifier spanning the word;
* a point followed by digits and no word character is a number `.d+`;
* two-character operators before one-character ones;
* any other character is one `unknown` token.
-/

namespace GameScript

namespace Lexer

/-- ASCII letters, digits and `_`. -/
def isWordChar (c : Char) : Bool := c.isAlphanum || c == '_'

/-- Space, tab and form feed. -/
def isBlank (c : Char) : Bool := c == ' ' || c == '\t' || c == '\x0c'

/-- Carriage return and line feed. -/
def isLineBreak (c : Char) : Bool := c == '\r' || c == '\n'

/-- ASCII hexadecimal digits. -/
def isHexDigit (c : Char) : Bool :=
  c.isDigit || ('a' ≤ c && c ≤ 'f') || ('A' ≤ c && c ≤ 'F')

/-- Whether the list starts with a word character. -/
def startsWord (cs : List Char) : Bool :=
  match cs with
  | c :: _ => isWordChar c
  | [] => false

/-- The operator spelled by two characters. -/
def twoCharOp? : Char → Char → Option TokenKind
  | ':', '=' => some .colonEq | '+', '=' => some .plusEq | '-', '=' => some .minusEq
  | '*', '=' => some .starEq | '/', '=' => some .slashEq | '^', '=' => some .caretEq
  | '|', '=' => some .pipeEq | '&', '=' => some .ampEq | '%', '=' => some .percentEq
  | '|', '|' => some .pipePipe | '&', '&' => some .ampAmp | '=', '=' => some .eqEq
  | '!', '=' => some .bangEq | '>', '=' => some .gtEq | '<', '=' => some .ltEq
  | '<', '<' => some .shl | '>', '>' => some .shr | '-', '>' => some .arrow
  | '<', '-' => some .lArrow
  | _, _ => none

/-- The operator spelled by one character. -/
def oneCharOp? : Char → Option TokenKind
  | '+' => some .plus | '-' => some .minus | '*' => some .star | '/' => some .slash
  | '%' => some .percent | '^' => some .caret | '!' => some .bang | '$' => some .dollar
  | '#' => some .hash | '&' => some .amp | '|' => some .pipe | '<' => some .lt
  | '>' => some .gt | ',' => some .comma | ':' => some .colon | '(' => some .lParen
  | ')' => some .rParen | '[' => some .lBracket | ']' => some .rBracket
  | '{' => some .lBrace | '}' => some .rBrace
  | _ => none

/-- The length of a decimal number `d+(.d+)?` at the front of `c :: cs`,
counted after `c`. -/
def numberTail (cs : List Char) : Nat :=
  let digits := (cs.takeWhile Char.isDigit).length
  match cs.drop digits with
  | '.' :: d :: more =>
    if d.isDigit then digits + 2 + ((more.takeWhile Char.isDigit).length) else digits
  | _ => digits

/-- A word that starts with the digit `c`: the kind of its first lexeme and how
many characters after `c` that lexeme takes. -/
def scanDigitWord (c : Char) (cs : List Char) : TokenKind × Nat :=
  let word := cs.takeWhile isWordChar
  let hex : Nat :=
    match word with
    | x :: rest => if c == '0' && (x == 'x' || x == 'X') then (rest.takeWhile isHexDigit).length else 0
    | [] => 0
  if hex > 0 then (.hexNumber, hex + 1)
  else
    let n := numberTail cs
    if startsWord (cs.drop n) then (TokenKind.ofWord (String.ofList (c :: word)), word.length)
    else (.number, n)

/-- The kind of the first lexeme of `c :: cs` and how many characters after
`c` it takes. -/
def scan (c : Char) (cs : List Char) : TokenKind × Nat :=
  if isBlank c then (.whitespace, (cs.takeWhile isBlank).length)
  else if c == ';' then (.comment, (cs.takeWhile (fun d => !isLineBreak d)).length)
  else if isLineBreak c then (.newline, (cs.takeWhile isLineBreak).length)
  else if c == '"' || c == '\'' then
    let body := (cs.takeWhile (· != c)).length
    (.string, if (cs.drop body).head? == some c then body + 1 else body)
  else if isWordChar c then
    if c.isDigit then scanDigitWord c cs
    else
      let word := cs.takeWhile isWordChar
      (TokenKind.ofWord (String.ofList (c :: word)), word.length)
  else if c == '.' then
    let digits := (cs.takeWhile Char.isDigit).length
    if digits > 0 && !startsWord (cs.drop digits) then (.number, digits) else (.dot, 0)
  else
    match cs with
    | d :: _ =>
      match twoCharOp? c d with
      | some k => (k, 1)
      | none => ((oneCharOp? c).getD .unknown, 0)
    | [] => ((oneCharOp? c).getD .unknown, 0)

/-- The tokens of `cs`, which starts at byte offset `pos`, ending with the
end-of-input token. -/
def lexFrom : List Char → Nat → List Token
  | [], pos => [⟨.eof, pos, ""⟩]
  | c :: cs, pos =>
    let (kind, extra) := scan c cs
    let text := String.ofList (c :: cs.take extra)
    ⟨kind, pos, text⟩ :: lexFrom (cs.drop extra) (pos + text.utf8ByteSize)
termination_by cs => cs.length
decreasing_by simp only [List.length_drop, List.length_cons]; omega

end Lexer

/-- The tokens of a source text, trivia included, ending with a zero-width
end-of-input token at the end of the text. -/
def lex (source : String) : List Token :=
  Lexer.lexFrom source.toList 0

/-- Whether a name is written as exactly one identifier token. -/
def isIdentifier (name : String) : Bool :=
  match lex name with
  | [t, e] => t.kind == .ident && e.kind == .eof
  | _ => false

end GameScript
