import GameScript.Syntax.TokenKind
/-!
# Tokens

A token is a kind, the byte offset where it starts, and its text. Offsets
count UTF-8 bytes from the start of the source, so a token's end is its start
plus the byte length of its text.
-/

namespace GameScript

/-- A lexeme of the source: kind, starting byte offset, and text. -/
structure Token where
  kind : TokenKind
  start : Nat
  text : String
  deriving DecidableEq, Repr, Inhabited

namespace Token

/-- The byte offset just past the token. -/
def stop (t : Token) : Nat := t.start + t.text.utf8ByteSize

/-- Blanks and comments. -/
def isTrivia (t : Token) : Bool := t.kind.isTrivia

/-- A token the cursor lookups care about: neither trivia nor a line break. -/
def isSignificant (t : Token) : Bool := !t.kind.isTrivia && !t.kind.isNewline

end Token

end GameScript
