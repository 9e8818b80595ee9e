import GameScript.Syntax.TokenKind
/-!
# Value types

Scripts are loosely typed when they run; the types here are a best guess
that only serves hover texts and completion details. A name that resolves
outside the script is `ambiguous`; anything else that cannot be decided
locally is `unknown`.
-/

namespace GameScript

/-- The guessed type of an expression or a variable. -/
inductive ValueType where
  /-- `short`, `int`, `long`, and whole-number literals. -/
  | integer
  /-- `float` and decimal literals. -/
  | float
  /-- `string_var` and string literals. -/
  | string
  /-- `array_var`. -/
  | array
  /-- `ref` or `reference`. -/
  | reference
  /-- A name resolved outside the script. -/
  | ambiguous
  /-- Anything else. -/
  | unknown
  deriving DecidableEq, Repr, Inhabited

namespace ValueType

/-- Every type, in the order their names are listed. -/
def all : List ValueType := [integer, float, string, array, reference, ambiguous, unknown]

/-- The type's name, as shown to users and written in catalogs. -/
def name : ValueType → String
  | integer => "integer"
  | float => "float"
  | string => "string"
  | array => "array"
  | reference => "reference"
  | ambiguous => "ambiguous"
  | unknown => "unknown"

/-- The type a type keyword declares. -/
def ofKeyword? : TokenKind → Option ValueType
  | .kwShort | .kwInt | .kwLong => some integer
  | .kwFloat => some float
  | .kwRef => some reference
  | .kwStringVar => some string
  | .kwArrayVar => some array
  | _ => none

end ValueType

end GameScript
