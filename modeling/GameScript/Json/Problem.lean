import GameScript.Decimal.Shortest
import GameScript.Text.Quote
/-!
# JSON reading problems

What can go wrong when a JSON text is read into a typed value, and the text of
each problem. Syntax problems name what the reader was in the middle of; type
problems say what was found and what was expected. A problem found in the text
is reported with the line (from 1) and the column (bytes since the start of
the line) where the reader stood.

Numbers found where they do not belong are written the way JSON writers write
them: the shortest digits that read back, positional from `10^-5` to below
`10^16`, else with a signed exponent (`1e+30`, `1.5e-7`), and with `.0` added to a
whole number written positionally.
-/

namespace GameScript

namespace Json

/-- A value found where another was expected. -/
inductive Found where
  | null
  | bool (b : Bool)
  | unsigned (n : Nat)
  | signed (i : Int)
  | float (f : Float)
  | string (s : String)
  | sequence
  | map
  deriving Inhabited

/-- The exponent of scientific notation: always signed, no padding. -/
def exponentText (e : Int) : String :=
  if e < 0 then "-" ++ toString e.natAbs else "+" ++ toString e.natAbs

/-- A finite number in JSON writers' layout (see the module comment). -/
def floatText (f : Float) : String :=
  let bits := f.toBits
  let sign := if bits >>> 63 == 1 then "-" else ""
  if bits &&& 0x7FFFFFFFFFFFFFFF == 0 then sign ++ "0.0" else
  let d := (Decimal.Binary.ofBits bits).shortest
  let s := toString d.digits
  let n : Int := s.length
  let kk := n + d.exp
  let body :=
    if 0 ≤ d.exp && kk ≤ 16 then s ++ String.ofList (List.replicate d.exp.toNat '0') ++ ".0"
    else if 0 < kk && kk ≤ 16 then
      String.ofList (s.toList.take kk.toNat) ++ "." ++ String.ofList (s.toList.drop kk.toNat)
    else if -5 < kk && kk ≤ 0 then "0." ++ String.ofList (List.replicate (-kk).toNat '0') ++ s
    else if n == 1 then s ++ "e" ++ exponentText (kk - 1)
    else String.ofList (s.toList.take 1) ++ "." ++ String.ofList (s.toList.drop 1) ++ "e" ++ exponentText (kk - 1)
  sign ++ body

/-- How a found value is described. -/
def Found.describe : Found → String
  | .null => "null"
  | .bool b => "boolean `" ++ toString b ++ "`"
  | .unsigned n => "integer `" ++ toString n ++ "`"
  | .signed i => "integer `" ++ toString i ++ "`"
  | .float f => "floating point `" ++ floatText f ++ "`"
  | .string s => "string " ++ Text.quoteString s
  | .sequence => "sequence"
  | .map => "map"

/-- A list of names in backquotes: one, two joined by `or`, or `one of` a
list. -/
def oneOf : List String → String
  | [a] => "`" ++ a ++ "`"
  | [a, b] => "`" ++ a ++ "` or `" ++ b ++ "`"
  | names => "one of " ++ ", ".intercalate (names.map fun n => "`" ++ n ++ "`")

/-- What went wrong while reading JSON. -/
inductive Problem where
  | eofWhileParsingList
  | eofWhileParsingObject
  | eofWhileParsingString
  | eofWhileParsingValue
  | expectedColon
  | expectedListCommaOrEnd
  | expectedObjectCommaOrEnd
  | expectedSomeIdent
  | expectedSomeValue
  | invalidEscape
  | invalidNumber
  | numberOutOfRange
  | controlCharacter
  | keyMustBeAString
  | loneLeadingSurrogate
  | unexpectedEndOfHexEscape
  | trailingComma
  | trailingCharacters
  | recursionLimitExceeded
  | invalidType (found : Found) (expected : String)
  | invalidValue (found : Found) (expected : String)
  | invalidLength (length : Nat) (expected : String)
  | unknownVariant (name : String) (variants : List String)
  | missingField (name : String)
  | duplicateField (name : String)
  deriving Inhabited

/-- The text of a problem. -/
def Problem.message : Problem → String
  | .eofWhileParsingList => "EOF while parsing a list"
  | .eofWhileParsingObject => "EOF while parsing an object"
  | .eofWhileParsingString => "EOF while parsing a string"
  | .eofWhileParsingValue => "EOF while parsing a value"
  | .expectedColon => "expected `:`"
  | .expectedListCommaOrEnd => "expected `,` or `]`"
  | .expectedObjectCommaOrEnd => "expected `,` or `\x7d`"
  | .expectedSomeIdent => "expected ident"
  | .expectedSomeValue => "expected value"
  | .invalidEscape => "invalid escape"
  | .invalidNumber => "invalid number"
  | .numberOutOfRange => "number out of range"
  | .controlCharacter => "control character (\\u0000-\\u001F) found while parsing a string"
  | .keyMustBeAString => "key must be a string"
  | .loneLeadingSurrogate => "lone leading surrogate in hex escape"
  | .unexpectedEndOfHexEscape => "unexpected end of hex escape"
  | .trailingComma => "trailing comma"
  | .trailingCharacters => "trailing characters"
  | .recursionLimitExceeded => "recursion limit exceeded"
  | .invalidType found expected => "invalid type: " ++ found.describe ++ ", expected " ++ expected
  | .invalidValue found expected => "invalid value: " ++ found.describe ++ ", expected " ++ expected
  | .invalidLength n expected => "invalid length " ++ toString n ++ ", expected " ++ expected
  | .unknownVariant name [] => "unknown variant `" ++ name ++ "`, there are no variants"
  | .unknownVariant name variants => "unknown variant `" ++ name ++ "`, expected " ++ oneOf variants
  | .missingField name => "missing field `" ++ name ++ "`"
  | .duplicateField name => "duplicate field `" ++ name ++ "`"

/-- A problem and, once known, the line and column where it was found. -/
structure Error where
  problem : Problem
  position : Option (Nat × Nat) := none
  deriving Inhabited

/-- The problem's text, followed by ` at line L column C` when placed. -/
def Error.message (e : Error) : String :=
  match e.position with
  | some (l, c) => e.problem.message ++ " at line " ++ toString l ++ " column " ++ toString c
  | none => e.problem.message

end Json

end GameScript
