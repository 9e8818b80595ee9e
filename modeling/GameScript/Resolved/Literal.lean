import GameScript.Syntax.Token
/-!
# Literal values

A number without a point is a 64-bit signed integer, or, past the largest
one, the nearest float. A number with a point is the nearest float. A
hexadecimal number is an integer, and has no value past the largest one. A
string's value is its text without the opening quote and, if the same quote
ends it, the closing one; escapes are kept as written.
-/

namespace GameScript

/-- The value of a literal. -/
inductive LiteralValue where
  | integer (value : Int)
  | float (value : Float)
  | string (value : String)
  deriving Inhabited

namespace LiteralValue

/-- The largest signed 64-bit integer. -/
def maxInteger : Nat := Nat.pow 2 63 - 1

/-- The value of decimal digits. -/
def decimalValue (cs : List Char) : Nat :=
  cs.foldl (fun acc c => acc * 10 + (c.toNat - '0'.toNat)) 0

/-- The value of a hexadecimal digit. -/
def hexDigit? (c : Char) : Option Nat :=
  if c.isDigit then some (c.toNat - '0'.toNat)
  else if 'a' ≤ c && c ≤ 'f' then some (c.toNat - 'a'.toNat + 10)
  else if 'A' ≤ c && c ≤ 'F' then some (c.toNat - 'A'.toNat + 10)
  else none

/-- The value of hexadecimal digits; none if there are none or one is not a
digit. -/
def hexValue? (cs : List Char) : Option Nat :=
  if cs.isEmpty then none
  else cs.foldlM (fun acc c => (hexDigit? c).map (acc * 16 + ·)) 0

/-- The value of a number token's text: digits with at most one point. -/
def ofNumber? (text : String) : Option LiteralValue :=
  let cs := text.toList
  if cs.contains '.' then
    let whole := cs.takeWhile (· != '.')
    let frac := (cs.dropWhile (· != '.')).drop 1
    if (whole ++ frac).all Char.isDigit && !(whole ++ frac).isEmpty then
      some (.float (Float.ofScientific (decimalValue (whole ++ frac)) true frac.length))
    else none
  else if cs.isEmpty || !cs.all Char.isDigit then none
  else
    let n := decimalValue cs
    if n ≤ maxInteger then some (.integer n) else some (.float (Float.ofScientific n false 0))

/-- The value of a hexadecimal token's text, `0x` and digits. -/
def ofHex? (text : String) : Option LiteralValue := do
  let n ← hexValue? (text.toList.drop 2)
  if n ≤ maxInteger then some (.integer n) else none

/-- A string token's text without its quotes. -/
def unquote (text : String) : String :=
  match text.toList with
  | [] => text
  | q :: inner =>
    match inner.reverse with
    | last :: body => if last == q then String.ofList body.reverse else String.ofList inner
    | [] => ""

/-- The value of a literal token. -/
def ofToken? (t : Token) : Option LiteralValue :=
  match t.kind with
  | .number => ofNumber? t.text
  | .hexNumber => ofHex? t.text
  | .string => some (.string (unquote t.text))
  | _ => none

end LiteralValue

end GameScript
