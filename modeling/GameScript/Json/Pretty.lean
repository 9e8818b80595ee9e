/-!
# Writing JSON

A small JSON value type and its indented text: two spaces a level, each
member and element on a line of its own, `": "` after a key, and `[]` or
`\x7b\x7d` for an empty array or object. Strings escape the quote, the
backslash and every control character below `0x20`: the seven that have a
short form take it, the rest are written `\u00xx` in lower-case hex. All
other characters are written as they are.
-/

namespace GameScript

namespace Json

/-- A JSON value; numbers carry their text. -/
inductive Value where
  | null
  | bool (b : Bool)
  | number (text : String)
  | string (s : String)
  | array (items : List Value)
  | object (fields : List (String × Value))
  deriving Inhabited

/-- A lower-case hexadecimal digit. -/
def hexDigit (n : Nat) : Char :=
  if n < 10 then Char.ofNat ('0'.toNat + n) else Char.ofNat ('a'.toNat + n - 10)

/-- How one character is written inside a string. -/
def escapeChar (c : Char) : List Char :=
  match c with
  | '"' => ['\\', '"']
  | '\\' => ['\\', '\\']
  | '\x08' => ['\\', 'b']
  | '\x0c' => ['\\', 'f']
  | '\n' => ['\\', 'n']
  | '\r' => ['\\', 'r']
  | '\t' => ['\\', 't']
  | _ =>
    if c.toNat < 0x20 then ['\\', 'u', '0', '0', hexDigit (c.toNat / 16), hexDigit (c.toNat % 16)]
    else [c]

/-- A string in quotes, escaped. -/
def quote (s : String) : String :=
  String.ofList ('"' :: (s.toList.flatMap escapeChar ++ ['"']))

/-- The indentation of a level. -/
def indent (level : Nat) : String := String.ofList (List.replicate (2 * level) ' ')

mutual

/-- The indented text of a value whose first line starts at `level`. -/
def Value.pretty (level : Nat) : Value → String
  | .null => "null"
  | .bool b => if b then "true" else "false"
  | .number t => t
  | .string s => quote s
  | .array vs =>
    if vs.isEmpty then "[]" else "[\n" ++ items (level + 1) vs ++ "\n" ++ indent level ++ "]"
  | .object fs =>
    if fs.isEmpty then "\x7b\x7d"
    else "\x7b\n" ++ members (level + 1) fs ++ "\n" ++ indent level ++ "\x7d"

/-- Array elements, one a line. -/
def items (level : Nat) : List Value → String
  | [] => ""
  | v :: rest => indent level ++ v.pretty level ++ (if rest.isEmpty then "" else ",\n") ++ items level rest

/-- Object members, one a line. -/
def members (level : Nat) : List (String × Value) → String
  | [] => ""
  | (k, v) :: rest =>
    indent level ++ quote k ++ ": " ++ v.pretty level ++ (if rest.isEmpty then "" else ",\n") ++
      members level rest

end

/-- The indented text of a whole value. -/
def Value.render (v : Value) : String := v.pretty 0

end Json

end GameScript
