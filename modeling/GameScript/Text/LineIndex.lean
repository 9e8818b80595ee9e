import GameScript.Text.Edit
/-!
# Lines and columns

Editors name a place in a text by its line and its column counted in UTF-16
code units; the syntax tree names it by its byte offset. A line starts at
the beginning of the text and after every line feed, so a final line feed
opens an empty last line; a carriage return belongs to its line.

From an offset, the place is clamped to the end of the text and its column
counts the characters of its line that start before it. From a place, a
line past the last has no offset, and a column is clamped to the end of its
line; a column inside a character gives that character's offset.
-/

namespace GameScript

/-- A place in a text as an editor names it. -/
structure Position where
  line : Nat
  character : Nat
  deriving DecidableEq, Repr, Inhabited

/-- The UTF-16 code units a character takes. -/
def Char.units16 (c : Char) : Nat := if c.toNat > 0xFFFF then 2 else 1

/-- A text with the byte offset at which each of its lines starts. -/
structure LineIndex where
  text : String
  lineStarts : Array Nat

namespace LineIndex

/-- Indexes a text. -/
def ofText (text : String) : LineIndex :=
  { text,
    lineStarts := (0 :: (Text.withOffsets text).filterMap fun (c, p) =>
      if c == '\n' then some (p + 1) else none).toArray }

/-- The number of lines. -/
def lineCount (i : LineIndex) : Nat := i.lineStarts.size

/-- The place of a byte offset. -/
def positionAt (i : LineIndex) (offset : Nat) : Position :=
  let offset := min offset i.text.utf8ByteSize
  let line := (i.lineStarts.toList.filter (· ≤ offset)).length - 1
  let start := i.lineStarts[line]?.getD 0
  let character := ((Text.withOffsets i.text).filter fun (_, p) => start ≤ p && p < offset).foldl
    (fun n (c, _) => n + Char.units16 c) 0
  ⟨line, character⟩

/-- The byte range of a line, its line feed left out. -/
def lineSpan? (i : LineIndex) (line : Nat) : Option Span := do
  let start ← i.lineStarts[line]?
  let stop := match i.lineStarts[line + 1]? with
    | some next => next - 1
    | none => i.text.utf8ByteSize
  return ⟨start, stop⟩

/-- The byte offset of a place, if its line exists. -/
def offsetAt (i : LineIndex) (p : Position) : Option Nat := do
  let span ← i.lineSpan? p.line
  let chars := (Text.withOffsets i.text).filter fun (_, q) => span.start ≤ q && q < span.stop
  return go chars 0 span.stop
where
  go : List (Char × Nat) → Nat → Nat → Nat
    | [], _, stop => stop
    | (c, q) :: more, column, stop =>
      let column := column + Char.units16 c
      if column > p.character then q else go more column stop

/-- The byte range between two places, if both exist and are in order. -/
def rangeAt (i : LineIndex) (a b : Position) : Option Span := do
  let start ← i.offsetAt a
  let stop ← i.offsetAt b
  if start ≤ stop then some ⟨start, stop⟩ else none

/-- The places of a byte range's ends. -/
def positionsOf (i : LineIndex) (s : Span) : Position × Position :=
  (i.positionAt s.start, i.positionAt s.stop)

end LineIndex

end GameScript
