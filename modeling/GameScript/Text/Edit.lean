import GameScript.Syntax.View
import GameScript.Text.Quote
/-!
# Text edits

An edit replaces a byte range of a text with new text. A list of edits is
applied in order, each against the text as it was: an edit is skipped when it
starts before the end of the edit applied before it, or ends past the text.

The text around the applied edits is kept as it is, in pieces that run from
the end of one edit to the start of the next. A piece must start and end
between characters: when one would split a character, the edits cannot be
applied, and the first such offset, in order, is reported with the
character it falls inside.
-/

namespace GameScript

/-- Replaces the text in `span` by `newText`. -/
structure TextEdit where
  span : Span
  newText : String
  deriving DecidableEq, Repr, Inhabited

namespace Text

/-- The characters of a text, each with the byte offset it starts at. -/
def withOffsets (s : String) : List (Char × Nat) :=
  go s.toList 0
where
  go : List Char → Nat → List (Char × Nat)
    | [], _ => []
    | c :: cs, p => (c, p) :: go cs (p + c.utf8Size)

/-- The edits that apply: each starts at or after the end of the previous
one applied and ends within the text. -/
def appliedEdits (len : Nat) (edits : List TextEdit) : List TextEdit :=
  (edits.foldl (fun (acc : List TextEdit × Nat) e =>
    if e.span.start < acc.2 || e.span.stop > len then acc else (e :: acc.1, e.span.stop))
    ([], 0)).1.reverse

/-- Characters with their offsets, changed by edits in order that do not
overlap: the characters before each edit's start are kept, those in its
range are replaced by its text. -/
def splice : List (Char × Nat) → List TextEdit → List Char
  | cs, [] => cs.map (·.1)
  | cs, e :: es =>
    let before := cs.takeWhile (·.2 < e.span.start)
    let rest := (cs.dropWhile (·.2 < e.span.start)).dropWhile (·.2 < e.span.stop)
    before.map (·.1) ++ e.newText.toList ++ splice rest es

/-- The text with the edits applied. -/
def applyEdits (source : String) (edits : List TextEdit) : String :=
  String.ofList (splice (withOffsets source) (appliedEdits source.utf8ByteSize edits))

/-- A kept piece of text that would start or end inside a character. -/
structure SplitCharacter where
  /-- Whether the offset is where the piece starts (else where it ends). -/
  atStart : Bool
  offset : Nat
  /-- The character the offset falls inside. -/
  char : Char
  /-- Where that character starts. -/
  charStart : Nat
  deriving DecidableEq, Repr, Inhabited

/-- The report of a split character. -/
def SplitCharacter.message (e : SplitCharacter) : String :=
  (if e.atStart then "start" else "end") ++ " byte index " ++ toString e.offset ++
    " is not a char boundary; it is inside " ++ quoteChar e.char ++ " (bytes " ++
    toString e.charStart ++ ".." ++ toString (e.charStart + e.char.utf8Size) ++ " of string)"

/-- The character that `offset` falls strictly inside, with its start. -/
def charAround? (s : String) (offset : Nat) : Option (Char × Nat) :=
  (withOffsets s).find? fun (c, p) => p < offset && offset < p + c.utf8Size

/-- The pieces of a text of `len` bytes kept around edits that apply, in
order. -/
def keptPieces (len : Nat) (applied : List TextEdit) : List Span :=
  go 0 applied
where
  /-- The pieces from `last` on. -/
  go (last : Nat) : List TextEdit → List Span
    | [] => [⟨last, len⟩]
    | e :: es => ⟨last, e.span.start⟩ :: go e.span.stop es

/-- The first end of a kept piece, in order, that falls inside a character. -/
def splitCharacter? (source : String) (edits : List TextEdit) : Option SplitCharacter :=
  (keptPieces source.utf8ByteSize (appliedEdits source.utf8ByteSize edits)).findSome? fun p =>
    match charAround? source p.start with
    | some (c, q) => some ⟨true, p.start, c, q⟩
    | none => (charAround? source p.stop).map fun (c, q) => ⟨false, p.stop, c, q⟩

/-- The text with the edits applied, unless a kept piece would split a
character. -/
def applyEditsChecked (source : String) (edits : List TextEdit) : Except SplitCharacter String :=
  match splitCharacter? source edits with
  | some e => .error e
  | none => .ok (applyEdits source edits)

end Text

end GameScript
