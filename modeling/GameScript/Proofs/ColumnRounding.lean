import Mathlib
import GameScript.Proofs.LineColumns
/-!
# Lines and columns between two boundaries

`positionAt` gives a place to every byte offset, also one that falls inside a
character, and `offsetAt` gives an offset to every column of an existing line,
also one inside a character or past the line's end. This file says which.

A column of an existing line goes to the start of the first character of the
line whose last code unit lies past the column, or to the line's end when there
is none (`offsetAt_of_column`): a column past the end clamps to the end, and a
column between the two code units of a character goes to that character's
start.

An offset inside a character goes the other way. Its column counts every
character that starts before it, the one it falls inside included, so it is
placed where that character ends (`positionAt_within_char`). With the clamping
of offsets past the end of the text, the place of every offset is the place of
the least character boundary at or after it (`positionAt_eq_next_boundary`),
and not that of the greatest one before it: the example after the theorem is
one offset where the two differ.

Both follow from one observation: `positionAt` reads the offset only through
the line starts and the character offsets below it, so two offsets with no
character starting between them have one place (`positionAt_eq_of_no_char_between`).
-/

set_option autoImplicit false

namespace GameScript

namespace LineIndex

variable {T : String}

/-! ## Offsets that no character start separates -/

/-- A line starts at the start of the text or just after a line feed. -/
theorem mem_lineStarts {q : Nat} (h : q ∈ (ofText T).lineStarts.toList) :
    q = 0 ∨ ∃ p, ('\n', p) ∈ Text.withOffsets T ∧ q = p + 1 := by
  rw [Text.lineStarts_ofText] at h
  rcases List.mem_cons.1 h with rfl | h
  · exact .inl rfl
  · obtain ⟨⟨c, p⟩, hx, hq⟩ := List.mem_filterMap.1 h
    by_cases hc : c = '\n'
    · subst hc
      simp only [beq_self_eq_true, ↓reduceIte, Option.some.injEq] at hq
      exact .inr ⟨p, hx, hq.symm⟩
    · simp [hc] at hq

/-- Two offsets within the text with no character starting from the first up
to the second have one place: their lines have the same starts before them,
and their columns count the same characters. -/
theorem positionAt_eq_of_no_char_between {o e : Nat} (hoe : o ≤ e) (he : e ≤ T.utf8ByteSize)
    (h : ∀ x ∈ Text.withOffsets T, x.2 < o ∨ e ≤ x.2) :
    (ofText T).positionAt o = (ofText T).positionAt e := by
  -- a line start past `o` lies just after a character at or past `e`
  have hstarts : (ofText T).lineStarts.toList.filter (· ≤ o) =
      (ofText T).lineStarts.toList.filter (· ≤ e) := by
    refine List.filter_congr fun q hq => ?_
    rcases mem_lineStarts hq with rfl | ⟨p, hp, rfl⟩
    · simp
    · rcases h _ hp with hlt | hle
      · simp only [decide_eq_decide]
        omega
      · simp only [decide_eq_decide]
        omega
  unfold positionAt
  simp only [Text.text_ofText, Nat.min_eq_left (le_trans hoe he), Nat.min_eq_left he, hstarts]
  congr 2
  refine List.filter_congr fun ⟨c, p⟩ hx => ?_
  have hp : p < o ↔ p < e := by
    rcases h _ hx with hlt | hle <;> constructor <;> intro <;> omega
  simp only [hp]

/-- An offset inside a character has the place of the character's end: no
character starts from the offset up to that end. -/
theorem positionAt_within_char {a b : List Char} {x : Char} (hT : T.toList = a ++ x :: b) {o : Nat}
    (h1 : String.utf8Len a < o) (h2 : o ≤ String.utf8Len a + x.utf8Size) :
    (ofText T).positionAt o = (ofText T).positionAt (String.utf8Len a + x.utf8Size) := by
  have hlen : String.utf8Len a + x.utf8Size ≤ T.utf8ByteSize := by
    rw [← String.utf8Len_toList, hT, String.utf8Len_append, String.utf8Len_cons]
    omega
  refine positionAt_eq_of_no_char_between h2 hlen fun y hy => ?_
  rw [Text.withOffsets, hT, Text.withOffsets_go_append, Nat.zero_add] at hy
  rcases List.mem_append.1 hy with hy | hy
  · -- the characters before `x`
    have := Text.withOffsets_go_bounds a 0 y hy
    omega
  · rw [Text.withOffsets.go] at hy
    rcases List.mem_cons.1 hy with rfl | hy
    · exact .inl h1
    · -- the characters after `x`
      exact .inr (Text.withOffsets_go_bounds b _ y hy).1

/-- An offset past the end of the text has the place of the end. -/
theorem positionAt_of_le {o : Nat} (h : T.utf8ByteSize ≤ o) :
    (ofText T).positionAt o = (ofText T).positionAt T.utf8ByteSize := by
  unfold positionAt
  simp only [Text.text_ofText, Nat.min_eq_right h, Nat.min_self]

/-- Every offset short of the end falls in one character: after the
characters before it, within the one it starts or cuts. -/
theorem exists_char_around (cs : List Char) {m : Nat} (h : m < String.utf8Len cs) :
    ∃ a x b, cs = a ++ x :: b ∧ String.utf8Len a ≤ m ∧ m < String.utf8Len a + x.utf8Size := by
  induction cs generalizing m with
  | nil => simp at h
  | cons y ys ih =>
    rw [String.utf8Len_cons] at h
    by_cases hy : m < y.utf8Size
    · exact ⟨[], y, ys, rfl, by simp, by simpa using hy⟩
    · obtain ⟨a, x, b, rfl, ha, hx⟩ := ih (m := m - y.utf8Size) (by omega)
      refine ⟨y :: a, x, b, rfl, ?_, ?_⟩ <;> rw [String.utf8Len_cons] <;> omega

/-- A character boundary is a prefix's length. -/
theorem isValid_iff_utf8Len_take {e : Nat} :
    String.Pos.Raw.IsValid T ⟨e⟩ ↔ ∃ i, e = String.utf8Len (T.toList.take i) := by
  simp [String.Pos.Raw.isValid_iff_exists_take_toList, String.utf8ByteSize_ofList]

/-- A character starts at a boundary. -/
theorem isValid_before_char {a b : List Char} {x : Char} (hT : T.toList = a ++ x :: b) :
    String.Pos.Raw.IsValid T ⟨String.utf8Len a⟩ :=
  isValid_iff_utf8Len_take.2 ⟨a.length, by rw [hT, List.take_left' rfl]⟩

/-- A character ends at a boundary. -/
theorem isValid_after_char {a b : List Char} {x : Char} (hT : T.toList = a ++ x :: b) :
    String.Pos.Raw.IsValid T ⟨String.utf8Len a + x.utf8Size⟩ := by
  refine isValid_iff_utf8Len_take.2 ⟨a.length + 1, ?_⟩
  rw [hT, List.take_append, List.take_of_length_le (by omega), Nat.add_sub_cancel_left,
    List.take_succ_cons, List.take_zero, String.utf8Len_append, String.utf8Len_cons,
    String.utf8Len_nil, Nat.zero_add]

/-- No character boundary falls inside a character. -/
theorem le_or_le_of_isValid {a b : List Char} {x : Char} (hT : T.toList = a ++ x :: b) {e : Nat}
    (he : String.Pos.Raw.IsValid T ⟨e⟩) :
    e ≤ String.utf8Len a ∨ String.utf8Len a + x.utf8Size ≤ e := by
  obtain ⟨i, rfl⟩ := isValid_iff_utf8Len_take.1 he
  rw [hT, List.take_append, String.utf8Len_append]
  by_cases hi : i ≤ a.length
  · -- a prefix of the characters before `x`
    left
    have hsplit := congrArg String.utf8Len (List.take_append_drop i a)
    rw [String.utf8Len_append] at hsplit
    rw [Nat.sub_eq_zero_of_le hi, List.take_zero]
    simp only [String.utf8Len_nil]
    omega
  · -- the characters before `x`, `x`, and some after it
    right
    obtain ⟨k, hk⟩ : ∃ k, i - a.length = k + 1 := ⟨i - a.length - 1, by omega⟩
    rw [List.take_of_length_le (by omega), hk, List.take_succ_cons, String.utf8Len_cons]
    omega

/-- **Offsets round up to a character boundary.** The place of an offset is
the place of the least character boundary at or after it, the end of the text
for an offset past it: an offset inside a character is placed after that
character. -/
theorem positionAt_eq_next_boundary (T : String) (o : Nat) :
    ∃ e, String.Pos.Raw.IsValid T ⟨e⟩ ∧ min o T.utf8ByteSize ≤ e ∧
      (∀ e', String.Pos.Raw.IsValid T ⟨e'⟩ → min o T.utf8ByteSize ≤ e' → e ≤ e') ∧
      (ofText T).positionAt o = (ofText T).positionAt e := by
  -- the place of `o` is that of `o` clamped to the text
  have hclamp : (ofText T).positionAt o = (ofText T).positionAt (min o T.utf8ByteSize) := by
    unfold positionAt
    simp only [Text.text_ofText, Nat.min_assoc, Nat.min_self]
    rfl
  by_cases hlt : min o T.utf8ByteSize < T.utf8ByteSize
  · obtain ⟨a, x, b, hT, h1, h2⟩ :=
      exists_char_around T.toList (m := min o T.utf8ByteSize) (by rwa [String.utf8Len_toList])
    rcases Nat.lt_or_eq_of_le h1 with h1 | h1
    · -- inside `x`: its end, and no boundary lies between
      refine ⟨String.utf8Len a + x.utf8Size, isValid_after_char hT, by omega, fun e' he' hle => ?_,
        hclamp.trans (positionAt_within_char hT h1 h2.le)⟩
      exact (le_or_le_of_isValid hT he').resolve_left (by omega)
    · -- at the start of `x`: the offset itself
      exact ⟨min o T.utf8ByteSize, h1 ▸ isValid_before_char hT, le_refl _, fun e' _ h => h, hclamp⟩
  · -- past the text: its end
    have hend : min o T.utf8ByteSize = T.utf8ByteSize := by omega
    refine ⟨T.utf8ByteSize, String.Pos.Raw.isValid_rawEndPos, by omega, fun e' _ h => by omega, ?_⟩
    rw [hclamp, hend]

-- the astral character takes bytes 1 to 5: offset 3 is placed after it, as
-- offset 5 is, and not before it, as offset 1 is
example : (ofText "a😀b\n").positionAt 3 = ⟨0, 3⟩ ∧ (ofText "a😀b\n").positionAt 1 = ⟨0, 1⟩ := by
  decide +kernel

/-! ## Columns between two characters -/

/-- The column loop stops at the first character that takes the count past
the column, or at the end of the line when there is none. -/
theorem offsetAt_go_past (pos : Position) (b : List Char) {q col stop : Nat}
    (hq : b = [] → q = stop) (hb : ∀ y ∈ b.head?, pos.character < col + Char.units16 y) :
    offsetAt.go pos (Text.withOffsets.go b q) col stop = q := by
  cases b with
  | nil => exact (hq rfl).symm
  | cons y b =>
    simp only [Text.withOffsets.go, offsetAt.go]
    rw [if_pos (hb y rfl)]

/-- **A column goes to the start of the first character past it.** On a whole
line, a column that the code units of `lp` do not pass and the first
character after `lp` does, or that lies at or past the line's end when nothing
follows `lp`, has the offset where `lp` ends. -/
theorem offsetAt_of_column {pre lp lr post : List Char} (h : Text.IsLine T.toList pre (lp ++ lr) post)
    {c : Nat} (hlp : Text.units16 lp ≤ c) (hlr : ∀ y ∈ lr.head?, c < Text.units16 lp + Char.units16 y) :
    (ofText T).offsetAt ⟨pre.count '\n', c⟩ = some (String.utf8Len pre + String.utf8Len lp) := by
  have hspan := Text.lineSpan?_of_isLine h
  unfold offsetAt
  simp only [hspan, Text.text_ofText, Option.bind_eq_bind, Option.bind_some]
  rw [Text.withOffsets, h.eq, Text.filter_window_go, Text.withOffsets_go_append,
    Text.offsetAt_go_append _ _ _ (by simpa using hlp), Nat.zero_add, offsetAt_go_past _ _ ?_ hlr]
  · rfl
  · rintro rfl
    simp

-- columns past the end of the first line clamp to its end, before its line
-- feed and its carriage return
example : (ofText "ab\r\ncd\n").offsetAt ⟨0, 10⟩ = some 3 := by
  decide +kernel

end LineIndex

end GameScript
