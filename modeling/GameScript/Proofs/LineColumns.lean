import Mathlib
import GameScript.Proofs.Splice
import GameScript.Text.LineIndex
/-!
# Lines and columns: the two ways of naming a place agree

A `LineIndex` turns a byte offset into a line and a UTF-16 column
(`positionAt`) and back (`offsetAt`). This file proves the two inverse where
they can be: from a byte offset between two characters and back again, and
from a line and a column between two code units and back again. Ranges then
survive the trip through the editor's positions, and a line past the last has
no offset.

The argument is about one line at a time. A line of the text is a run of
characters with no line feed, standing at the start of the text or after a
line feed and ending at the end of the text or before a line feed
(`Text.IsLine`). Around such a line the recorded line starts split in two:
those up to the line's start, one for each line before it and the text's
start, and those after its end (`lineStarts_of_isLine`). So every offset
within the line lies on it, its column counts the characters before it on the
line (`positionAt_of_isLine`), and the column loop of `offsetAt` stops at the
first character that would take it past the column (`offsetAt_of_isLine`).
Every offset between characters lies on such a line (`exists_isLine_of_append`),
and so does every line that cutting the text at its line feeds gives
(`isLine_of_lines`).
-/

set_option autoImplicit false

namespace GameScript

namespace Text

/-- The lines of a text: its characters cut at every line feed, which
belongs to neither side. -/
def lines (s : String) : List (List Char) := s.toList.splitOn '\n'

/-- The UTF-16 code units that characters take. -/
def units16 (cs : List Char) : Nat := (cs.map Char.units16).sum

/-- Whether a UTF-16 column falls between the two code units of a character
of `cs` that takes two. -/
def SplitsPair (cs : List Char) (c : Nat) : Prop :=
  ∃ j ch, cs[j]? = some ch ∧ Char.units16 ch = 2 ∧ c = units16 (cs.take j) + 1

/-- `line` stands in the characters `cs` as one whole line, after `pre` and
before `post`. -/
structure IsLine (cs pre line post : List Char) : Prop where
  eq : cs = pre ++ line ++ post
  start : pre = [] ∨ pre.getLast? = some '\n'
  noBreak : '\n' ∉ line
  stop : post = [] ∨ post.head? = some '\n'

@[simp] theorem units16_nil : units16 [] = 0 := rfl

@[simp] theorem units16_cons (c : Char) (cs : List Char) :
    units16 (c :: cs) = Char.units16 c + units16 cs := by
  simp [units16]

@[simp] theorem units16_append (a b : List Char) : units16 (a ++ b) = units16 a + units16 b := by
  simp [units16]

theorem Char.units16_pos (c : Char) : 0 < Char.units16 c := by
  unfold Char.units16
  split <;> omega

/-- The line feeds of characters, each given by the offset just after it. -/
def breaksAfter (cs : List Char) (p : Nat) : List Nat :=
  (withOffsets.go cs p).filterMap fun (c, q) => if c == '\n' then some (q + 1) else none

section Breaks

theorem breaksAfter_append (a b : List Char) (p : Nat) :
    breaksAfter (a ++ b) p = breaksAfter a p ++ breaksAfter b (p + String.utf8Len a) := by
  simp only [breaksAfter, withOffsets_go_append, List.filterMap_append]

theorem breaksAfter_of_noBreak {a : List Char} (h : '\n' ∉ a) (p : Nat) : breaksAfter a p = [] := by
  induction a generalizing p with
  | nil => rfl
  | cons c a ih =>
    have hc : c ≠ '\n' := fun e => h (e ▸ List.mem_cons_self)
    have ha : '\n' ∉ a := fun m => h (List.mem_cons_of_mem _ m)
    simpa [breaksAfter, withOffsets.go, hc] using ih ha (p + c.utf8Size)

theorem breaksAfter_newline (b : List Char) (p : Nat) :
    breaksAfter ('\n' :: b) p = (p + 1) :: breaksAfter b (p + 1) := by
  have hsize : '\n'.utf8Size = 1 := rfl
  simp [breaksAfter, withOffsets.go, hsize]

theorem breaksAfter_cons_of_ne {c : Char} (hc : c ≠ '\n') (b : List Char) (p : Nat) :
    breaksAfter (c :: b) p = breaksAfter b (p + c.utf8Size) := by
  simp [breaksAfter, withOffsets.go, hc]

/-- A line feed is given by an offset after the start and within the bytes. -/
theorem breaksAfter_bounds (a : List Char) (p : Nat) :
    ∀ q ∈ breaksAfter a p, p < q ∧ q ≤ p + String.utf8Len a := by
  intro q hq
  obtain ⟨⟨c, r⟩, hx, hq⟩ := List.mem_filterMap.1 hq
  have hr := withOffsets_go_bounds a p _ hx
  by_cases hc : c = '\n'
  · simp only [hc, beq_self_eq_true, ↓reduceIte, Option.some.injEq] at hq
    dsimp only at hr
    omega
  · simp [hc] at hq

theorem length_breaksAfter (a : List Char) (p : Nat) : (breaksAfter a p).length = a.count '\n' := by
  induction a generalizing p with
  | nil => rfl
  | cons c a ih =>
    by_cases hc : c = '\n'
    · subst hc
      rw [breaksAfter_newline, List.length_cons, ih, List.count_cons_self]
    · rw [breaksAfter_cons_of_ne hc, ih, List.count_cons_of_ne hc]

end Breaks

/-! ## Characters with their offsets -/

section Offsets

/-- Keeping every character of a run keeps the run. -/
theorem filter_go_of_all {f : Char × Nat → Bool} {a : List Char} {p : Nat}
    (h : ∀ x ∈ withOffsets.go a p, f x = true) : (withOffsets.go a p).filter f = withOffsets.go a p :=
  List.filter_eq_self.2 h

/-- Keeping no character of a run leaves nothing. -/
theorem filter_go_of_none {f : Char × Nat → Bool} {a : List Char} {p : Nat}
    (h : ∀ x ∈ withOffsets.go a p, f x = false) : (withOffsets.go a p).filter f = [] :=
  List.filter_eq_nil_iff.2 fun x hx => by simp [h x hx]

/-- Summing the code units of a run of characters with their offsets. -/
theorem foldl_units_go (a : List Char) (p n : Nat) :
    (withOffsets.go a p).foldl (fun n (x : Char × Nat) => n + Char.units16 x.1) n = n + units16 a := by
  induction a generalizing p n with
  | nil => rfl
  | cons c a ih =>
    simp only [withOffsets.go, List.foldl_cons, ih, units16_cons]
    omega

/-- The characters of the middle part of a text, picked out by their
offsets. -/
theorem filter_window_go (a b c : List Char) :
    (withOffsets.go (a ++ b ++ c) 0).filter
      (fun x => decide (String.utf8Len a ≤ x.2) && decide (x.2 < String.utf8Len a + String.utf8Len b)) =
      withOffsets.go b (String.utf8Len a) := by
  rw [withOffsets_go_append, withOffsets_go_append, List.filter_append, List.filter_append,
    filter_go_of_none, filter_go_of_all, filter_go_of_none]
  · simp
  -- after the window
  · intro x hx
    have := withOffsets_go_bounds c _ x hx
    simp only [String.utf8Len_append, Nat.zero_add] at this
    simp only [Bool.and_eq_false_iff, decide_eq_false_iff_not, not_lt]
    exact Or.inr this.1
  -- within the window
  · intro x hx
    have := withOffsets_go_bounds b _ x hx
    simp only [Nat.zero_add] at this
    simp only [Bool.and_eq_true, decide_eq_true_eq]
    exact this
  -- before the window
  · intro x hx
    have := withOffsets_go_bounds a _ x hx
    simp only [Nat.zero_add] at this
    simp only [Bool.and_eq_false_iff, decide_eq_false_iff_not, not_le]
    exact Or.inl this.2

end Offsets

/-! ## The column loop -/

section Columns

/-- The column loop passes the characters that keep it within the column. -/
theorem offsetAt_go_append (pos : Position) {a : List Char} {p col : Nat}
    (rest : List (Char × Nat)) (stop : Nat) (h : col + units16 a ≤ pos.character) :
    LineIndex.offsetAt.go pos (withOffsets.go a p ++ rest) col stop =
      LineIndex.offsetAt.go pos rest (col + units16 a) stop := by
  induction a generalizing p col with
  | nil => simp [withOffsets.go]
  | cons c a ih =>
    simp only [units16_cons] at h
    simp only [withOffsets.go, List.cons_append, LineIndex.offsetAt.go]
    rw [if_neg (by omega), ih (by omega), units16_cons, Nat.add_assoc]

/-- At the column, the loop stops at the next character, or at the end of the
line if there is none. -/
theorem offsetAt_go_at (pos : Position) (b : List Char) (q stop : Nat) (hq : b = [] → q = stop) :
    LineIndex.offsetAt.go pos (withOffsets.go b q) pos.character stop = q := by
  cases b with
  | nil => exact (hq rfl).symm
  | cons c b =>
    have := Char.units16_pos c
    simp only [withOffsets.go, LineIndex.offsetAt.go]
    rw [if_pos (by omega)]

end Columns

/-! ## The line starts around a line -/

section Around

variable {T : String} {pre line post : List Char}

@[simp] theorem text_ofText (T : String) : (LineIndex.ofText T).text = T := rfl

/-- The line starts of an indexed text: its start and the offset after each
line feed. -/
theorem lineStarts_ofText (T : String) :
    (LineIndex.ofText T).lineStarts.toList = 0 :: breaksAfter T.toList 0 := rfl

/-- Up to a line's start the line starts are the text's start and one after
each line feed before the line, the last of them the line's start. -/
theorem starts_before (h : pre = [] ∨ pre.getLast? = some '\n') :
    (0 :: breaksAfter pre 0).length = pre.count '\n' + 1 ∧
    (0 :: breaksAfter pre 0)[pre.count '\n']? = some (String.utf8Len pre) ∧
    ∀ q ∈ 0 :: breaksAfter pre 0, q ≤ String.utf8Len pre := by
  refine ⟨by rw [List.length_cons, length_breaksAfter], ?_, ?_⟩
  · rcases h with rfl | h
    · rfl
    · obtain ⟨pre', rfl⟩ := List.getLast?_eq_some_iff.1 h
      -- the last line feed of `pre` gives the last start
      have hlast : breaksAfter (pre' ++ ['\n']) 0 = breaksAfter pre' 0 ++ [String.utf8Len pre' + 1] := by
        rw [breaksAfter_append, breaksAfter_newline]
        simp [breaksAfter, withOffsets.go]
      have hlen := length_breaksAfter pre' 0
      rw [hlast, ← List.cons_append, List.getElem?_append_right (by simp [hlen])]
      simp [hlen, List.count_append, String.utf8Len_append]
      rfl
  · intro q hq
    rcases List.mem_cons.1 hq with rfl | hq
    · exact Nat.zero_le _
    · have := breaksAfter_bounds pre 0 q hq
      omega

/-- Around a whole line, the line starts are those up to its start and those
after its end. -/
theorem lineStarts_of_isLine (h : IsLine T.toList pre line post) :
    (LineIndex.ofText T).lineStarts.toList =
      (0 :: breaksAfter pre 0) ++ breaksAfter post (String.utf8Len pre + String.utf8Len line) := by
  rw [lineStarts_ofText, h.eq, breaksAfter_append, breaksAfter_append, breaksAfter_of_noBreak h.noBreak]
  simp

/-- A whole line spans from its start to its end, its line feed left out. -/
theorem lineSpan?_of_isLine (h : IsLine T.toList pre line post) :
    (LineIndex.ofText T).lineSpan? (pre.count '\n') =
      some ⟨String.utf8Len pre, String.utf8Len pre + String.utf8Len line⟩ := by
  obtain ⟨hlen, hstart, -⟩ := starts_before h.start
  have hstarts := lineStarts_of_isLine h
  have hat : (LineIndex.ofText T).lineStarts[pre.count '\n']? = some (String.utf8Len pre) := by
    rw [← Array.getElem?_toList, hstarts, List.getElem?_append_left (by omega), hstart]
  have hnext : (LineIndex.ofText T).lineStarts[pre.count '\n' + 1]? =
      (breaksAfter post (String.utf8Len pre + String.utf8Len line)).head? := by
    rw [← Array.getElem?_toList, hstarts, List.getElem?_append_right (by omega), hlen,
      Nat.sub_self, List.head?_eq_getElem?]
  simp only [LineIndex.lineSpan?, hat, hnext]
  rcases h.stop with hpost | hpost
  · -- the last line ends with the text
    have hsize : T.utf8ByteSize = String.utf8Len pre + String.utf8Len line := by
      rw [← String.utf8Len_toList, h.eq, hpost]
      simp [String.utf8Len_append]
    simp [hpost, breaksAfter, withOffsets.go, hsize]
  · -- any other line ends before its line feed
    obtain ⟨post', rfl⟩ : ∃ post', post = '\n' :: post' := by
      cases post with
      | nil => simp at hpost
      | cons c post' => simp only [List.head?_cons, Option.some.injEq] at hpost; exact ⟨post', by rw [hpost]⟩
    simp [breaksAfter_newline]

/-- An offset on a whole line is placed on it, at the code units of the
characters before it on the line. -/
theorem positionAt_of_isLine {lp lr : List Char} (h : IsLine T.toList pre (lp ++ lr) post) :
    (LineIndex.ofText T).positionAt (String.utf8Len pre + String.utf8Len lp) =
      ⟨pre.count '\n', units16 lp⟩ := by
  obtain ⟨hlen, hstart, hle⟩ := starts_before h.start
  have hsize : T.utf8ByteSize =
      String.utf8Len pre + String.utf8Len lp + String.utf8Len lr + String.utf8Len post := by
    rw [← String.utf8Len_toList, h.eq]
    simp only [String.utf8Len_append]
    omega
  -- the starts up to the offset are those up to the line's start
  have hline : ((LineIndex.ofText T).lineStarts.toList.filter
      (· ≤ String.utf8Len pre + String.utf8Len lp)).length - 1 = pre.count '\n' := by
    rw [lineStarts_of_isLine h, List.filter_append, List.filter_eq_self.2, List.filter_eq_nil_iff.2]
    · simp [hlen]
    · intro q hq
      have := breaksAfter_bounds post _ q hq
      simp only [String.utf8Len_append, decide_eq_true_eq] at this ⊢
      omega
    · intro q hq
      have := hle q hq
      simp only [decide_eq_true_eq]
      omega
  have hat : (LineIndex.ofText T).lineStarts[pre.count '\n']? = some (String.utf8Len pre) := by
    rw [← Array.getElem?_toList, lineStarts_of_isLine h, List.getElem?_append_left (by omega), hstart]
  -- the characters before it on the line are those of `lp`
  have hchars : T.toList = pre ++ lp ++ (lr ++ post) := by
    rw [h.eq]
    simp
  unfold LineIndex.positionAt
  simp only [text_ofText, hsize]
  rw [Nat.min_eq_left (by omega), hline, hat, Option.getD_some, Text.withOffsets, hchars,
    filter_window_go, foldl_units_go, Nat.zero_add]

/-- A column on a whole line at the code units of the characters before an
offset has that offset. -/
theorem offsetAt_of_isLine {lp lr : List Char} (h : IsLine T.toList pre (lp ++ lr) post) :
    (LineIndex.ofText T).offsetAt ⟨pre.count '\n', units16 lp⟩ =
      some (String.utf8Len pre + String.utf8Len lp) := by
  have hspan := lineSpan?_of_isLine h
  unfold LineIndex.offsetAt
  simp only [hspan, text_ofText, Option.bind_eq_bind, Option.bind_some]
  rw [Text.withOffsets, h.eq, filter_window_go, withOffsets_go_append,
    offsetAt_go_append _ _ _ (by simp), Nat.zero_add, offsetAt_go_at]
  · rfl
  · rintro rfl
    simp

end Around

/-! ## Where the lines are -/

section Lines

theorem IsLine.pre_eq_nil {cs pre line post : List Char} (h : IsLine cs pre line post)
    (hcount : pre.count '\n' = 0) : pre = [] := by
  rcases h.start with hpre | hpre
  · exact hpre
  · obtain ⟨pre', rfl⟩ := List.getLast?_eq_some_iff.1 hpre
    simp [List.count_append] at hcount

/-- Every offset between two characters lies on a whole line: cut what comes
before it at its last line feed and what comes after it at its first. -/
theorem exists_isLine_of_append {cs xs ys : List Char} (h : cs = xs ++ ys) :
    ∃ pre lp lr post, IsLine cs pre (lp ++ lr) post ∧ xs = pre ++ lp := by
  let notBreak : Char → Bool := (· != '\n')
  have hxs : (xs.reverse.dropWhile notBreak).reverse ++ (xs.reverse.takeWhile notBreak).reverse = xs := by
    rw [← List.reverse_append, List.takeWhile_append_dropWhile, List.reverse_reverse]
  have hbreak : ∀ l : List Char, (l.dropWhile notBreak).head? = none ∨
      (l.dropWhile notBreak).head? = some '\n' := by
    intro l
    have := List.head?_dropWhile_not notBreak l
    revert this
    cases (l.dropWhile notBreak).head? with
    | none => simp
    | some c => simp [notBreak]
  have hnot : ∀ l : List Char, '\n' ∉ l.takeWhile notBreak := by
    intro l hmem
    simpa [notBreak] using List.mem_takeWhile_imp hmem
  refine ⟨(xs.reverse.dropWhile notBreak).reverse, (xs.reverse.takeWhile notBreak).reverse,
    ys.takeWhile notBreak, ys.dropWhile notBreak, ⟨?_, ?_, ?_, ?_⟩, hxs.symm⟩
  · have hys : ys.takeWhile notBreak ++ ys.dropWhile notBreak = ys := List.takeWhile_append_dropWhile
    rw [h]
    simp only [List.append_assoc]
    rw [hys, ← List.append_assoc, hxs]
  · rw [List.getLast?_reverse]
    rcases hbreak xs.reverse with hnone | hsome
    · exact Or.inl (List.reverse_eq_nil_iff.2 (List.head?_eq_none_iff.1 hnone))
    · exact Or.inr hsome
  · rw [List.mem_append, List.mem_reverse]
    rintro (hmem | hmem) <;> exact hnot _ hmem
  · rcases hbreak ys with hnone | hsome
    · exact Or.inl (List.head?_eq_none_iff.1 hnone)
    · exact Or.inr hsome

/-- Cutting characters at their line feeds gives one more line than there
are line feeds. -/
theorem length_splitOn_newline (cs : List Char) : (cs.splitOn '\n').length = cs.count '\n' + 1 := by
  induction cs with
  | nil => rfl
  | cons x xs ih =>
    rw [List.splitOn, List.splitOnP_cons_eq_if_modifyHead, ← List.splitOn]
    by_cases hx : x = '\n'
    · subst hx
      simp [ih]
    · simp [hx, ih, List.count_cons_of_ne hx]

/-- Every line that cutting characters at their line feeds gives is a whole
line, after as many line feeds as lines before it. -/
theorem isLine_of_splitOn (cs : List Char) (l : Nat) (line : List Char)
    (h : (cs.splitOn '\n')[l]? = some line) :
    ∃ pre post, IsLine cs pre line post ∧ pre.count '\n' = l := by
  induction cs generalizing l line with
  | nil =>
    rw [List.splitOn_nil] at h
    cases l with
    | zero =>
      cases h
      exact ⟨[], [], ⟨rfl, Or.inl rfl, List.not_mem_nil, Or.inl rfl⟩, rfl⟩
    | succ l => simp at h
  | cons x xs ih =>
    rw [List.splitOn, List.splitOnP_cons_eq_if_modifyHead, ← List.splitOn] at h
    by_cases hx : x = '\n'
    · -- a line feed ends the first line, which is empty
      subst hx
      rw [if_pos (beq_self_eq_true _)] at h
      cases l with
      | zero =>
        cases h
        exact ⟨[], '\n' :: xs, ⟨rfl, Or.inl rfl, List.not_mem_nil, Or.inr rfl⟩, rfl⟩
      | succ l =>
        obtain ⟨pre, post, hline, hcount⟩ := ih l line h
        refine ⟨'\n' :: pre, post, ⟨by rw [hline.eq]; rfl, Or.inr ?_, hline.noBreak, hline.stop⟩,
          by rw [List.count_cons_self, hcount]⟩
        rcases hline.start with rfl | hlast
        · rfl
        · rw [List.getLast?_cons, hlast]
          rfl
    · -- any other character starts the first line
      rw [if_neg (by simpa using hx)] at h
      cases l with
      | zero =>
        rw [List.getElem?_modifyHead_zero] at h
        obtain ⟨line0, h0, rfl⟩ := Option.map_eq_some_iff.1 h
        obtain ⟨pre, post, hline, hcount⟩ := ih 0 line0 h0
        have hpre := hline.pre_eq_nil hcount
        subst hpre
        refine ⟨[], post, ⟨by rw [hline.eq]; rfl, Or.inl rfl, ?_, hline.stop⟩, rfl⟩
        rw [List.mem_cons, not_or]
        exact ⟨Ne.symm hx, hline.noBreak⟩
      | succ l =>
        rw [List.getElem?_modifyHead_succ] at h
        obtain ⟨pre, post, hline, hcount⟩ := ih (l + 1) line h
        have hne : pre ≠ [] := by
          rintro rfl
          simp at hcount
        refine ⟨x :: pre, post, ⟨by rw [hline.eq]; rfl, Or.inr ?_, hline.noBreak, hline.stop⟩,
          by rw [List.count_cons_of_ne hx, hcount]⟩
        rcases hline.start with hnil | hlast
        · exact absurd hnil hne
        · rw [List.getLast?_cons, hlast]
          rfl

/-- A column within a line that does not split a pair of code units is the
code units of the characters before some place of the line. -/
theorem exists_append_of_column {cs : List Char} {c : Nat} (hc : c ≤ units16 cs)
    (hpair : ¬ SplitsPair cs c) : ∃ a b, cs = a ++ b ∧ units16 a = c := by
  induction cs generalizing c with
  | nil =>
    simp only [units16_nil, Nat.le_zero] at hc
    exact ⟨[], [], rfl, hc.symm⟩
  | cons x xs ih =>
    rcases Nat.eq_zero_or_pos c with rfl | hpos
    · exact ⟨[], x :: xs, rfl, rfl⟩
    by_cases hx : Char.units16 x ≤ c
    · -- the column lies past `x`: look for it in the rest
      have hrest : ¬ SplitsPair xs (c - Char.units16 x) := by
        rintro ⟨j, ch, hj, hch, hcol⟩
        refine hpair ⟨j + 1, ch, by simpa using hj, hch, ?_⟩
        simp only [List.take_succ_cons, units16_cons]
        omega
      simp only [units16_cons] at hc
      obtain ⟨a, b, rfl, ha⟩ := ih (c := c - Char.units16 x) (by omega) hrest
      exact ⟨x :: a, b, rfl, by simp only [units16_cons]; omega⟩
    · -- the column would fall inside `x`, between its two code units
      have h2 : Char.units16 x = 2 := by
        unfold Char.units16 at hx ⊢
        by_cases hbig : x.toNat > 0xFFFF
        · rw [if_pos hbig]
        · rw [if_neg hbig] at hx
          omega
      exact absurd ⟨0, x, rfl, h2, by simp; omega⟩ hpair

end Lines

end Text

namespace LineIndex

/-- An index has a line for each line of its text. -/
theorem lineCount_ofText (T : String) : (ofText T).lineCount = (Text.lines T).length := by
  rw [lineCount, ← Array.length_toList, Text.lineStarts_ofText, List.length_cons,
    Text.length_breaksAfter, Text.lines, Text.length_splitOn_newline]

/-- A place has an offset exactly when its line exists. -/
theorem offsetAt_eq_none_iff (i : LineIndex) (p : Position) :
    i.offsetAt p = none ↔ i.lineCount ≤ p.line := by
  unfold offsetAt lineSpan? lineCount
  cases h : i.lineStarts[p.line]? with
  | none =>
    simp only [Option.bind_eq_bind, Option.bind_none, true_iff]
    exact Array.getElem?_eq_none_iff.1 h
  | some start =>
    simp only [Option.pure_def, Option.bind_eq_bind, Option.bind_some, reduceCtorEq, false_iff, not_le]
    exact (Array.getElem?_eq_some_iff.1 h).1

/-- An offset between two characters comes back from its place. -/
theorem offsetAt_positionAt {T : String} {o : Nat} (h : String.Pos.Raw.IsValid T ⟨o⟩) :
    (ofText T).offsetAt ((ofText T).positionAt o) = some o := by
  obtain ⟨s₁, s₂, hT, ho⟩ := String.Pos.Raw.isValid_iff_exists_append.1 h
  have hsplit : T.toList = s₁.toList ++ s₂.toList := by rw [hT, String.toList_append]
  obtain ⟨pre, lp, lr, post, hline, hs₁⟩ := Text.exists_isLine_of_append hsplit
  -- the offset is where `lp` ends on its line
  have hoff : o = String.utf8Len pre + String.utf8Len lp := by
    have : o = s₁.utf8ByteSize := congrArg String.Pos.Raw.byteIdx ho
    rw [this, ← String.utf8Len_toList, hs₁, String.utf8Len_append]
  rw [hoff, Text.positionAt_of_isLine hline, Text.offsetAt_of_isLine hline]

/-- A column of a line that does not split a pair of code units comes back
from its offset. -/
theorem positionAt_offsetAt {T : String} {l c : Nat} {line : List Char}
    (hl : (Text.lines T)[l]? = some line) (hc : c ≤ Text.units16 line)
    (hpair : ¬ Text.SplitsPair line c) :
    ∃ o, (ofText T).offsetAt ⟨l, c⟩ = some o ∧ (ofText T).positionAt o = ⟨l, c⟩ := by
  obtain ⟨pre, post, hline, rfl⟩ := Text.isLine_of_splitOn T.toList l line hl
  obtain ⟨lp, lr, rfl, rfl⟩ := Text.exists_append_of_column hc hpair
  exact ⟨_, Text.offsetAt_of_isLine hline, Text.positionAt_of_isLine hline⟩

/-- **Offsets and places are mutually inverse.** For every text: it has as
many lines as cutting it at its line feeds gives, and a place has an offset
exactly when its line exists; an offset between two characters comes back
from its place; a line's column that is within the line and does not fall
between the two code units of one character comes back from its offset; and
so a range between characters comes back from its two places. -/
theorem offsetAt_positionAt_inverse (T : String) :
    (ofText T).lineCount = (Text.lines T).length ∧
    (∀ p : Position, (ofText T).offsetAt p = none ↔ (ofText T).lineCount ≤ p.line) ∧
    (∀ o : Nat, String.Pos.Raw.IsValid T ⟨o⟩ → (ofText T).offsetAt ((ofText T).positionAt o) = some o) ∧
    (∀ (l c : Nat) (line : List Char), (Text.lines T)[l]? = some line → c ≤ Text.units16 line →
      ¬ Text.SplitsPair line c →
      ∃ o, (ofText T).offsetAt ⟨l, c⟩ = some o ∧ (ofText T).positionAt o = ⟨l, c⟩) ∧
    (∀ r : Span, r.start ≤ r.stop → String.Pos.Raw.IsValid T ⟨r.start⟩ →
      String.Pos.Raw.IsValid T ⟨r.stop⟩ →
      (ofText T).rangeAt ((ofText T).positionsOf r).1 ((ofText T).positionsOf r).2 = some r) := by
  refine ⟨lineCount_ofText T, offsetAt_eq_none_iff _, fun o ho => offsetAt_positionAt ho,
    fun l c line hl hc hpair => positionAt_offsetAt hl hc hpair, fun r hle hstart hstop => ?_⟩
  -- both ends come back, in order
  simp only [positionsOf, rangeAt, offsetAt_positionAt hstart, offsetAt_positionAt hstop,
    Option.bind_eq_bind, Option.bind_some, if_pos hle]

/-- In `a😀b` and a line feed, the offset after the emoji, five bytes in,
comes back from its place. -/
theorem offsetAt_positionAt_astral :
    String.Pos.Raw.IsValid "a😀b\n" ⟨5⟩ ∧
      (ofText "a😀b\n").offsetAt ((ofText "a😀b\n").positionAt 5) = some 5 := by
  have hvalid : String.Pos.Raw.IsValid "a😀b\n" ⟨5⟩ := String.Pos.Raw.isValid_eq_true_iff.1 rfl
  exact ⟨hvalid, (offsetAt_positionAt_inverse "a😀b\n").2.2.1 5 hvalid⟩

-- the emoji takes two code units; a column between them has the emoji's offset
example : (ofText "a😀b\n").positionAt 5 = ⟨0, 3⟩ := by decide +kernel
example : (ofText "a😀b\n").offsetAt ⟨0, 2⟩ = some 1 := by decide +kernel

end LineIndex

end GameScript
