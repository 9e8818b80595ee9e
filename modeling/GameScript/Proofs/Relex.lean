import Mathlib
import GameScript.Proofs.Lexer
/-!
# Lexing an edited text again

The formatter rewrites a text and the result is lexed again. This file says
when a lexeme survives such an edit, by what the lexer looks at when it cuts
one (`Lexer.scan`):

* it never tells an ASCII letter from its other case, except in the text it
  keeps (`scan_toLower`): keywords are compared in lower case, and every other
  class of characters it tests holds of both cases of a letter or of neither;
* a lexeme that is no blank run, line break, comment or string stops before
  the first blank or line break, and is cut the same whatever follows that
  separator (`scan_run`);
* a blank run, a line-break run and a comment are cut the same when what
  follows them starts the same way, and a closed string whatever follows it.

`CutsTo` states that a text is cut into given lexemes by those rules, one at
a time, each from the text after it; `lexFrom` then returns those lexemes
(`lexFrom_of_cutsTo`), and conversely its own tokens are so cut
(`cutsTo_lexFrom`). So a text is lexed by showing how it is cut.
-/

set_option autoImplicit false

namespace GameScript

/-- The kinds of lexeme that may hold a blank or a line break: blank runs,
line breaks, comments and strings. Every other lexeme ends before the first
one. -/
def TokenKind.holdsSeparators : TokenKind → Bool
  | .whitespace | .newline | .comment | .string => true
  | _ => false

theorem TokenKind.ofWord_holdsSeparators (w : String) : (ofWord w).holdsSeparators = false := by
  unfold ofWord keyword?
  split <;> rfl

namespace Lexer

/-! ## Characters and their lower case -/

/-- An ASCII letter, of either case. -/
def IsLetter (c : Char) : Prop :=
  (65 ≤ c.toNat ∧ c.toNat ≤ 90) ∨ (97 ≤ c.toNat ∧ c.toNat ≤ 122)

instance : DecidablePred IsLetter := fun c =>
  inferInstanceAs (Decidable ((65 ≤ c.toNat ∧ c.toNat ≤ 90) ∨ (97 ≤ c.toNat ∧ c.toNat ≤ 122)))

/-- Lower case moves an upper-case ASCII letter 32 places up and keeps every
other character. -/
theorem toLower_cases (c : Char) :
    c.toLower = c ∨ (65 ≤ c.toNat ∧ c.toNat ≤ 90 ∧ c.toLower.toNat = c.toNat + 32) := by
  unfold Char.toLower
  split
  · rename_i h
    right
    have h1 : 'A'.val ≤ c.val := h.1
    have h2 : c.val ≤ 'Z'.val := h.2
    rw [UInt32.le_iff_toNat_le] at h1 h2
    simp only [Char.toNat, UInt32.toNat_add]
    simp at h1 h2 ⊢
    omega
  · left; rfl

/-- Lower case keeps every character but an upper-case letter. -/
theorem toLower_of_not_upper {c : Char} (h : ¬ (65 ≤ c.toNat ∧ c.toNat ≤ 90)) : c.toLower = c := by
  rcases toLower_cases c with e | ⟨h1, h2, -⟩
  · exact e
  · exact absurd ⟨h1, h2⟩ h

@[simp] theorem toLower_toLower (c : Char) : c.toLower.toLower = c.toLower := by
  rcases toLower_cases c with e | ⟨h1, h2, h3⟩
  · rw [e, e]
  · exact toLower_of_not_upper (by omega)

/-- A class of characters that holds of no ASCII letter reads the same at a
character and at its lower case. -/
theorem toLower_of_letterFree {p : Char → Bool} (hp : ∀ c, IsLetter c → p c = false)
    (c : Char) : p c.toLower = p c := by
  rcases toLower_cases c with h | ⟨h1, h2, h3⟩
  · rw [h]
  · rw [hp c (.inl ⟨h1, h2⟩), hp _ (.inr ⟨by omega, by omega⟩)]

/-- A character that is no letter is met in lower case exactly where it is met. -/
theorem beq_toLower {d : Char} (hd : ¬ IsLetter d) (c : Char) : (c.toLower == d) = (c == d) :=
  toLower_of_letterFree (p := (· == d)) (fun c hc => by
    simp only [beq_eq_false_iff_ne]
    rintro rfl
    exact hd hc) c

theorem beq_eq_false_of_letter {c d : Char} (hc : IsLetter c) (hd : ¬ IsLetter d) :
    (c == d) = false := by
  simp only [beq_eq_false_iff_ne]
  rintro rfl
  exact hd hc

theorem isUpper_iff (c : Char) : c.isUpper = true ↔ 65 ≤ c.toNat ∧ c.toNat ≤ 90 := by
  simp [Char.isUpper, UInt32.le_iff_toNat_le, Char.toNat_val]

theorem isLower_iff (c : Char) : c.isLower = true ↔ 97 ≤ c.toNat ∧ c.toNat ≤ 122 := by
  simp [Char.isLower, UInt32.le_iff_toNat_le, Char.toNat_val]

theorem isDigit_of_letter {c : Char} (hc : IsLetter c) : c.isDigit = false := by
  simp only [Char.isDigit, Bool.and_eq_false_iff, decide_eq_false_iff_not,
    UInt32.le_iff_toNat_le, Char.toNat_val]
  unfold IsLetter at hc
  simp
  omega

@[simp] theorem isDigit_toLower (c : Char) : c.toLower.isDigit = c.isDigit :=
  toLower_of_letterFree (p := Char.isDigit) (fun _ hc => isDigit_of_letter hc) c

theorem isBlank_of_letter {c : Char} (hc : IsLetter c) : isBlank c = false := by
  simp only [isBlank, beq_eq_false_of_letter hc (by decide : ¬ IsLetter ' '),
    beq_eq_false_of_letter hc (by decide : ¬ IsLetter '\t'),
    beq_eq_false_of_letter hc (by decide : ¬ IsLetter '\x0c'), Bool.or_false]

theorem isLineBreak_of_letter {c : Char} (hc : IsLetter c) : isLineBreak c = false := by
  simp only [isLineBreak, beq_eq_false_of_letter hc (by decide : ¬ IsLetter '\r'),
    beq_eq_false_of_letter hc (by decide : ¬ IsLetter '\n'), Bool.or_false]

@[simp] theorem isBlank_toLower (c : Char) : isBlank c.toLower = isBlank c :=
  toLower_of_letterFree (fun _ hc => isBlank_of_letter hc) c

@[simp] theorem isLineBreak_toLower (c : Char) : isLineBreak c.toLower = isLineBreak c :=
  toLower_of_letterFree (fun _ hc => isLineBreak_of_letter hc) c

@[simp] theorem isWordChar_toLower (c : Char) : isWordChar c.toLower = isWordChar c := by
  rcases toLower_cases c with e | ⟨h1, h2, h3⟩
  · rw [e]
  · have hu : c.isUpper = true := (isUpper_iff c).2 ⟨h1, h2⟩
    have hl : c.toLower.isLower = true := (isLower_iff _).2 ⟨by omega, by omega⟩
    simp [isWordChar, Char.isAlphanum, Char.isAlpha, hu, hl]

@[simp] theorem isHexDigit_toLower (c : Char) : isHexDigit c.toLower = isHexDigit c := by
  rcases toLower_cases c with e | ⟨h1, h2, h3⟩
  · rw [e]
  · simp only [isHexDigit, isDigit_of_letter (.inl ⟨h1, h2⟩),
      isDigit_of_letter (c := c.toLower) (.inr ⟨by omega, by omega⟩), Bool.false_or,
      Char.le_def, UInt32.le_iff_toNat_le, Char.toNat_val]
    have ha : ('a' : Char).toNat = 97 := rfl
    have hf : ('f' : Char).toNat = 102 := rfl
    have hA : ('A' : Char).toNat = 65 := rfl
    have hF : ('F' : Char).toNat = 70 := rfl
    rw [h3, Bool.eq_iff_iff]
    simp only [Bool.or_eq_true, Bool.and_eq_true, decide_eq_true_eq]
    omega

/-- A test that ignores case cuts a text in lower case at the same length. -/
theorem takeWhile_map_toLower {p : Char → Bool} (hp : ∀ c, p c.toLower = p c) (cs : List Char) :
    (cs.map Char.toLower).takeWhile p = (cs.takeWhile p).map Char.toLower := by
  rw [List.takeWhile_map]
  congr 2
  funext c
  exact hp c

theorem startsWord_map_toLower (cs : List Char) :
    startsWord (cs.map Char.toLower) = startsWord cs := by
  cases cs <;> simp [startsWord]

/-- Keywords are recognised in lower case, so a word's kind ignores its case. -/
theorem ofWord_map_toLower (cs : List Char) :
    TokenKind.ofWord (String.ofList (cs.map Char.toLower)) = TokenKind.ofWord (String.ofList cs) := by
  have h : ∀ l : List Char, (String.ofList l).toLower = String.ofList (l.map Char.toLower) := by
    intro l
    apply String.toList_injective
    simp [String.toLower, String.toList_map]
  simp only [TokenKind.ofWord, h, List.map_map]
  congr 3
  exact List.map_congr_left fun c _ => toLower_toLower c

/-- No two-character operator ends in a letter. -/
theorem twoCharOp?_of_letter (c : Char) {d : Char} (hd : IsLetter d) : twoCharOp? c d = none := by
  unfold twoCharOp?
  split <;> first | rfl | (exfalso; revert hd; decide)

theorem twoCharOp?_toLower (c d : Char) : twoCharOp? c d.toLower = twoCharOp? c d := by
  rcases toLower_cases d with e | ⟨h1, h2, h3⟩
  · rw [e]
  · rw [twoCharOp?_of_letter c (.inl ⟨h1, h2⟩), twoCharOp?_of_letter c (.inr ⟨by omega, by omega⟩)]

theorem numberTail_map_toLower (cs : List Char) :
    numberTail (cs.map Char.toLower) = numberTail cs := by
  unfold numberTail
  simp only [takeWhile_map_toLower isDigit_toLower, List.length_map, ← List.map_drop]
  generalize (cs.takeWhile Char.isDigit).length = n
  rcases cs.drop n with _ | ⟨x, _ | ⟨y, m⟩⟩
  · rfl
  · simp
  · by_cases hx : x = '.'
    · subst hx
      simp [takeWhile_map_toLower isDigit_toLower]
    · have hx' : x.toLower ≠ '.' := by
        intro e
        have := beq_toLower (d := '.') (by decide) x
        simp [e, hx] at this
      simp [hx, hx']

/-- The mark of a hexadecimal number, `x` or `X`, seen in lower case. -/
theorem hexMark_toLower (x : Char) :
    (x.toLower == 'x' || x.toLower == 'X') = (x == 'x' || x == 'X') := by
  rcases toLower_cases x with e | ⟨h1, h2, h3⟩
  · rw [e]
  · have hX : (x.toLower == 'X') = false :=
      beq_eq_false_iff_ne.2 fun e => by rw [e] at h3; simp at h3; omega
    have hx : (x == 'x') = false :=
      beq_eq_false_iff_ne.2 fun e => by rw [e] at h1 h2; simp at h1 h2
    have hXX : (x.toLower == 'x') = (x == 'X') := by
      rw [Bool.eq_iff_iff, beq_iff_eq, beq_iff_eq, ← Char.toNat_inj, ← Char.toNat_inj, h3]
      simp
    rw [hX, hx, hXX, Bool.or_false, Bool.false_or]

theorem toLower_of_isDigit {c : Char} (h : c.isDigit) : c.toLower = c :=
  toLower_of_not_upper fun hu => by
    rw [isDigit_of_letter (.inl hu)] at h
    exact Bool.false_ne_true h

theorem scanDigitWord_map_toLower {c : Char} (hc : c.isDigit) (cs : List Char) :
    scanDigitWord c (cs.map Char.toLower) = scanDigitWord c cs := by
  have hw := ofWord_map_toLower (c :: cs.takeWhile isWordChar)
  rw [List.map_cons, toLower_of_isDigit hc] at hw
  unfold scanDigitWord
  simp only [takeWhile_map_toLower isWordChar_toLower, numberTail_map_toLower, ← List.map_drop,
    startsWord_map_toLower, List.length_map, hw]
  rcases cs.takeWhile isWordChar with _ | ⟨x, rest⟩
  · rfl
  · simp only [List.map_cons, hexMark_toLower, takeWhile_map_toLower isHexDigit_toLower,
      List.length_map]


theorem isWordChar_iff (c : Char) : isWordChar c = true ↔
    (48 ≤ c.toNat ∧ c.toNat ≤ 57) ∨ (65 ≤ c.toNat ∧ c.toNat ≤ 90) ∨
      (97 ≤ c.toNat ∧ c.toNat ≤ 122) ∨ c.toNat = 95 := by
  have h95 : ('_' : Char).toNat = 95 := rfl
  have h48 : ('0' : Char).toNat = 48 := rfl
  have h57 : ('9' : Char).toNat = 57 := rfl
  simp only [isWordChar, Char.isAlphanum, Char.isAlpha, Bool.or_eq_true, isUpper_iff, isLower_iff,
    beq_iff_eq, ← Char.toNat_inj, h95, Char.isDigit, Bool.and_eq_true, decide_eq_true_eq,
    UInt32.le_iff_toNat_le, Char.toNat_val, ge_iff_le, h48, h57]
  omega

/-- A letter is a word character and no digit. -/
theorem isWordChar_of_letter {c : Char} (h : IsLetter c) : isWordChar c = true ∧ c.isDigit = false :=
  ⟨(isWordChar_iff c).2 (by unfold IsLetter at h; omega), isDigit_of_letter h⟩


/-- A lexeme that starts with a letter is a word. -/
theorem scan_of_letter {c : Char} (h : IsLetter c) (cs : List Char) :
    scan c cs = (TokenKind.ofWord (String.ofList (c :: cs.takeWhile isWordChar)),
      (cs.takeWhile isWordChar).length) := by
  obtain ⟨hw, hd⟩ := isWordChar_of_letter h
  simp [scan, isBlank_of_letter h, isLineBreak_of_letter h, hw, hd,
    beq_eq_false_of_letter h (by decide : ¬ IsLetter ';'),
    beq_eq_false_of_letter h (by decide : ¬ IsLetter '"'),
    beq_eq_false_of_letter h (by decide : ¬ IsLetter '\'')]

theorem head?_map_toLower_beq {d : Char} (hd : ¬ IsLetter d) (o : Option Char) :
    (o.map Char.toLower == some d) = (o == some d) := by
  cases o with
  | none => rfl
  | some x => simpa using beq_toLower hd x

/-- The lexer does not see case: a text and its lower case are cut into
lexemes of the same kinds and lengths. -/
theorem scan_toLower (c : Char) (cs : List Char) :
    scan c.toLower (cs.map Char.toLower) = scan c cs := by
  by_cases hl : IsLetter c
  · have hl' : IsLetter c.toLower := by
      rcases toLower_cases c with e | ⟨h1, h2, h3⟩
      · rwa [e]
      · exact .inr ⟨by omega, by omega⟩
    rw [scan_of_letter hl, scan_of_letter hl', takeWhile_map_toLower isWordChar_toLower,
      List.length_map, ← List.map_cons, ofWord_map_toLower]
  · -- a character that is no letter is its own lower case, and so is the quote
    -- that closes a string
    have hc : c.toLower = c := toLower_of_not_upper fun hu => hl (.inl hu)
    have hw := ofWord_map_toLower (c :: cs.takeWhile isWordChar)
    rw [List.map_cons, hc] at hw
    rw [hc]
    unfold scan
    simp only [takeWhile_map_toLower isBlank_toLower, takeWhile_map_toLower isDigit_toLower,
      takeWhile_map_toLower isWordChar_toLower, takeWhile_map_toLower isLineBreak_toLower,
      takeWhile_map_toLower (p := fun d => !isLineBreak d) (by simp),
      takeWhile_map_toLower (p := fun x => x != c) (fun x => by rw [bne, bne, beq_toLower hl]),
      List.length_map, ← List.map_drop, startsWord_map_toLower, List.head?_map,
      head?_map_toLower_beq hl, hw]
    split_ifs
    -- each branch now reads the same on both sides, but for a word that starts
    -- with a digit and for an operator, which looks at the next character
    all_goals try rfl
    · exact scanDigitWord_map_toLower ‹_› cs
    · cases cs <;> simp [twoCharOp?_toLower]
/-! ## What a plain lexeme looks at -/

/-- Blanks and line breaks. -/
def isSeparator (c : Char) : Bool := isBlank c || isLineBreak c

/-- The characters before the first separator. -/
def run (cs : List Char) : List Char := cs.takeWhile (fun c => !isSeparator c)

/-- A character that starts no blank run, line break, comment or string. -/
def startsPlain (c : Char) : Bool :=
  !isBlank c && c != ';' && !isLineBreak c && c != '"' && c != '\''

@[simp] theorem run_nil : run [] = [] := rfl

theorem toNat_of_isSeparator {c : Char} (h : isSeparator c = true) :
    c.toNat = 9 ∨ c.toNat = 10 ∨ c.toNat = 12 ∨ c.toNat = 13 ∨ c.toNat = 32 := by
  simp only [isSeparator, isBlank, isLineBreak, Bool.or_eq_true, beq_iff_eq] at h
  rcases h with ((rfl | rfl) | rfl) | rfl | rfl <;> simp

theorem isWordChar_of_isSeparator {c : Char} (h : isSeparator c = true) : isWordChar c = false := by
  have := toNat_of_isSeparator h
  cases hw : isWordChar c
  · rfl
  · have := (isWordChar_iff c).1 hw
    omega

theorem isDigit_of_isSeparator {c : Char} (h : isSeparator c = true) : c.isDigit = false := by
  have := toNat_of_isSeparator h
  simp only [Char.isDigit, Bool.and_eq_false_iff, decide_eq_false_iff_not,
    UInt32.le_iff_toNat_le, Char.toNat_val]
  simp
  omega

/-- No two-character operator ends in a separator. -/
theorem twoCharOp?_of_isSeparator (c : Char) {d : Char} (hd : isSeparator d = true) :
    twoCharOp? c d = none := by
  have := toNat_of_isSeparator hd
  unfold twoCharOp?
  split <;> first | rfl | (exfalso; simp at this)

theorem run_cons (c : Char) (cs : List Char) :
    run (c :: cs) = if isSeparator c then [] else c :: run cs := by
  by_cases h : isSeparator c <;> simp [run, h]

/-- A test that no separator passes stops within the run. -/
theorem takeWhile_run {p : Char → Bool} (hp : ∀ x, p x = true → isSeparator x = false)
    (cs : List Char) : (run cs).takeWhile p = cs.takeWhile p := by
  induction cs with
  | nil => rfl
  | cons x xs ih =>
    rw [run_cons]
    by_cases hs : isSeparator x
    · have : p x = false := by
        cases hpx : p x
        · rfl
        · rw [hp x hpx] at hs; exact absurd hs (by simp)
      simp [hs, this]
    · simp only [hs, Bool.false_eq_true, if_false, List.takeWhile_cons, ih]

theorem drop_run (cs : List Char) (n : Nat) (h : n ≤ (run cs).length) :
    (run cs).drop n = run (cs.drop n) := by
  induction cs generalizing n with
  | nil => simp
  | cons x xs ih =>
    rw [run_cons] at h ⊢
    by_cases hs : isSeparator x
    · simp only [hs, if_true, List.length_nil, Nat.le_zero] at h
      subst h
      simp [run_cons, hs]
    · simp only [hs, Bool.false_eq_true, if_false, List.length_cons] at h ⊢
      cases n with
      | zero => simp [run_cons, hs]
      | succ n => simpa using ih n (by omega)

theorem startsWord_run (cs : List Char) : startsWord (run cs) = startsWord cs := by
  cases cs with
  | nil => rfl
  | cons x xs =>
    rw [run_cons]
    by_cases hs : isSeparator x
    · simp [hs, startsWord, isWordChar_of_isSeparator hs]
    · simp [hs, startsWord]

theorem isSeparator_of_isDigit {c : Char} (h : c.isDigit = true) : isSeparator c = false := by
  cases hs : isSeparator c
  · rfl
  · rw [isDigit_of_isSeparator hs] at h; exact absurd h (by simp)

theorem isSeparator_of_isWordChar {c : Char} (h : isWordChar c = true) : isSeparator c = false := by
  cases hs : isSeparator c
  · rfl
  · rw [isWordChar_of_isSeparator hs] at h; exact absurd h (by simp)

theorem length_takeWhile_le_run {p : Char → Bool} (hp : ∀ x, p x = true → isSeparator x = false)
    (cs : List Char) : (cs.takeWhile p).length ≤ (run cs).length := by
  rw [← takeWhile_run hp]
  exact (List.takeWhile_prefix p).length_le

theorem numberTail_run (cs : List Char) : numberTail (run cs) = numberTail cs := by
  unfold numberTail
  dsimp only
  rw [takeWhile_run (p := Char.isDigit) (fun _ => isSeparator_of_isDigit),
    drop_run cs _ (length_takeWhile_le_run (p := Char.isDigit) (fun _ => isSeparator_of_isDigit) cs)]
  generalize (cs.takeWhile Char.isDigit).length = n
  rcases cs.drop n with _ | ⟨x, _ | ⟨y, m⟩⟩
  · rfl
  · by_cases hx : isSeparator x <;> simp [run_cons, hx]
  · by_cases hx : isSeparator x
    · have : x ≠ '.' := by rintro rfl; simp [isSeparator, isBlank, isLineBreak] at hx
      simp [run_cons, hx, this]
    · by_cases hy : isSeparator y
      · by_cases hd : x = '.'
        · subst hd; simp [run_cons, hx, hy, isDigit_of_isSeparator hy]
        · simp [run_cons, hx, hy, hd]
      · by_cases hd : x = '.'
        · subst hd
          simp [run_cons, hx, hy, takeWhile_run (p := Char.isDigit) (fun _ => isSeparator_of_isDigit)]
        · simp [run_cons, hx, hy, hd]

theorem numberTail_le (cs : List Char) : numberTail cs ≤ cs.length := by
  unfold numberTail
  dsimp only
  have hd := (List.takeWhile_prefix (l := cs) Char.isDigit).length_le
  generalize (cs.takeWhile Char.isDigit).length = n at hd ⊢
  have hlen : cs.length = n + (cs.drop n).length := by simp; omega
  generalize cs.drop n = l at hlen ⊢
  rcases l with _ | ⟨x, _ | ⟨y, m⟩⟩
  · omega
  · simp; omega
  · have := (List.takeWhile_prefix (l := m) Char.isDigit).length_le
    simp only [List.length_cons] at hlen
    by_cases hx : x = '.'
    · subst hx
      simp only
      split <;> omega
    · simp [hx]; omega

/-- A number stops within the run. -/
theorem numberTail_le_run (cs : List Char) : numberTail cs ≤ (run cs).length := by
  rw [← numberTail_run]
  exact numberTail_le _

theorem startsWord_drop_run (cs : List Char) {n : Nat} (h : n ≤ (run cs).length) :
    startsWord ((run cs).drop n) = startsWord (cs.drop n) := by
  rw [drop_run cs n h, startsWord_run]

theorem scanDigitWord_run (c : Char) (cs : List Char) :
    scanDigitWord c (run cs) = scanDigitWord c cs := by
  unfold scanDigitWord
  dsimp only
  rw [takeWhile_run (p := isWordChar) (fun _ => isSeparator_of_isWordChar), numberTail_run,
    startsWord_drop_run cs (numberTail_le_run cs)]

/-- A plain lexeme is cut from the characters before the first separator:
what comes after it does not matter. -/
theorem scan_run {c : Char} (hc : startsPlain c = true) (cs : List Char) :
    scan c (run cs) = scan c cs := by
  simp only [startsPlain, Bool.and_eq_true, Bool.not_eq_true', bne_iff_ne, ne_eq] at hc
  obtain ⟨⟨⟨⟨hb, hsc⟩, hnl⟩, hq1⟩, hq2⟩ := hc
  unfold scan
  simp only [hb, hnl, Bool.false_eq_true, if_false, Bool.or_eq_true, beq_iff_eq, hsc, hq1, hq2,
    or_self,
    takeWhile_run (p := isWordChar) (fun _ => isSeparator_of_isWordChar),
    takeWhile_run (p := Char.isDigit) (fun _ => isSeparator_of_isDigit), scanDigitWord_run,
    startsWord_drop_run cs (length_takeWhile_le_run (p := Char.isDigit)
      (fun _ => isSeparator_of_isDigit) cs)]
  -- only an operator looks past the run, at a separator, which ends none
  cases cs with
  | nil => rfl
  | cons x xs =>
    by_cases hx : isSeparator x
    · simp [run_cons, hx, twoCharOp?_of_isSeparator c hx]
    · simp [run_cons, hx]

theorem startsPlain_toLower (c : Char) : startsPlain c.toLower = startsPlain c := by
  simp only [startsPlain, isBlank_toLower, isLineBreak_toLower, bne,
    beq_toLower (d := ';') (by decide), beq_toLower (d := '"') (by decide),
    beq_toLower (d := '\'') (by decide)]

/-- A plain lexeme is cut the same from any text that agrees with its own, up
to case, as far as the first separator. -/
theorem scan_congr {c c' : Char} {cs cs' : List Char} (hc : startsPlain c = true)
    (hcc : c'.toLower = c.toLower) (h : (run cs').map Char.toLower = (run cs).map Char.toLower) :
    scan c' cs' = scan c cs := by
  have hc' : startsPlain c' = true := by rw [← startsPlain_toLower, hcc, startsPlain_toLower, hc]
  rw [← scan_run hc', ← scan_toLower, hcc, h, scan_toLower, scan_run hc]

/-! ## The kind of a lexeme and its first character -/

theorem twoCharOp?_holdsSeparators {c d : Char} {k : TokenKind} (h : twoCharOp? c d = some k) :
    k.holdsSeparators = false := by
  unfold twoCharOp? at h
  split at h <;> cases h <;> rfl

theorem oneCharOp?_holdsSeparators (c : Char) :
    ((oneCharOp? c).getD .unknown).holdsSeparators = false := by
  unfold oneCharOp?
  split <;> rfl

theorem scanDigitWord_holdsSeparators (c : Char) (cs : List Char) :
    (scanDigitWord c cs).1.holdsSeparators = false := by
  unfold scanDigitWord
  dsimp only
  split_ifs
  · rfl
  · exact TokenKind.ofWord_holdsSeparators _
  · rfl

/-- A plain first character cuts a lexeme that holds no separator. -/
theorem scan_holdsSeparators {c : Char} (hc : startsPlain c = true) (cs : List Char) :
    (scan c cs).1.holdsSeparators = false := by
  simp only [startsPlain, Bool.and_eq_true, Bool.not_eq_true', bne_iff_ne, ne_eq] at hc
  obtain ⟨⟨⟨⟨hb, hsc⟩, hnl⟩, hq1⟩, hq2⟩ := hc
  unfold scan
  simp only [hb, hnl, Bool.false_eq_true, if_false, Bool.or_eq_true, beq_iff_eq, hsc, hq1, hq2,
    or_self]
  split_ifs
  · exact scanDigitWord_holdsSeparators c cs
  · exact TokenKind.ofWord_holdsSeparators _
  · rfl
  · rfl
  · split
    · split
      · exact twoCharOp?_holdsSeparators ‹_›
      · exact oneCharOp?_holdsSeparators c
    · exact oneCharOp?_holdsSeparators c

theorem scan_of_isBlank {c : Char} (hc : isBlank c = true) (cs : List Char) :
    scan c cs = (.whitespace, (cs.takeWhile isBlank).length) := by
  simp [scan, hc]

theorem scan_of_isLineBreak {c : Char} (hc : isLineBreak c = true) (cs : List Char) :
    scan c cs = (.newline, (cs.takeWhile isLineBreak).length) := by
  have : isBlank c = false ∧ c ≠ ';' := by
    simp only [isLineBreak, Bool.or_eq_true, beq_iff_eq] at hc
    rcases hc with rfl | rfl <;> decide
  simp [scan, hc, this.1, this.2]

theorem scan_semicolon (cs : List Char) :
    scan ';' cs = (.comment, (cs.takeWhile (fun d => !isLineBreak d)).length) := by
  simp [scan, isBlank]

/-- Every first character is plain, a blank, `;`, a line break or a quote. -/
theorem startsPlain_cases (c : Char) :
    startsPlain c = true ∨ isBlank c = true ∨ c = ';' ∨ isLineBreak c = true ∨ c = '"' ∨ c = '\'' := by
  simp only [startsPlain, Bool.and_eq_true, Bool.not_eq_true', bne_iff_ne, ne_eq]
  by_cases h1 : isBlank c <;> by_cases h2 : c = ';' <;> by_cases h3 : isLineBreak c <;>
    by_cases h4 : c = '"' <;> by_cases h5 : c = '\'' <;> simp_all

/-! ## Runs cut at their first character that does not belong -/

/-- A test cuts `a ++ r` right after `a` exactly when all of `a` passes and
the first character of `r`, if any, does not. -/
theorem length_takeWhile_append_eq {p : Char → Bool} {a r : List Char} :
    ((a ++ r).takeWhile p).length = a.length ↔
      (∀ x ∈ a, p x = true) ∧ ∀ x ∈ r.head?, p x = false := by
  induction a with
  | nil =>
    cases r with
    | nil => simp
    | cons y ys => by_cases hy : p y <;> simp [hy]
  | cons x xs ih => by_cases hx : p x <;> simp [hx, ih]

theorem scan_blank_run {c : Char} {a r : List Char} (hc : isBlank c = true)
    (ha : ∀ x ∈ a, isBlank x = true) (hr : ∀ x ∈ r.head?, isBlank x = false) :
    scan c (a ++ r) = (.whitespace, a.length) := by
  rw [scan_of_isBlank hc, length_takeWhile_append_eq.2 ⟨ha, hr⟩]

theorem scan_break_run {c : Char} {a r : List Char} (hc : isLineBreak c = true)
    (ha : ∀ x ∈ a, isLineBreak x = true) (hr : ∀ x ∈ r.head?, isLineBreak x = false) :
    scan c (a ++ r) = (.newline, a.length) := by
  rw [scan_of_isLineBreak hc, length_takeWhile_append_eq.2 ⟨ha, hr⟩]

theorem scan_comment_run {a r : List Char} (ha : ∀ x ∈ a, isLineBreak x = false)
    (hr : ∀ x ∈ r.head?, isLineBreak x = true) :
    scan ';' (a ++ r) = (.comment, a.length) := by
  rw [scan_semicolon, length_takeWhile_append_eq.2 ⟨fun x hx => by simp [ha x hx],
    fun x hx => by simp [hr x hx]⟩]

theorem isBlank_of_scan {c : Char} {cs : List Char} {n : Nat}
    (h : scan c cs = (.whitespace, n)) : isBlank c = true := by
  rcases startsPlain_cases c with hp | hb | rfl | hl | rfl | rfl
  · have := scan_holdsSeparators hp cs
    simp [h, TokenKind.holdsSeparators] at this
  · exact hb
  · rw [scan_semicolon] at h; cases h
  · rw [scan_of_isLineBreak hl] at h; cases h
  · simp [scan, isBlank, isLineBreak] at h
  · simp [scan, isBlank, isLineBreak] at h

theorem isLineBreak_of_scan {c : Char} {cs : List Char} {n : Nat}
    (h : scan c cs = (.newline, n)) : isLineBreak c = true := by
  rcases startsPlain_cases c with hp | hb | rfl | hl | rfl | rfl
  · have := scan_holdsSeparators hp cs
    simp [h, TokenKind.holdsSeparators] at this
  · rw [scan_of_isBlank hb] at h; cases h
  · rw [scan_semicolon] at h; cases h
  · exact hl
  · simp [scan, isBlank, isLineBreak] at h
  · simp [scan, isBlank, isLineBreak] at h

theorem eq_semicolon_of_scan {c : Char} {cs : List Char} {n : Nat}
    (h : scan c cs = (.comment, n)) : c = ';' := by
  rcases startsPlain_cases c with hp | hb | rfl | hl | rfl | rfl
  · have := scan_holdsSeparators hp cs
    simp [h, TokenKind.holdsSeparators] at this
  · rw [scan_of_isBlank hb] at h; cases h
  · rfl
  · rw [scan_of_isLineBreak hl] at h; cases h
  · simp [scan, isBlank, isLineBreak] at h
  · simp [scan, isBlank, isLineBreak] at h

/-- A blank run is blanks followed by no blank. -/
theorem scan_eq_whitespace {c : Char} {a r : List Char}
    (h : scan c (a ++ r) = (.whitespace, a.length)) :
    isBlank c = true ∧ (∀ x ∈ a, isBlank x = true) ∧ ∀ x ∈ r.head?, isBlank x = false := by
  have hc := isBlank_of_scan h
  rw [scan_of_isBlank hc, Prod.mk.injEq] at h
  exact ⟨hc, length_takeWhile_append_eq.1 h.2⟩

/-- A line-break run is line breaks followed by none. -/
theorem scan_eq_newline {c : Char} {a r : List Char}
    (h : scan c (a ++ r) = (.newline, a.length)) :
    isLineBreak c = true ∧ (∀ x ∈ a, isLineBreak x = true) ∧
      ∀ x ∈ r.head?, isLineBreak x = false := by
  have hc := isLineBreak_of_scan h
  rw [scan_of_isLineBreak hc, Prod.mk.injEq] at h
  exact ⟨hc, length_takeWhile_append_eq.1 h.2⟩

/-- A comment runs to a line break or to the end. -/
theorem scan_eq_comment {c : Char} {a r : List Char}
    (h : scan c (a ++ r) = (.comment, a.length)) :
    c = ';' ∧ (∀ x ∈ a, isLineBreak x = false) ∧ ∀ x ∈ r.head?, isLineBreak x = true := by
  have hc := eq_semicolon_of_scan h
  subst hc
  rw [scan_semicolon, Prod.mk.injEq] at h
  obtain ⟨ha, hr⟩ := length_takeWhile_append_eq.1 h.2
  exact ⟨rfl, fun x hx => by simpa using ha x hx, fun x hx => by simpa using hr x hx⟩

/-- A string is closed by its own quote, whatever follows; one left open runs
to the end of the text. -/
theorem scan_string_stable {c : Char} {a r r' : List Char} (hq : c = '"' ∨ c = '\'')
    (h : scan c (a ++ r) = (.string, a.length)) (hr : r = [] → r' = []) :
    scan c (a ++ r') = (.string, a.length) := by
  have hs : ∀ cs, scan c cs = (.string, let body := (cs.takeWhile (· != c)).length
      if (cs.drop body).head? == some c then body + 1 else body) := by
    intro cs
    rcases hq with rfl | rfl <;> simp [scan, isBlank, isLineBreak]
  rw [hs] at h ⊢
  dsimp only at h ⊢
  rw [List.takeWhile_append] at h ⊢
  by_cases ha : (a.takeWhile (· != c)).length = a.length
  · -- `a` holds no quote, so the string runs into `r`, which must be empty
    simp only [ha, if_true, List.length_append] at h ⊢
    have hr0 : r = [] := by
      cases r with
      | nil => rfl
      | cons x xs =>
        by_cases hx : x = c
        · subst hx
          simp at h
        · simp [hx] at h
          split at h <;> omega
    subst hr0
    rw [hr rfl]
    exact h
  · -- the quote that closes the string lies in `a`
    have hlt : (a.takeWhile (· != c)).length < a.length :=
      lt_of_le_of_ne (List.takeWhile_prefix _).length_le ha
    have hne : a.drop (a.takeWhile (· != c)).length ≠ [] := by
      simp only [ne_eq, List.drop_eq_nil_iff, not_le]
      exact hlt
    simp only [ha, if_false] at h ⊢
    rw [List.drop_append_of_le_length hlt.le, List.head?_append_of_ne_nil _ hne] at h ⊢
    exact h

/-! ## Texts cut into lexemes -/

/-- The characters of lexemes, in order. -/
def chars (ls : List (TokenKind × List Char)) : List Char := ls.flatMap (·.2)

@[simp] theorem chars_nil : chars [] = [] := rfl

@[simp] theorem chars_cons (l : TokenKind × List Char) (ls : List (TokenKind × List Char)) :
    chars (l :: ls) = l.2 ++ chars ls := rfl

@[simp] theorem chars_append (ls ls' : List (TokenKind × List Char)) :
    chars (ls ++ ls') = chars ls ++ chars ls' := by
  simp [chars]

/-- `cs` begins with the lexemes `ls`, kinds and characters, each cut as the
lexer cuts it from the text after it; `r` is left. -/
inductive CutsTo : List Char → List (TokenKind × List Char) → List Char → Prop
  | nil (r : List Char) : CutsTo r [] r
  | cons {c : Char} {a rest r : List Char} {k : TokenKind} {ls : List (TokenKind × List Char)} :
      scan c (a ++ rest) = (k, a.length) → CutsTo rest ls r →
      CutsTo (c :: (a ++ rest)) ((k, c :: a) :: ls) r

namespace CutsTo

variable {cs mid r : List Char} {ls ls' : List (TokenKind × List Char)}

theorem eq (h : CutsTo cs ls r) : cs = chars ls ++ r := by
  induction h with
  | nil => rfl
  | cons _ _ ih => simp [ih]

theorem append (h1 : CutsTo cs ls mid) (h2 : CutsTo mid ls' r) : CutsTo cs (ls ++ ls') r := by
  induction h1 with
  | nil => exact h2
  | cons hs _ ih => exact .cons hs (ih h2)

/-- Cut lexemes can be taken apart: the first ones are cut from the text with
the characters of the others after them. -/
theorem split (h : CutsTo cs (ls ++ ls') r) :
    CutsTo cs ls (chars ls' ++ r) ∧ CutsTo (chars ls' ++ r) ls' r := by
  induction ls generalizing cs with
  | nil =>
    rw [List.nil_append] at h
    rw [h.eq]
    exact ⟨.nil _, by rwa [← h.eq]⟩
  | cons l ls ih =>
    cases h with
    | cons hs hrest =>
      obtain ⟨h1, h2⟩ := ih hrest
      exact ⟨.cons hs h1, h2⟩

end CutsTo

/-! ## The lexer's own cuts -/

theorem scanDigitWord_snd_le (c : Char) (cs : List Char) : (scanDigitWord c cs).2 ≤ cs.length := by
  unfold scanDigitWord
  dsimp only
  have hw := (List.takeWhile_prefix (l := cs) isWordChar).length_le
  generalize cs.takeWhile isWordChar = word at hw ⊢
  split_ifs with hx
  · -- the hexadecimal digits come after the mark, inside the word
    cases word with
    | nil => simp at hx
    | cons x rest =>
      have := (List.takeWhile_prefix (l := rest) isHexDigit).length_le
      simp only [List.length_cons] at hw hx ⊢
      by_cases hc : (c == '0' && (x == 'x' || x == 'X')) = true <;>
        simp only [hc, if_true, if_false, Bool.false_eq_true] at hx ⊢ <;> omega
  · exact hw
  · exact numberTail_le cs

/-- A lexeme takes no more characters than there are. -/
theorem scan_snd_le (c : Char) (cs : List Char) : (scan c cs).2 ≤ cs.length := by
  unfold scan
  dsimp only
  have hp : ∀ p : Char → Bool, (cs.takeWhile p).length ≤ cs.length := fun p =>
    (List.takeWhile_prefix p).length_le
  split_ifs with _ _ _ _ hclose
  · exact hp _
  · exact hp _
  · exact hp _
  · -- the closing quote is one more character after the body
    simp only [beq_iff_eq, List.head?_drop] at hclose
    by_contra hn
    rw [List.getElem?_eq_none (by omega)] at hclose
    cases hclose
  · exact hp _
  · exact scanDigitWord_snd_le c cs
  · exact hp _
  · exact hp _
  · exact Nat.zero_le _
  · split
    · split <;> simp
    · simp

/-- The lexer's own tokens before the end of input are cut as `CutsTo` says. -/
theorem cutsTo_lexFrom (cs : List Char) (pos : Nat) :
    CutsTo cs ((lexFrom cs pos).dropLast.map fun t => (t.kind, t.text.toList)) [] := by
  fun_induction lexFrom cs pos with
  | case1 pos => simpa [lexFrom] using CutsTo.nil []
  | case2 c cs pos kind extra h text ih =>
    have hle : extra ≤ cs.length := by simpa [h] using scan_snd_le c cs
    obtain ⟨t, rest, hrest, -⟩ := lexFrom_head (cs.drop extra) (pos + text.utf8ByteSize)
    rw [hrest] at ih ⊢
    have hcut : scan c (cs.take extra ++ cs.drop extra) = (kind, (cs.take extra).length) := by
      rw [List.take_append_drop, List.length_take, Nat.min_eq_left hle, h]
    have := CutsTo.cons hcut ih
    rw [List.take_append_drop] at this
    simpa [text] using this

/-- A text cut into lexemes is lexed into exactly those, followed by the end
of input. -/
theorem lexFrom_of_cutsTo {cs r : List Char} {ls : List (TokenKind × List Char)}
    (h : CutsTo cs ls r) (hr : r = []) (pos : Nat) :
    (lexFrom cs pos).map (fun t => (t.kind, t.text)) =
      ls.map (fun l => (l.1, String.ofList l.2)) ++ [(.eof, "")] := by
  induction h generalizing pos with
  | nil => subst hr; simp [lexFrom]
  | cons hs _ ih =>
    rw [lexFrom]
    simp only [hs, List.take_left', List.drop_left']
    simp [ih hr]

/-! ## Recasing plain lexemes -/

@[simp] theorem isSeparator_toLower (c : Char) : isSeparator c.toLower = isSeparator c := by
  simp [isSeparator]

theorem isBlank_of_isLineBreak {c : Char} (h : isLineBreak c = true) : isBlank c = false := by
  simp only [isLineBreak, Bool.or_eq_true, beq_iff_eq] at h
  rcases h with rfl | rfl <;> rfl

/-- Two texts that agree up to case keep agreeing, as far as the first
separator, after any texts that agree up to case. -/
theorem run_append_congr {x x' u u' : List Char} (hx : x'.map Char.toLower = x.map Char.toLower)
    (hu : (run u').map Char.toLower = (run u).map Char.toLower) :
    (run (x' ++ u')).map Char.toLower = (run (x ++ u)).map Char.toLower := by
  induction x generalizing x' with
  | nil =>
    cases x' with
    | nil => simpa using hu
    | cons _ _ => simp at hx
  | cons c x ih =>
    cases x' with
    | nil => simp at hx
    | cons c' x' =>
      simp only [List.map_cons, List.cons.injEq] at hx
      -- the two texts meet a separator at the same place
      have hsep : isSeparator c' = isSeparator c := by
        rw [← isSeparator_toLower, hx.1, isSeparator_toLower]
      simp only [List.cons_append, run_cons, hsep]
      split
      · rfl
      · simp [hx.1, ih hx.2]

/-- A lexeme that holds no separator starts with a plain character. -/
theorem startsPlain_of_scan {c : Char} {cs : List Char}
    (h : (scan c cs).1.holdsSeparators = false) : startsPlain c = true := by
  rcases startsPlain_cases c with hp | hb | rfl | hl | rfl | rfl
  · exact hp
  · simp [scan_of_isBlank hb, TokenKind.holdsSeparators] at h
  · simp [scan_semicolon, TokenKind.holdsSeparators] at h
  · simp [scan_of_isLineBreak hl, TokenKind.holdsSeparators] at h
  · simp [scan, isBlank, isLineBreak, TokenKind.holdsSeparators] at h
  · simp [scan, isBlank, isLineBreak, TokenKind.holdsSeparators] at h

/-- What follows a lexeme in a new text agrees with what followed it in the
old one as far as the lexer looks: the same characters up to the first
separator, up to case; a first character that is a line break or the old one
up to case; and nothing only where there was nothing. -/
structure Lookahead (r r' : List Char) : Prop where
  run_eq : (run r').map Char.toLower = (run r).map Char.toLower
  head : ∀ x ∈ r'.head?, isLineBreak x = true ∨ ∃ y ∈ r.head?, y.toLower = x.toLower
  nil : r = [] → r' = []

/-- A lexeme and a recased copy: the same kind, the same text up to case, and
the same text where the lexeme may hold separators. -/
def Recases (l l' : TokenKind × List Char) : Prop :=
  l'.1 = l.1 ∧ l'.2.map Char.toLower = l.2.map Char.toLower ∧
    (l.1.holdsSeparators = true → l'.2 = l.2)

/-- A blank run, comment or string, cut from the old text, is cut the same
from a new text that agrees with the old one as the lexer looks. -/
theorem scan_of_lookahead {c : Char} {a rest rest' : List Char} {k : TokenKind}
    (hs : scan c (a ++ rest) = (k, a.length)) (hk : k.holdsSeparators = true)
    (hnl : k ≠ .newline) (hlook : Lookahead rest rest') : scan c (a ++ rest') = (k, a.length) := by
  -- a lexeme that holds separators is told by its first character
  rcases startsPlain_cases c with hp | hb | rfl | hl | hq
  · have := scan_holdsSeparators hp (a ++ rest)
    rw [hs] at this
    simp [hk] at this
  · obtain ⟨rfl, -⟩ := Prod.mk.inj ((scan_of_isBlank hb _).symm.trans hs)
    obtain ⟨-, ha, hhead⟩ := scan_eq_whitespace hs
    refine scan_blank_run hb ha fun x hx => ?_
    rcases hlook.head x hx with hl | ⟨y, hy, hyx⟩
    · exact isBlank_of_isLineBreak hl
    · rw [← isBlank_toLower, ← hyx, isBlank_toLower]
      exact hhead y hy
  · obtain ⟨rfl, -⟩ := Prod.mk.inj ((scan_semicolon _).symm.trans hs)
    obtain ⟨-, ha, hhead⟩ := scan_eq_comment hs
    refine scan_comment_run ha fun x hx => ?_
    rcases hlook.head x hx with hl | ⟨y, hy, hyx⟩
    · exact hl
    · rw [← isLineBreak_toLower, ← hyx, isLineBreak_toLower]
      exact hhead y hy
  · exact absurd (Prod.mk.inj ((scan_of_isLineBreak hl _).symm.trans hs)).1.symm hnl
  · have hstr : k = .string := by
      rcases hq with rfl | rfl <;> simpa [scan, isBlank, isLineBreak] using (Prod.mk.inj hs).1.symm
    subst hstr
    exact scan_string_stable hq hs hlook.nil

/-- Lexemes cut from a text are cut the same, recased, from the recased text,
as long as none of them is a line break and what follows them agrees as the
lexer looks; and what follows the lexemes before them then agrees too. -/
theorem CutsTo.recase {cs r r' : List Char} {ls ls' : List (TokenKind × List Char)}
    (h : CutsTo cs ls r) (hrel : List.Forall₂ Recases ls ls')
    (hnl : ∀ l ∈ ls, l.1 ≠ .newline) (hr : Lookahead r r') :
    CutsTo (chars ls' ++ r') ls' r' ∧ Lookahead cs (chars ls' ++ r') := by
  induction h generalizing ls' with
  | nil => cases hrel; exact ⟨.nil _, hr⟩
  | @cons c a rest r k ls hs hrest ih =>
    obtain ⟨⟨k', a₀⟩, ls'', ⟨hk, hlow, hsame⟩, hrel', rfl⟩ :
        ∃ l' ls'', Recases (k, c :: a) l' ∧ List.Forall₂ Recases ls ls'' ∧ ls' = l' :: ls'' := by
      cases hrel
      exact ⟨_, _, ‹_›, ‹_›, rfl⟩
    dsimp only at hk hlow hsame
    subst hk
    -- the recased text starts with the same character up to case
    obtain ⟨c', a', rfl⟩ : ∃ c' a', a₀ = c' :: a' := by
      cases a₀ with
      | nil => simp at hlow
      | cons c' a' => exact ⟨c', a', rfl⟩
    have hlow' := hlow
    simp only [List.map_cons, List.cons.injEq] at hlow'
    have hlen : a'.length = a.length := by simpa using congrArg List.length hlow'.2
    obtain ⟨hcut, hlook⟩ := ih hrel' (fun l hl => hnl l (List.mem_cons_of_mem _ hl)) hr
    have hscan : scan c' (a' ++ (chars ls'' ++ r')) = (k', a'.length) := by
      cases hsep : k'.holdsSeparators
      · -- a plain lexeme is cut from the characters before the first separator
        have hp : startsPlain c = true := startsPlain_of_scan (by rw [hs]; exact hsep)
        rw [scan_congr hp hlow'.1 (run_append_congr hlow'.2 hlook.run_eq), hs, hlen]
      · obtain ⟨rfl, rfl⟩ := List.cons.inj (hsame hsep)
        exact scan_of_lookahead hs hsep (hnl _ (List.mem_cons.2 (.inl rfl))) hlook
    refine ⟨by simpa using CutsTo.cons hscan hcut, ?_, ?_, ?_⟩
    · simpa using run_append_congr hlow hlook.run_eq
    · intro x hx
      simp only [chars_cons, List.cons_append, List.head?_cons, Option.mem_def,
        Option.some.injEq] at hx
      subst hx
      exact .inr ⟨c, by simp, hlow'.1.symm⟩
    · simp

/-! ## Line-break runs that meet -/

/-- Puts a lexeme in front of others, merged with the first when both are
line-break runs. -/
def consBreak {σ : Type} [Append σ] (x : TokenKind × σ) :
    List (TokenKind × σ) → List (TokenKind × σ)
  | y :: rest => if x.1 = .newline ∧ y.1 = .newline then (.newline, x.2 ++ y.2) :: rest
    else x :: y :: rest
  | [] => [x]

/-- Lexemes with every two line-break runs that meet merged into one, their
texts joined. -/
def mergeBreaks {σ : Type} [Append σ] (xs : List (TokenKind × σ)) : List (TokenKind × σ) :=
  xs.foldr consBreak []

section Merge

variable {σ : Type} [Append σ]

@[simp] theorem consBreak_nil (x : TokenKind × σ) : consBreak x [] = [x] := rfl

@[simp] theorem mergeBreaks_nil : mergeBreaks ([] : List (TokenKind × σ)) = [] := rfl

@[simp] theorem mergeBreaks_cons (x : TokenKind × σ) (xs : List (TokenKind × σ)) :
    mergeBreaks (x :: xs) = consBreak x (mergeBreaks xs) := rfl

theorem consBreak_of_ne {x : TokenKind × σ} (hx : x.1 ≠ .newline) (ys : List (TokenKind × σ)) :
    consBreak x ys = x :: ys := by
  cases ys with
  | nil => rfl
  | cons y ys => simp [consBreak, hx]

/-- Lexemes that are no line breaks stay in front as they are. -/
theorem mergeBreaks_append_of_ne {xs : List (TokenKind × σ)} (hxs : ∀ x ∈ xs, x.1 ≠ .newline)
    (ys : List (TokenKind × σ)) : mergeBreaks (xs ++ ys) = xs ++ mergeBreaks ys := by
  induction xs with
  | nil => rfl
  | cons x xs ih =>
    rw [List.cons_append, mergeBreaks_cons, ih (fun y hy => hxs y (List.mem_cons_of_mem _ hy)),
      consBreak_of_ne (hxs x (by simp)), List.cons_append]

/-- Merging keeps the kind of the first lexeme. -/
theorem head?_kind_consBreak (x : TokenKind × σ) (ys : List (TokenKind × σ)) :
    (consBreak x ys).head?.map (·.1) = some x.1 := by
  cases ys with
  | nil => rfl
  | cons y ys =>
    by_cases h : x.1 = .newline ∧ y.1 = .newline
    · simp [consBreak, h]
    · simp [consBreak, h]

theorem head?_kind_mergeBreaks (xs : List (TokenKind × σ)) :
    (mergeBreaks xs).head?.map (·.1) = xs.head?.map (·.1) := by
  cases xs with
  | nil => rfl
  | cons x xs => simp [head?_kind_consBreak]

end Merge

/-- A line-break run put in front of a cut text is cut with the line-break
run the text starts with, if any. -/
theorem CutsTo.consBreak {n cs : List Char} {ls : List (TokenKind × List Char)} (hn : n ≠ [])
    (hbreaks : ∀ x ∈ n, isLineBreak x = true) (h : CutsTo cs ls []) :
    CutsTo (n ++ cs) (Lexer.consBreak (.newline, n) ls) [] := by
  obtain ⟨c, a, rfl⟩ := List.exists_cons_of_ne_nil hn
  have hc := hbreaks c (by simp)
  have ha : ∀ x ∈ a, isLineBreak x = true := fun x hx => hbreaks x (by simp [hx])
  cases h with
  | nil => simpa [consBreak_nil] using CutsTo.cons (scan_break_run hc ha (by simp)) (.nil [])
  | @cons c₁ b rest _ k ls' hs hrest =>
    by_cases hk : k = .newline
    · -- the two runs meet: one lexeme
      subst hk
      obtain ⟨hc₁, hb, hhead⟩ := scan_eq_newline hs
      have hall : ∀ x ∈ a ++ c₁ :: b, isLineBreak x = true := by
        intro x hx
        rcases List.mem_append.1 hx with hx | hx
        · exact ha x hx
        · rcases List.mem_cons.1 hx with rfl | hx
          · exact hc₁
          · exact hb x hx
      have := CutsTo.cons (scan_break_run (r := rest) hc hall hhead) hrest
      simpa [Lexer.consBreak] using this
    · -- the text starts with no line break
      have hc₁ : isLineBreak c₁ = false := by
        cases h₁ : isLineBreak c₁
        · rfl
        · exact absurd (Prod.mk.inj ((scan_of_isLineBreak h₁ _).symm.trans hs)).1.symm hk
      have := CutsTo.cons (scan_break_run (r := c₁ :: (b ++ rest)) hc ha (by simpa using hc₁))
        (CutsTo.cons hs hrest)
      simpa [Lexer.consBreak, hk] using this

end Lexer

end GameScript
