import Mathlib
import GameScript.Proofs.TokenShapes
/-!
# Names that are one identifier

A rename accepts a new name when lexing it gives one identifier and nothing
else (`isIdentifier`). This file says which texts those are without running
the lexer (`isIdentifier_iff`): a word of ASCII letters, digits and `_` whose
ASCII lowercase is neither a keyword nor a type name, that is not all digits,
and that does not start with `0x` or `0X` and a hexadecimal digit.

The lexer reads a word whole except in two cases, both of a word that starts
with a digit: digits alone are a number, and a hexadecimal prefix with a digit
is a hexadecimal number that stops where its hexadecimal digits stop. Any
other word that starts with a digit (`1x`, `0x`, `0xg`, `00x1`) stays one word,
and the keyword table is looked up with the word's ASCII lowercase.
-/

set_option autoImplicit false

namespace GameScript

/-- A word is an identifier exactly when the keyword table has no entry for
its lowercase. -/
theorem TokenKind.ofWord_eq_ident_iff (w : String) :
    TokenKind.ofWord w = .ident ↔ TokenKind.keyword? w.toLower = none := by
  unfold TokenKind.ofWord
  cases h : TokenKind.keyword? w.toLower with
  | none => simp
  | some k =>
    -- the table holds keywords and type names, never the identifier kind
    have hk : k ≠ .ident := by
      unfold TokenKind.keyword? at h
      split at h <;> cases h <;> decide
    simpa using hk

namespace Lexer

/-- Characters that start with `0x` or `0X` and a hexadecimal digit. -/
def HexPrefixed (cs : List Char) : Prop :=
  ∃ x d rest, cs = '0' :: x :: d :: rest ∧ (x = 'x' ∨ x = 'X') ∧ isHexDigit d = true

/-! ## One cut of a word -/

/-- A word cut whole is the only token before the end of input. -/
theorem lexFrom_of_scan_whole {c : Char} {cs : List Char} {k : TokenKind}
    (h : scan c cs = (k, cs.length)) (p : Nat) :
    lexFrom (c :: cs) p =
      [⟨k, p, String.ofList (c :: cs)⟩, ⟨.eof, p + (String.ofList (c :: cs)).utf8ByteSize, ""⟩] := by
  rw [lexFrom, h]
  simp [lexFrom]

/-- A word that starts with a letter or `_` is cut whole. -/
theorem scan_word_of_not_digit {c : Char} {cs : List Char} (hw : IsWord (c :: cs))
    (hc : c.isDigit = false) :
    scan c cs = (TokenKind.ofWord (String.ofList (c :: cs)), cs.length) := by
  have hcs : cs.takeWhile isWordChar = cs :=
    List.takeWhile_eq_self_iff.2 fun x hx => hw.2 x (List.mem_cons_of_mem c hx)
  rw [scan_of_isWordChar (hw.2 c List.mem_cons_self), if_neg (by simp [hc]), hcs]

/-- A hexadecimal prefix with a digit makes a hexadecimal number. -/
theorem scanDigitWord_hexPrefixed {x d : Char} {rest : List Char} (hx : x = 'x' ∨ x = 'X')
    (hd : isHexDigit d = true) : (scanDigitWord '0' (x :: d :: rest)).1 = .hexNumber := by
  have hxw : isWordChar x = true := by rcases hx with rfl | rfl <;> rfl
  have hmark : (x == 'x' || x == 'X') = true := by rcases hx with rfl | rfl <;> rfl
  simp [scanDigitWord, hxw, isWordChar_of_isHexDigit hd, hmark, hd]

/-- Digits alone make one number. -/
theorem scanDigitWord_digits {c : Char} {cs : List Char} (hd : IsDigits (c :: cs)) :
    scanDigitWord c cs = (.number, cs.length) := by
  have hall : ∀ x ∈ cs, x.isDigit = true := fun x hx => hd.2 x (List.mem_cons_of_mem c hx)
  have hword : cs.takeWhile isWordChar = cs :=
    List.takeWhile_eq_self_iff.2 fun x hx => isWordChar_of_isDigit (hall x hx)
  have htail : numberTail cs = cs.length := by
    simp [numberTail, List.takeWhile_eq_self_iff.2 hall]
  unfold scanDigitWord
  simp only [hword, htail, List.drop_length, startsWord]
  -- no digit is a hexadecimal mark
  cases cs with
  | nil => rfl
  | cons x rest =>
    have hx := hall x List.mem_cons_self
    have hmark : (x == 'x' || x == 'X') = false := by
      rcases Bool.eq_false_or_eq_true (x == 'x' || x == 'X') with h | h
      · simp only [Bool.or_eq_true, beq_iff_eq] at h
        rcases h with rfl | rfl <;> simp at hx
      · exact h
    simp [hmark]

/-- A word that starts with a digit, is not all digits and has no
hexadecimal prefix with a digit is cut whole. -/
theorem scanDigitWord_word {c : Char} {cs : List Char} (hc : c.isDigit = true) (hw : IsWord (c :: cs))
    (hdig : ¬ IsDigits (c :: cs)) (hhex : ¬ HexPrefixed (c :: cs)) :
    scanDigitWord c cs = (TokenKind.ofWord (String.ofList (c :: cs)), cs.length) := by
  have hall : ∀ x ∈ cs, isWordChar x = true := fun x hx => hw.2 x (List.mem_cons_of_mem c hx)
  have hword : cs.takeWhile isWordChar = cs := List.takeWhile_eq_self_iff.2 hall
  -- the digits stop at a word character that is no digit, so no fraction follows
  obtain ⟨y, ys, hys⟩ : ∃ y ys, cs.dropWhile Char.isDigit = y :: ys := by
    cases h : cs.dropWhile Char.isDigit with
    | nil =>
      refine absurd ⟨List.cons_ne_nil _ _, fun x hx => ?_⟩ hdig
      rcases List.mem_cons.1 hx with rfl | hx
      · exact hc
      · exact List.dropWhile_eq_nil_iff.1 h x hx
    | cons y ys => exact ⟨y, ys, rfl⟩
  have hy : isWordChar y = true :=
    hall y ((List.dropWhile_sublist _).subset (by rw [hys]; exact List.mem_cons_self))
  have hydot : y ≠ '.' := by
    rintro rfl
    simp [isWordChar] at hy
  have htail : numberTail cs = (cs.takeWhile Char.isDigit).length := by
    unfold numberTail
    dsimp only
    rw [drop_length_takeWhile, hys]
    split
    · rename_i d more h
      exact absurd (List.cons.inj h).1 hydot
    · rfl
  unfold scanDigitWord
  simp only [hword, htail, drop_length_takeWhile, hys, startsWord, hy, if_true]
  -- a hexadecimal mark is not followed by a hexadecimal digit
  cases cs with
  | nil => rfl
  | cons x rest =>
    by_cases hmark : c = '0' ∧ (x = 'x' ∨ x = 'X')
    · obtain ⟨rfl, hx⟩ := hmark
      cases rest with
      | nil => simp
      | cons d more =>
        have hd : isHexDigit d = false := by
          cases hd : isHexDigit d
          · rfl
          · exact absurd ⟨x, d, more, rfl, hx, hd⟩ hhex
        simp [hd]
    · have hb : (c == '0' && (x == 'x' || x == 'X')) = false := by
        simpa using hmark
      simp [hb]

/-! ## The tokens of a word -/

/-- A word that is not all digits and has no hexadecimal prefix with a digit
is one token, of the kind the keyword table gives it. -/
theorem lex_word {s : String} (hw : IsWord s.toList) (hdig : ¬ IsDigits s.toList)
    (hhex : ¬ HexPrefixed s.toList) :
    lex s = [⟨TokenKind.ofWord s, 0, s⟩, ⟨.eof, s.utf8ByteSize, ""⟩] := by
  obtain ⟨c, cs, hs⟩ := List.exists_cons_of_ne_nil hw.1
  have hofList : String.ofList (c :: cs) = s := by rw [← hs, String.ofList_toList]
  rw [hs] at hw hdig hhex
  have hscan : scan c cs = (TokenKind.ofWord s, cs.length) := by
    cases hc : c.isDigit
    · rw [scan_word_of_not_digit hw hc, hofList]
    · rw [scan_of_isWordChar (hw.2 c List.mem_cons_self), if_pos hc,
        scanDigitWord_word hc hw hdig hhex, hofList]
  rw [lex, hs, lexFrom_of_scan_whole hscan, hofList, Nat.zero_add]

/-- Digits alone are one number. -/
theorem lex_digits {s : String} (hd : IsDigits s.toList) :
    lex s = [⟨.number, 0, s⟩, ⟨.eof, s.utf8ByteSize, ""⟩] := by
  obtain ⟨c, cs, hs⟩ := List.exists_cons_of_ne_nil hd.1
  have hofList : String.ofList (c :: cs) = s := by rw [← hs, String.ofList_toList]
  rw [hs] at hd
  have hc : c.isDigit = true := hd.2 c List.mem_cons_self
  have hscan : scan c cs = (.number, cs.length) := by
    rw [scan_of_isWordChar (isWordChar_of_isDigit hc), if_pos hc, scanDigitWord_digits hd]
  rw [lex, hs, lexFrom_of_scan_whole hscan, hofList, Nat.zero_add]

/-- A hexadecimal prefix with a digit starts a hexadecimal number. -/
theorem lex_hexPrefixed {s : String} (hx : HexPrefixed s.toList) :
    ∃ t rest, lex s = t :: rest ∧ t.kind = .hexNumber := by
  obtain ⟨x, d, more, hs, hmark, hd⟩ := hx
  have hscan : (scan '0' (x :: d :: more)).1 = .hexNumber := by
    rw [scan_of_isWordChar (by decide), if_pos (by decide)]
    exact scanDigitWord_hexPrefixed hmark hd
  obtain ⟨rest, hcut⟩ := lexFrom_cons '0' (x :: d :: more) 0
  exact ⟨_, rest, by rw [lex, hs, hcut], hscan⟩

/-- A name that lexes as one identifier is a word that the keyword table
leaves an identifier. -/
theorem word_of_lex_ident {s : String} {t e : Token} (hlex : lex s = [t, e]) (ht : t.kind = .ident) :
    IsWord s.toList ∧ TokenKind.ofWord s = .ident := by
  -- the token before the end of input is the whole name, and a word
  obtain ⟨⟨body, hbody, -, hshaped⟩, -⟩ := lex_shaped s
  rw [hlex] at hbody
  obtain ⟨rfl, rfl⟩ : body = [t] ∧ e = ⟨.eof, s.utf8ByteSize, ""⟩ := by
    rcases body with _ | ⟨u, _ | ⟨v, body⟩⟩ <;> simp_all
  have htext : t.text = s := by
    simpa [hlex] using lex_texts s
  obtain ⟨-, hshape⟩ := hshaped t List.mem_cons_self
  rw [ht, htext] at hshape
  rcases hshape with ⟨hw, hk⟩ | hsp
  · exact ⟨hw, by rwa [String.ofList_toList] at hk⟩
  · cases hsp

end Lexer

open Lexer in
/-- **Which names are one identifier.** A name lexes as exactly one
identifier when it is a word of ASCII letters, digits and `_`, its ASCII
lowercase is no keyword or type name of the table, it is not all digits, and
it does not start with `0x` or `0X` and a hexadecimal digit. -/
theorem isIdentifier_iff (s : String) :
    isIdentifier s = true ↔ IsWord s.toList ∧ TokenKind.keyword? s.toLower = none ∧
      ¬ IsDigits s.toList ∧ ¬ HexPrefixed s.toList := by
  constructor
  · intro h
    obtain ⟨t, e, hlex, ht⟩ : ∃ t e, lex s = [t, e] ∧ t.kind = .ident := by
      unfold isIdentifier at h
      split at h
      · rename_i t e hlex
        simp only [Bool.and_eq_true, beq_iff_eq] at h
        exact ⟨t, e, hlex, h.1⟩
      · cases h
    obtain ⟨hw, hk⟩ := word_of_lex_ident hlex ht
    refine ⟨hw, (TokenKind.ofWord_eq_ident_iff s).1 hk, fun hd => ?_, fun hx => ?_⟩
    · -- digits alone would be a number
      rw [lex_digits hd] at hlex
      have := congrArg (·.head?.map Token.kind) hlex
      simp [ht] at this
    · -- a hexadecimal prefix would start a hexadecimal number
      obtain ⟨u, rest, hu, hk⟩ := lex_hexPrefixed hx
      rw [hu] at hlex
      have := (List.cons.inj hlex).1
      subst this
      rw [ht] at hk
      cases hk
  · rintro ⟨hw, hkw, hdig, hhex⟩
    rw [isIdentifier, lex_word hw hdig hhex]
    simp [(TokenKind.ofWord_eq_ident_iff s).2 hkw]

-- the boundary cases of a leading digit: a mark without a hexadecimal digit
-- keeps the word whole
example : isIdentifier "0x" = true ∧ isIdentifier "0xg" = true ∧ isIdentifier "1x" = true ∧
    isIdentifier "00x1" = true ∧ isIdentifier "0x1" = false ∧ isIdentifier "Begin" = false := by
  decide +kernel

end GameScript
