import Mathlib
import GameScript.Syntax.Lexer
/-!
# The lexer tiles its input

`lex` cuts a text into tokens that follow one another with no gap and no
overlap, and ends them with one zero-width end-of-input token. Everything the
parser promises about positions rests on this: the tree it builds is made of
these tokens, so its text is the source exactly when the tokens' texts are,
and a problem it reports points between two tokens.

The facts are proved of `Lexer.lexFrom`, the loop that `lex` runs from
offset zero, by its own induction: one token is cut, the rest is lexed from
where it stops. Nothing here depends on which shape a token has; only on the
end-of-input kind never being one of them (`Lexer.scan_ne_eof`).
-/

set_option autoImplicit false

namespace GameScript

/-! ## The end-of-input kind is never cut from text -/

theorem TokenKind.ofWord_ne_eof (word : String) : TokenKind.ofWord word ≠ .eof := by
  unfold TokenKind.ofWord TokenKind.keyword?
  split <;> simp

namespace Lexer

theorem twoCharOp?_ne_eof {c d : Char} {k : TokenKind} (h : twoCharOp? c d = some k) :
    k ≠ .eof := by
  unfold twoCharOp? at h
  split at h <;> cases h <;> simp

theorem oneCharOp?_getD_ne_eof (c : Char) : (oneCharOp? c).getD .unknown ≠ .eof := by
  unfold oneCharOp?
  split <;> simp

theorem scanDigitWord_ne_eof (c : Char) (cs : List Char) : (scanDigitWord c cs).1 ≠ .eof := by
  unfold scanDigitWord
  dsimp only
  split_ifs <;> simp [TokenKind.ofWord_ne_eof]

/-- Whatever the first character, the lexeme cut from it is not the end of
input: that kind is kept for the token `lexFrom` adds when nothing is left. -/
theorem scan_ne_eof (c : Char) (cs : List Char) : (scan c cs).1 ≠ .eof := by
  unfold scan
  dsimp only
  split_ifs
  any_goals simp [TokenKind.ofWord_ne_eof, scanDigitWord_ne_eof]
  -- operators: two characters before one, anything else is `unknown`
  split
  · split
    · exact twoCharOp?_ne_eof ‹_›
    · exact oneCharOp?_getD_ne_eof c
  · exact oneCharOp?_getD_ne_eof c

/-! ## Tiling -/

/-- A token's text and the text left after it make up the text it was cut
from, in bytes. -/
theorem utf8ByteSize_cut (c : Char) (cs : List Char) (n : Nat) :
    (String.ofList (c :: cs.take n)).utf8ByteSize + (String.ofList (cs.drop n)).utf8ByteSize =
      (String.ofList (c :: cs)).utf8ByteSize := by
  rw [← String.utf8ByteSize_append, ← String.ofList_append]
  simp

/-- The texts of the tokens, end of input included, spell the input. -/
theorem lexFrom_texts (cs : List Char) (pos : Nat) :
    String.join ((lexFrom cs pos).map (·.text)) = String.ofList cs := by
  fun_induction lexFrom cs pos with
  | case1 pos => simp
  | case2 c cs pos kind extra h text ih =>
    rw [List.map_cons, String.join_cons, ih, ← String.ofList_append]
    simp

/-- The first token starts where lexing starts. -/
theorem lexFrom_head (cs : List Char) (pos : Nat) :
    ∃ t rest, lexFrom cs pos = t :: rest ∧ t.start = pos := by
  cases cs with
  | nil => exact ⟨_, _, by rw [lexFrom], rfl⟩
  | cons c cs => exact ⟨_, _, by rw [lexFrom], rfl⟩

/-- The tokens end with the end-of-input token, placed at the end of the
input, and no token before it has that kind. -/
theorem lexFrom_eq_append_eof (cs : List Char) (pos : Nat) :
    ∃ body, lexFrom cs pos = body ++ [⟨.eof, pos + (String.ofList cs).utf8ByteSize, ""⟩] ∧
      ∀ t ∈ body, t.kind ≠ .eof := by
  fun_induction lexFrom cs pos with
  | case1 pos => exact ⟨[], by simp⟩
  | case2 c cs pos kind extra h text ih =>
    obtain ⟨body, hbody, heof⟩ := ih
    refine ⟨⟨kind, pos, text⟩ :: body, ?_, ?_⟩
    · rw [hbody, ← utf8ByteSize_cut c cs extra, ← Nat.add_assoc]
      rfl
    · intro t ht
      rcases List.mem_cons.1 ht with rfl | ht
      · have := scan_ne_eof c cs
        rwa [h] at this
      · exact heof t ht

/-- Every token lies between the start of lexing and the end of the input. -/
theorem lexFrom_bounds (cs : List Char) (pos : Nat) :
    ∀ t ∈ lexFrom cs pos, pos ≤ t.start ∧ t.stop ≤ pos + (String.ofList cs).utf8ByteSize := by
  fun_induction lexFrom cs pos with
  | case1 pos => simp [Token.stop]
  | case2 c cs pos kind extra h text ih =>
    have hsize : text.utf8ByteSize + _ = _ := utf8ByteSize_cut c cs extra
    intro t ht
    rcases List.mem_cons.1 ht with rfl | ht
    · simp only [Token.stop]
      omega
    · have := ih t ht
      omega

/-- A token other than the end of input stops where another one starts. -/
theorem lexFrom_stop_mem (cs : List Char) (pos : Nat) :
    ∀ t ∈ lexFrom cs pos, t.kind ≠ .eof → ∃ u ∈ lexFrom cs pos, u.start = t.stop := by
  fun_induction lexFrom cs pos with
  | case1 pos => simp
  | case2 c cs pos kind extra h text ih =>
    intro t ht hk
    rcases List.mem_cons.1 ht with rfl | ht
    · -- the next token is the head of the rest, which starts where `t` stops
      obtain ⟨u, rest, hrest, hu⟩ := lexFrom_head (cs.drop extra) (pos + text.utf8ByteSize)
      exact ⟨u, by simp [hrest], hu⟩
    · obtain ⟨u, hu, hstart⟩ := ih t ht hk
      exact ⟨u, List.mem_cons_of_mem _ hu, hstart⟩

end Lexer

/-! ## Token boundaries of a text -/

/-- An offset where a token of `lex source` starts. The end of the text is
one, as the start of the end-of-input token; so is the end of every other
token, by `stop_isBoundary`. -/
def IsBoundary (source : String) (offset : Nat) : Prop :=
  ∃ t ∈ lex source, t.start = offset

theorem lex_texts (source : String) : String.join ((lex source).map (·.text)) = source := by
  rw [lex, Lexer.lexFrom_texts, String.ofList_toList]

theorem lex_eq_append_eof (source : String) :
    ∃ body, lex source = body ++ [⟨.eof, source.utf8ByteSize, ""⟩] ∧ ∀ t ∈ body, t.kind ≠ .eof := by
  obtain ⟨body, h, heof⟩ := Lexer.lexFrom_eq_append_eof source.toList 0
  exact ⟨body, by simpa [lex, String.ofList_toList] using h, heof⟩

theorem zero_isBoundary (source : String) : IsBoundary source 0 := by
  obtain ⟨t, rest, h, ht⟩ := Lexer.lexFrom_head source.toList 0
  exact ⟨t, by simp [lex, h], ht⟩

theorem stop_isBoundary {source : String} {t : Token} (ht : t ∈ lex source)
    (hk : t.kind ≠ .eof) : IsBoundary source t.stop :=
  Lexer.lexFrom_stop_mem source.toList 0 t ht hk

theorem le_of_isBoundary {source : String} {offset : Nat} (h : IsBoundary source offset) :
    offset ≤ source.utf8ByteSize := by
  obtain ⟨t, ht, rfl⟩ := h
  have := Lexer.lexFrom_bounds source.toList 0 t ht
  simp only [String.ofList_toList, Token.stop] at this
  omega

end GameScript
