import Mathlib
import GameScript.Proofs.Relex
import GameScript.Proofs.Splice
/-!
# The shapes of the lexer's tokens

`lex` cuts a text into tokens of a few documented shapes, one language per
kind (`Lexer.Shaped`): blank runs `[ \t\f]+`, line-break runs `[\r\n]+`,
comments `;[^\r\n]*`, strings (a quote, characters other than that quote,
and the quote again if the text has it), decimal numbers `d+`, `d+.d+` and
`.d+`, hexadecimal numbers `0[xX]h+`, words `[0-9A-Za-z_]+` told apart by the
keyword table, operators and punctuation by their spelling, and a single
character for anything else.

Main statement (`lex_shaped`): the tokens before the end of input are
non-empty, tile the text from offset 0 to its end with every offset on a
character boundary, and each has the shape of its kind; the end of input
follows them, empty, at the end of the text. Runs are cut as long as they go
(`Lexer.Apart`): two blank runs or two line-break runs never meet, and a token
that is a word is followed by a word character only when it is a hexadecimal
number, whose digits may stop inside a word.

Both facts are proved of one cut (`scan_shaped`, `scan_apart`) and carried
along `lexFrom` by its own induction.
-/

set_option autoImplicit false

namespace GameScript

/-- The text of each operator and punctuation kind. -/
def TokenKind.spelling? : TokenKind → Option String
  | .colonEq => some ":=" | .plusEq => some "+=" | .minusEq => some "-=" | .starEq => some "*="
  | .slashEq => some "/=" | .caretEq => some "^=" | .pipeEq => some "|=" | .ampEq => some "&="
  | .percentEq => some "%=" | .pipePipe => some "||" | .ampAmp => some "&&" | .eqEq => some "=="
  | .bangEq => some "!=" | .gtEq => some ">=" | .ltEq => some "<=" | .shl => some "<<"
  | .shr => some ">>" | .arrow => some "->" | .lArrow => some "<-"
  | .plus => some "+" | .minus => some "-" | .star => some "*" | .slash => some "/"
  | .percent => some "%" | .caret => some "^" | .bang => some "!" | .dollar => some "$"
  | .hash => some "#" | .amp => some "&" | .pipe => some "|" | .lt => some "<" | .gt => some ">"
  | .dot => some "." | .comma => some "," | .colon => some ":" | .lParen => some "("
  | .rParen => some ")" | .lBracket => some "[" | .rBracket => some "]"
  | .lBrace => some "\x7b" | .rBrace => some "\x7d"
  | _ => none

namespace Lexer

/-! ## The languages of the kinds -/

/-- A word: ASCII letters, digits and `_`, at least one. -/
def IsWord (cs : List Char) : Prop := cs ≠ [] ∧ ∀ c ∈ cs, isWordChar c = true

/-- Decimal digits, at least one. -/
def IsDigits (cs : List Char) : Prop := cs ≠ [] ∧ ∀ c ∈ cs, c.isDigit = true

/-- A decimal number: digits, digits with a fraction, or a fraction alone. -/
def IsDecimal (cs : List Char) : Prop :=
  IsDigits cs ∨ (∃ a b, cs = a ++ '.' :: b ∧ IsDigits a ∧ IsDigits b) ∨
    ∃ b, cs = '.' :: b ∧ IsDigits b

/-- The texts a token of each kind may have. Identifiers, keywords and type
names are words told apart by the keyword table, compared in lower case;
operators and punctuation are their spelling; no text is an end of input. -/
def Shaped : TokenKind → List Char → Prop
  | .whitespace, cs => cs ≠ [] ∧ ∀ c ∈ cs, isBlank c = true
  | .newline, cs => cs ≠ [] ∧ ∀ c ∈ cs, isLineBreak c = true
  | .comment, cs => ∃ body, cs = ';' :: body ∧ ∀ c ∈ body, isLineBreak c = false
  | .string, cs => ∃ q body, (q = '"' ∨ q = '\'') ∧ (∀ c ∈ body, c ≠ q) ∧
      (cs = q :: body ∨ cs = q :: body ++ [q])
  | .number, cs => IsDecimal cs
  | .hexNumber, cs => ∃ x ds, cs = '0' :: x :: ds ∧ (x = 'x' ∨ x = 'X') ∧ ds ≠ [] ∧
      ∀ d ∈ ds, isHexDigit d = true
  | .unknown, cs => cs.length = 1
  | .eof, _ => False
  | k, cs => (IsWord cs ∧ TokenKind.ofWord (String.ofList cs) = k) ∨
      k.spelling? = some (String.ofList cs)

/-- What may stand side by side: never two blank runs, never two line-break
runs, and after a token that is a word a word character only when the token is
a hexadecimal number. -/
def Apart (t u : Token) : Prop :=
  ¬ (t.kind = .whitespace ∧ u.kind = .whitespace) ∧ ¬ (t.kind = .newline ∧ u.kind = .newline) ∧
    (IsWord t.text.toList → startsWord u.text.toList = true → t.kind = .hexNumber)

/-! ## Runs -/

theorem take_length_takeWhile (p : Char → Bool) (cs : List Char) :
    cs.take (cs.takeWhile p).length = cs.takeWhile p :=
  (List.prefix_iff_eq_take.1 (List.takeWhile_prefix p)).symm

/-- A first character that passes a test, then the run of those after it. -/
theorem run_passes {p : Char → Bool} {c : Char} (hc : p c = true) (cs : List Char) :
    ∀ x ∈ c :: cs.takeWhile p, p x = true := by
  intro x hx
  rcases List.mem_cons.1 hx with rfl | hx
  · exact hc
  · exact List.mem_takeWhile_imp hx

/-- A run stops before a character that fails the test. -/
theorem run_stops (p : Char → Bool) (cs : List Char) :
    ∀ x ∈ (cs.drop (cs.takeWhile p).length).head?, p x = false := by
  induction cs with
  | nil => simp
  | cons y ys ih =>
    by_cases hy : p y
    · simpa [hy] using ih
    · simp [hy]

theorem startsWord_eq_false {cs : List Char} (h : ∀ x ∈ cs.head?, isWordChar x = false) :
    startsWord cs = false := by
  cases cs with
  | nil => rfl
  | cons x xs => exact h x rfl

theorem isWordChar_of_isDigit {c : Char} (h : c.isDigit = true) : isWordChar c = true := by
  simp [isWordChar, Char.isAlphanum, h]

theorem isWordChar_of_isHexDigit {c : Char} (h : isHexDigit c = true) : isWordChar c = true := by
  rw [isWordChar_iff]
  simp only [isHexDigit, Char.isDigit, Bool.or_eq_true, Bool.and_eq_true, decide_eq_true_eq,
    Char.le_def, UInt32.le_iff_toNat_le, ge_iff_le] at h
  have : c.toNat = c.val.toNat := rfl
  have : ('0' : Char).val.toNat = 48 := rfl
  have : ('9' : Char).val.toNat = 57 := rfl
  have : ('a' : Char).val.toNat = 97 := rfl
  have : ('f' : Char).val.toNat = 102 := rfl
  have : ('A' : Char).val.toNat = 65 := rfl
  have : ('F' : Char).val.toNat = 70 := rfl
  omega

/-- Hexadecimal digits stop inside the word they start. -/
theorem takeWhile_isHexDigit_word (cs : List Char) :
    (cs.takeWhile isWordChar).takeWhile isHexDigit = cs.takeWhile isHexDigit := by
  induction cs with
  | nil => rfl
  | cons y ys ih =>
    by_cases hh : isHexDigit y
    · simp [hh, isWordChar_of_isHexDigit hh, ih]
    · by_cases hw : isWordChar y <;> simp [hh, hw]

/-- A word character starts no blank run, comment, line break, string or
point, so it starts a word. -/
theorem scan_of_isWordChar {c : Char} (h : isWordChar c = true) (cs : List Char) :
    scan c cs = if c.isDigit then scanDigitWord c cs
      else (TokenKind.ofWord (String.ofList (c :: cs.takeWhile isWordChar)),
        (cs.takeWhile isWordChar).length) := by
  have hsep := isSeparator_of_isWordChar h
  simp only [isSeparator, Bool.or_eq_false_iff] at hsep
  have hn : c ≠ ';' ∧ c ≠ '"' ∧ c ≠ '\'' := by
    rw [isWordChar_iff] at h
    refine ⟨?_, ?_, ?_⟩ <;> rintro rfl <;> simp at h
  simp [scan, hsep.1, hsep.2, hn.1, hn.2.1, hn.2.2, h]

/-! ## One cut has the shape of its kind -/

theorem shaped_ofWord {cs : List Char} (h : IsWord cs) :
    Shaped (TokenKind.ofWord (String.ofList cs)) cs := by
  generalize hk : TokenKind.ofWord (String.ofList cs) = k
  have hw := And.intro h hk
  -- the word is an identifier or one of the keywords of the table
  unfold TokenKind.ofWord TokenKind.keyword? at hk
  split at hk <;> subst hk <;> exact Or.inl hw

theorem shaped_twoCharOp? {c d : Char} {k : TokenKind} (h : twoCharOp? c d = some k) :
    Shaped k [c, d] := by
  unfold twoCharOp? at h
  split at h <;> cases h <;> exact Or.inr rfl

theorem shaped_oneCharOp? {c : Char} {k : TokenKind} (h : oneCharOp? c = some k) :
    Shaped k [c] := by
  unfold oneCharOp? at h
  split at h <;> cases h <;> exact Or.inr rfl

theorem shaped_operator (c : Char) : Shaped ((oneCharOp? c).getD .unknown) [c] := by
  cases h : oneCharOp? c with
  | none => rfl
  | some k => exact shaped_oneCharOp? h

theorem isDigits_run {c : Char} (hc : c.isDigit = true) (cs : List Char) :
    IsDigits (c :: cs.takeWhile Char.isDigit) :=
  ⟨List.cons_ne_nil _ _, run_passes hc cs⟩

theorem isWord_run {c : Char} (hc : isWordChar c = true) (cs : List Char) :
    IsWord (c :: cs.takeWhile isWordChar) :=
  ⟨List.cons_ne_nil _ _, run_passes hc cs⟩

theorem drop_length_takeWhile (p : Char → Bool) (cs : List Char) :
    cs.drop (cs.takeWhile p).length = cs.dropWhile p := by
  induction cs with
  | nil => rfl
  | cons y ys ih => by_cases hy : p y <;> simp [hy, ih]

/-- The decimal number at the front of `c :: cs`, `c` a digit: its digits,
and a point with more digits if they follow. -/
theorem isDecimal_numberTail {c : Char} (hc : c.isDigit = true) (cs : List Char) :
    IsDecimal (c :: cs.take (numberTail cs)) := by
  unfold numberTail
  dsimp only
  rw [drop_length_takeWhile]
  have hsplit := List.takeWhile_append_dropWhile (p := Char.isDigit) (l := cs)
  have hds := isDigits_run hc cs
  generalize cs.takeWhile Char.isDigit = ds at hsplit hds ⊢
  generalize cs.dropWhile Char.isDigit = rest at hsplit ⊢
  subst hsplit
  have hlead : (ds ++ rest).take ds.length = ds := List.take_left' rfl
  split
  · rename_i d more
    split
    · rename_i hd
      -- digits, a point, digits
      refine .inr (.inl ⟨c :: ds, d :: more.takeWhile Char.isDigit, ?_, hds, isDigits_run hd more⟩)
      have hlen : ds.length ≤ ds.length + 2 + (more.takeWhile Char.isDigit).length := by omega
      rw [List.take_append, List.take_of_length_le hlen,
        show ds.length + 2 + (more.takeWhile Char.isDigit).length - ds.length =
          (more.takeWhile Char.isDigit).length + 1 + 1 by omega]
      simp [take_length_takeWhile]
    · exact .inl (by rwa [hlead])
  · exact .inl (by rwa [hlead])

/-- A word that starts with a digit is a hexadecimal number, a decimal
number, or a word all the same. -/
theorem scanDigitWord_shaped {c : Char} (hc : c.isDigit = true) (cs : List Char) :
    Shaped (scanDigitWord c cs).1 (c :: cs.take (scanDigitWord c cs).2) := by
  unfold scanDigitWord
  dsimp only
  split_ifs with hhex hword
  · -- `0`, the mark, then the hexadecimal digits within the word
    cases cs with
    | nil => simp at hhex
    | cons x more =>
      by_cases hxw : isWordChar x
      · simp only [List.takeWhile_cons, hxw, if_true] at hhex ⊢
        split_ifs at hhex ⊢ with hmark
        · simp only [Bool.and_eq_true, beq_iff_eq, Bool.or_eq_true] at hmark
          obtain ⟨rfl, hx⟩ := hmark
          rw [takeWhile_isHexDigit_word] at hhex ⊢
          refine ⟨x, more.takeWhile isHexDigit, ?_, hx, ?_, fun d hd => List.mem_takeWhile_imp hd⟩
          · simp [take_length_takeWhile]
          · exact List.ne_nil_of_length_pos hhex
        · simp at hhex
      · simp [hxw] at hhex
  · -- digits that run into a word character: the whole word
    rw [take_length_takeWhile]
    exact shaped_ofWord (isWord_run (isWordChar_of_isDigit hc) cs)
  · exact isDecimal_numberTail hc cs

/-- Every cut has the shape of the kind it is given. -/
theorem scan_shaped (c : Char) (cs : List Char) :
    Shaped (scan c cs).1 (c :: cs.take (scan c cs).2) := by
  unfold scan
  dsimp only
  split_ifs with hb hsc hnl hq hclose hw hd hdot hnum
  · exact ⟨List.cons_ne_nil _ _, by rw [take_length_takeWhile]; exact run_passes hb cs⟩
  · obtain rfl : c = ';' := by simpa using hsc
    refine ⟨_, by rw [take_length_takeWhile], fun x hx => ?_⟩
    simpa using List.mem_takeWhile_imp hx
  · exact ⟨List.cons_ne_nil _ _, by rw [take_length_takeWhile]; exact run_passes hnl cs⟩
  · -- a string closed by its own quote
    have hbody : ∀ x ∈ cs.takeWhile (· != c), x ≠ c := fun x hx => by
      simpa using List.mem_takeWhile_imp hx
    refine ⟨c, cs.takeWhile (· != c), by simpa using hq, hbody, .inr ?_⟩
    simp only [beq_iff_eq, List.head?_drop] at hclose
    rw [List.take_add_one, hclose, take_length_takeWhile]
    simp
  · refine ⟨c, cs.takeWhile (· != c), by simpa using hq, fun x hx => ?_, .inl ?_⟩
    · simpa using List.mem_takeWhile_imp hx
    · rw [take_length_takeWhile]
  · exact scanDigitWord_shaped hd cs
  · rw [take_length_takeWhile]
    exact shaped_ofWord (isWord_run hw cs)
  · -- a point and digits that no word character follows
    obtain rfl : c = '.' := by simpa using hdot
    simp only [Bool.and_eq_true, decide_eq_true_eq] at hnum
    refine .inr (.inr ⟨cs.takeWhile Char.isDigit, by rw [take_length_takeWhile], ?_,
      fun x hx => List.mem_takeWhile_imp hx⟩)
    exact List.ne_nil_of_length_pos hnum.1
  · obtain rfl : c = '.' := by simpa using hdot
    exact .inr rfl
  · -- operators: two characters before one, anything else one unknown character
    split
    · rename_i d more
      split
      · rename_i k hk
        exact shaped_twoCharOp? hk
      · exact shaped_operator c
    · exact shaped_operator c

/-! ## One cut stops where it must -/

theorem scan_whitespace_stops {c : Char} {cs : List Char} (h : (scan c cs).1 = .whitespace) :
    ∀ x ∈ (cs.drop (scan c cs).2).head?, isBlank x = false := by
  have hb : isBlank c = true := isBlank_of_scan (n := (scan c cs).2) (by rw [← h])
  rw [scan_of_isBlank hb]
  exact run_stops isBlank cs

theorem scan_newline_stops {c : Char} {cs : List Char} (h : (scan c cs).1 = .newline) :
    ∀ x ∈ (cs.drop (scan c cs).2).head?, isLineBreak x = false := by
  have hl : isLineBreak c = true := isLineBreak_of_scan (n := (scan c cs).2) (by rw [← h])
  rw [scan_of_isLineBreak hl]
  exact run_stops isLineBreak cs

/-- A cut that is a word and runs into a word character is a hexadecimal
number: every other word takes the whole run of word characters. -/
theorem scan_word_stops {c : Char} {cs : List Char} (hw : IsWord (c :: cs.take (scan c cs).2))
    (hs : startsWord (cs.drop (scan c cs).2) = true) : (scan c cs).1 = .hexNumber := by
  have hc : isWordChar c = true := hw.2 c List.mem_cons_self
  have hword := startsWord_eq_false (run_stops isWordChar cs)
  rw [scan_of_isWordChar hc] at hs ⊢
  split_ifs at hs ⊢
  · unfold scanDigitWord at hs ⊢
    dsimp only at hs ⊢
    split_ifs at hs ⊢ with hhex hnum
    · rfl
    · exact absurd hs (by rw [hword]; decide)
    · exact absurd hs hnum
  · exact absurd hs (by rw [hword]; decide)

/-! ## Along the text -/

/-- The first token cut from a non-empty text: the kind `scan` gives, the
first character and as many after it as `scan` takes. -/
theorem lexFrom_cons (d : Char) (ds : List Char) (p : Nat) :
    ∃ rest, lexFrom (d :: ds) p =
      ⟨(scan d ds).1, p, String.ofList (d :: ds.take (scan d ds).2)⟩ :: rest :=
  ⟨_, by rw [lexFrom]⟩

/-- The tokens before the end of input are non-empty and shaped. -/
theorem lexFrom_shaped (cs : List Char) (pos : Nat) :
    ∀ t ∈ (lexFrom cs pos).dropLast, t.text ≠ "" ∧ Shaped t.kind t.text.toList := by
  fun_induction lexFrom cs pos with
  | case1 pos => simp
  | case2 c cs pos kind extra h text ih =>
    obtain ⟨u, rest, hrest, -⟩ := lexFrom_head (cs.drop extra) (pos + text.utf8ByteSize)
    rw [hrest] at ih ⊢
    rw [List.dropLast_cons_of_ne_nil (List.cons_ne_nil _ _)]
    intro t ht
    rcases List.mem_cons.1 ht with rfl | ht
    · have hshape := scan_shaped c cs
      rw [h] at hshape
      exact ⟨by simp [text], by simpa [text] using hshape⟩
    · exact ih t ht

/-- Neighbouring tokens stand apart, the end of input included. -/
theorem lexFrom_apart (cs : List Char) (pos : Nat) : (lexFrom cs pos).IsChain Apart := by
  fun_induction lexFrom cs pos with
  | case1 pos => exact List.isChain_singleton _
  | case2 c cs pos kind extra h text ih =>
    refine List.IsChain.cons ih fun u hu => ?_
    have hws := @scan_whitespace_stops c cs
    have hnl := @scan_newline_stops c cs
    have hword := @scan_word_stops c cs
    rw [h] at hws hnl hword
    -- the next token is cut from what this one leaves, or is the end of input
    cases hr : cs.drop extra with
    | nil =>
      rw [hr, lexFrom] at hu
      obtain rfl : ⟨.eof, pos + text.utf8ByteSize, ""⟩ = u := by simpa using hu
      simp [Apart, startsWord]
    | cons d ds =>
      obtain ⟨rest, hcut⟩ := lexFrom_cons d ds (pos + text.utf8ByteSize)
      rw [hr, hcut] at hu
      obtain rfl := Option.some.inj hu
      simp only [hr, List.head?_cons, Option.mem_def, Option.some.injEq, forall_eq'] at hws hnl
      refine ⟨fun hblank => ?_, fun hbreak => ?_, fun hw hs => ?_⟩
      · obtain ⟨hk, hu⟩ := hblank
        have := isBlank_of_scan (n := (scan d ds).2) (by rw [← hu])
        rw [hws hk] at this
        exact absurd this (by decide)
      · obtain ⟨hk, hu⟩ := hbreak
        have := isLineBreak_of_scan (n := (scan d ds).2) (by rw [← hu])
        rw [hnl hk] at this
        exact absurd this (by decide)
      · refine hword (by simpa [text] using hw) ?_
        simpa [hr, startsWord] using hs

/-- Every token starts where a prefix of the text ends. -/
theorem lexFrom_starts (cs : List Char) (pos : Nat) :
    ∀ t ∈ lexFrom cs pos, ∃ i, t.start = pos + String.utf8Len (cs.take i) := by
  fun_induction lexFrom cs pos with
  | case1 pos => simp
  | case2 c cs pos kind extra h text ih =>
    intro t ht
    rcases List.mem_cons.1 ht with rfl | ht
    · exact ⟨0, by simp⟩
    · obtain ⟨i, hi⟩ := ih t ht
      refine ⟨extra + 1 + i, ?_⟩
      rw [hi, show extra + 1 + i = (extra + i) + 1 by omega, List.take_succ_cons, List.take_add]
      simp [text, String.utf8ByteSize_ofList]
      omega

end Lexer

/-- The lexer tiles its input with tokens of the documented shapes. The
tokens of a text are tokens before the end of input, then the end of input,
empty, at the end of the text. Those before it follow one another with no gap
from offset 0 to the end of the text, each non-empty, with the shape of its
kind, and starting and stopping on character boundaries. Neighbours stand
apart: no two blank runs or line-break runs meet, and a word is followed by a
word character only when it is a hexadecimal number. -/
theorem lex_shaped (source : String) :
    (∃ body, lex source = body ++ [⟨.eof, source.utf8ByteSize, ""⟩] ∧
      Token.Tiles 0 body source.utf8ByteSize ∧
      ∀ t ∈ body, t.text ≠ "" ∧ Lexer.Shaped t.kind t.text.toList ∧
        (String.Pos.Raw.mk t.start).IsValid source ∧ (String.Pos.Raw.mk t.stop).IsValid source) ∧
    (lex source).IsChain Lexer.Apart := by
  obtain ⟨body, hlex, -⟩ := lex_eq_append_eof source
  have hbody : (lex source).dropLast = body := by rw [hlex, List.dropLast_concat]
  -- every token of the text starts on a character boundary
  have hvalid : ∀ t ∈ lex source, (String.Pos.Raw.mk t.start).IsValid source := by
    intro t ht
    obtain ⟨i, hi⟩ := Lexer.lexFrom_starts source.toList 0 t ht
    rw [String.Pos.Raw.isValid_iff_exists_take_toList]
    exact ⟨i, by simpa [String.utf8ByteSize_ofList] using hi⟩
  refine ⟨⟨body, hlex, hbody ▸ tiles_lex source, fun t ht => ?_⟩, Lexer.lexFrom_apart _ 0⟩
  have htmem : t ∈ lex source := by
    rw [hlex]
    exact List.mem_append_left _ ht
  obtain ⟨hne, hshape⟩ := Lexer.lexFrom_shaped source.toList 0 t (hbody ▸ ht)
  -- a shaped token is no end of input, so the next token starts where it stops
  have hk : t.kind ≠ .eof := by
    intro he
    rw [he] at hshape
    exact hshape
  obtain ⟨u, hu, hstart⟩ := stop_isBoundary htmem hk
  exact ⟨hne, hshape, hvalid t htmem, hstart ▸ hvalid u hu⟩

end GameScript
