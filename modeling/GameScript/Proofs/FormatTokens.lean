import Mathlib
import GameScript.Proofs.FormatLines
/-!
# Formatting changes only layout and keyword case

Formatting a text keeps its tokens: lexing the formatted text gives the
tokens of the text, blank runs left out, with the line-break runs that meet
once the blank lines are gone merged into one, and with keywords and type
names in another case (`formatTree_changes_only_layout`). Its edits are in
order within the text, so none is skipped when they are applied.

The formatted text is the lines' lexemes with the line breaks between them
(`formatSource_eq_join`), so it is enough to show that the lexer cuts it into
exactly those lexemes, line-break runs merged where a line is left empty
(`cutsTo_joinText`). Within a line this is `Lexer.CutsTo.recase`: every kept
token was cut from what followed it in the text, and what follows it in the
formatted text agrees as far as the lexer looks, because only blanks at the
ends of the line and the case of letters changed. The indentation in front
is a blank run, cut at the first kept token, which is no blank: two blank
runs never meet in a lexed text (`Lexer.CutsTo.blanks_apart`).
-/

set_option autoImplicit false

namespace GameScript

/-! ## Keyword case -/

namespace Lexer

/-- Upper case moves a lower-case ASCII letter 32 places down and keeps every
other character. -/
theorem toUpper_cases (c : Char) :
    c.toUpper = c ∨ (97 ≤ c.toNat ∧ c.toNat ≤ 122 ∧ c.toUpper.toNat + 32 = c.toNat) := by
  unfold Char.toUpper
  split
  · rename_i h
    right
    have h1 : 'a'.val ≤ c.val := h.1
    have h2 : c.val ≤ 'z'.val := h.2
    rw [UInt32.le_iff_toNat_le] at h1 h2
    simp only [Char.toNat, UInt32.toNat_add]
    simp at h1 h2 ⊢
    omega
  · left; rfl

theorem toLower_of_upper {c : Char} (h1 : 65 ≤ c.toNat) (h2 : c.toNat ≤ 90) :
    c.toLower.toNat = c.toNat + 32 := by
  have hA : 'A'.val ≤ c.val := by
    rw [UInt32.le_iff_toNat_le]
    exact h1
  have hZ : c.val ≤ 'Z'.val := by
    rw [UInt32.le_iff_toNat_le]
    exact h2
  have hc : c.toNat = c.val.toNat := rfl
  unfold Char.toLower
  rw [dif_pos ⟨hA, hZ⟩]
  simp only [Char.toNat, UInt32.toNat_add]
  simp
  omega

@[simp] theorem toLower_toUpper (c : Char) : c.toUpper.toLower = c.toLower := by
  rcases toUpper_cases c with h | ⟨h1, h2, h3⟩
  · rw [h]
  · -- a lower-case letter goes up and comes back
    rw [toLower_of_not_upper (c := c) (by omega)]
    apply Char.toNat_inj.1
    rw [toLower_of_upper (by omega) (by omega)]
    omega

end Lexer

/-- Every keyword style changes only the case of letters. -/
theorem KeywordStyle.toLower_apply (style : KeywordStyle) (word : String) :
    (style.apply word).toList.map Char.toLower = word.toList.map Char.toLower := by
  cases style with
  | lower => simp [apply, String.toList_map]
  | upper => simp [apply, String.toList_map]
  | preserve => rfl
  | capitalized =>
    unfold apply capitalize
    dsimp only
    split
    case h_7 =>
      -- every other word: its first letter raised, which lower case undoes
      have hlow : (word.toList.map Char.toLower).map Char.toLower = word.toList.map Char.toLower := by
        simp [Function.comp_def]
      split
      · rename_i hnil
        rw [String.toList_map] at hnil
        simp [hnil]
      · rename_i c cs hcons
        rw [← hlow, ← String.toList_map (s := word), hcons]
        simp
    -- the keywords with a capital inside are spelled out
    all_goals
      rename_i heq
      rw [← String.toList_map (s := word), heq]
      decide

/-- Keywords and type names hold no separator. -/
theorem TokenKind.holdsSeparators_of_cased {k : TokenKind} (h : (k.isKeyword || k.isType) = true) :
    k.holdsSeparators = false := by
  revert h
  cases k <;> decide

/-! ## What a lexed text looks like -/

namespace Lexer

/-- A text cut into lexemes starts with the first character of the first one,
which is a blank exactly when that lexeme is a blank run. -/
theorem CutsTo.head_isBlank {cs r a : List Char} {k : TokenKind} {ls : List (TokenKind × List Char)}
    (h : CutsTo cs ((k, a) :: ls) r) : ∀ x ∈ cs.head?, isBlank x = (k == .whitespace) := by
  cases h with
  | @cons c a' rest _ _ _ hs _ =>
    intro x hx
    obtain rfl : c = x := by simpa using hx
    cases hb : isBlank c
    · -- no blank starts a blank run
      cases hk : k == .whitespace
      · rfl
      · rw [beq_iff_eq.1 hk] at hs
        rw [isBlank_of_scan hs] at hb
        cases hb
    · rw [scan_of_isBlank hb] at hs
      simp [← (Prod.mk.inj hs).1]

/-- The first lexeme of a cut text: its first character and the rest of its
text, cut as the lexer cuts it from what follows. -/
theorem CutsTo.cons_inv {cs r n : List Char} {k : TokenKind} {ls : List (TokenKind × List Char)}
    (h : CutsTo cs ((k, n) :: ls) r) :
    ∃ c a, n = c :: a ∧ scan c (a ++ (chars ls ++ r)) = (k, a.length) ∧ CutsTo (chars ls ++ r) ls r := by
  cases h with
  | cons hs hrest => exact ⟨_, _, rfl, hrest.eq ▸ hs, hrest.eq ▸ hrest⟩

/-- Two blank runs never meet: the first would have taken the second. -/
theorem CutsTo.blanks_apart {cs r : List Char} {ls : List (TokenKind × List Char)}
    (h : CutsTo cs ls r) : ls.IsChain fun a b => a.1 = .whitespace → b.1 ≠ .whitespace := by
  induction h with
  | nil => exact .nil
  | @cons c a rest r k ls hs hrest ih =>
    refine ih.cons ?_
    intro l hl hk hl2
    obtain ⟨ls', rfl⟩ : ∃ ls', ls = l :: ls' := by
      cases ls with
      | nil => simp at hl
      | cons l' ls' => exact ⟨ls', by simpa using hl⟩
    subst hk
    obtain ⟨-, -, hhead⟩ := scan_eq_whitespace hs
    -- the next lexeme starts with the first character after the blank run
    obtain ⟨x, hx⟩ : ∃ x, rest.head? = some x := by
      cases hrest with
      | cons _ _ => exact ⟨_, rfl⟩
    have hblank := hrest.head_isBlank x hx
    rw [hl2, hhead x hx] at hblank
    simp at hblank


/-! ## Dropping blank runs and merging line breaks -/

section Merge

variable {σ : Type}

/-- Lexemes not blank runs. -/
def dropBlanks (xs : List (TokenKind × σ)) : List (TokenKind × σ) :=
  xs.filter fun l => l.1 != .whitespace

@[simp] theorem dropBlanks_nil : dropBlanks ([] : List (TokenKind × σ)) = [] := rfl

theorem dropBlanks_cons_of_blank {x : TokenKind × σ} (hx : x.1 = .whitespace)
    (xs : List (TokenKind × σ)) : dropBlanks (x :: xs) = dropBlanks xs := by
  simp [dropBlanks, hx]

theorem dropBlanks_cons_of_ne {x : TokenKind × σ} (hx : x.1 ≠ .whitespace)
    (xs : List (TokenKind × σ)) : dropBlanks (x :: xs) = x :: dropBlanks xs := by
  simp [dropBlanks, hx]

@[simp] theorem dropBlanks_append (xs ys : List (TokenKind × σ)) :
    dropBlanks (xs ++ ys) = dropBlanks xs ++ dropBlanks ys := List.filter_append _ _

/-- Settled blanks: a blank run is followed by neither a blank run nor a line
break. -/
def BlanksSettled (xs : List (TokenKind × σ)) : Prop :=
  xs.IsChain fun a b => a.1 = .whitespace → b.1 ≠ .whitespace ∧ b.1 ≠ .newline

/-- A list that starts with no blank run keeps its first lexeme when blank
runs are dropped. -/
theorem head?_dropBlanks {M : List (TokenKind × σ)} (h : ∀ y ∈ M.head?, y.1 ≠ .whitespace) :
    (dropBlanks M).head? = M.head? := by
  cases M with
  | nil => rfl
  | cons y M => simp [dropBlanks_cons_of_ne (h y rfl)]

variable [Append σ]

/-- After merging, dropping blank runs keeps the kind of the first lexeme when
that is no blank run. -/
theorem head?_kind_dropBlanks_mergeBreaks {xs : List (TokenKind × σ)}
    (h : ∀ w ∈ xs.head?, w.1 ≠ .whitespace) :
    (dropBlanks (mergeBreaks xs)).head?.map (·.1) = xs.head?.map (·.1) := by
  rw [head?_dropBlanks, head?_kind_mergeBreaks]
  intro y hy
  cases xs with
  | nil => simp at hy
  | cons x xs =>
    have := head?_kind_mergeBreaks (x :: xs)
    rw [hy] at this
    simp only [Option.map_some, List.head?_cons, Option.some.injEq] at this
    rw [this]
    exact h x rfl

/-- Dropping blank runs before a line break merges it as before, when a blank
run in front is followed by neither a blank run nor a line break. -/
theorem dropBlanks_consBreak {x : TokenKind × σ} (hx : x.1 = .newline) {M : List (TokenKind × σ)}
    (hM : ∀ y ∈ M.head?, y.1 = .whitespace → ∀ z ∈ (dropBlanks M.tail).head?, z.1 ≠ .newline) :
    dropBlanks (consBreak x M) = consBreak x (dropBlanks M) := by
  have hxw : x.1 ≠ .whitespace := by simp [hx]
  cases M with
  | nil => simp [dropBlanks_cons_of_ne hxw]
  | cons y M =>
    by_cases hyw : y.1 = .whitespace
    · have hyn : y.1 ≠ .newline := by simp [hyw]
      have hnext := hM y rfl hyw
      rw [dropBlanks_cons_of_blank hyw]
      simp only [consBreak, hyn, and_false, if_false]
      rw [dropBlanks_cons_of_ne hxw, dropBlanks_cons_of_blank hyw]
      -- what follows the blank run is no line break, so nothing merges
      cases hd : dropBlanks M with
      | nil => rfl
      | cons z M' =>
        have hz : z.1 ≠ .newline := hnext z (by simp [hd])
        simp [hz]
    · rw [dropBlanks_cons_of_ne hyw]
      by_cases hyn : y.1 = .newline
      · simp only [consBreak, hx, hyn, and_self, if_true]
        rw [dropBlanks_cons_of_ne (x := (.newline, x.2 ++ y.2)) (by simp)]
      · simp only [consBreak, hyn, and_false, if_false]
        rw [dropBlanks_cons_of_ne hxw, dropBlanks_cons_of_ne hyw]

/-- With settled blanks, a blank run that comes first after merging is
followed, once blank runs are dropped, by no line break. -/
theorem blank_head_mergeBreaks {xs : List (TokenKind × σ)} (h : BlanksSettled xs) :
    ∀ y ∈ (mergeBreaks xs).head?, y.1 = .whitespace →
      ∀ z ∈ (dropBlanks (mergeBreaks xs).tail).head?, z.1 ≠ .newline := by
  intro y hy hyw z hz
  cases xs with
  | nil => simp at hy
  | cons x xs =>
    -- merging keeps the kind of the first lexeme, so `x` is the blank run
    have hxw : x.1 = .whitespace := by
      have hkind := head?_kind_mergeBreaks (x :: xs)
      rw [hy] at hkind
      simp only [Option.map_some, List.head?_cons, Option.some.injEq] at hkind
      rw [← hkind]
      exact hyw
    have hnext : ∀ w ∈ xs.head?, w.1 ≠ .whitespace ∧ w.1 ≠ .newline :=
      fun w hw => (List.isChain_cons.1 h).1 w hw hxw
    rw [mergeBreaks_cons, consBreak_of_ne (by simp [hxw]), List.tail_cons] at hz
    have hkind := head?_kind_dropBlanks_mergeBreaks fun w hw => (hnext w hw).1
    rw [hz] at hkind
    cases hxs : xs.head? with
    | none => simp [hxs] at hkind
    | some w =>
      simp only [hxs, Option.map_some, Option.some.injEq] at hkind
      rw [hkind]
      exact (hnext w hxs).2

/-- Blank runs can be dropped before or after merging line breaks, when
blanks are settled. -/
theorem dropBlanks_mergeBreaks {xs : List (TokenKind × σ)} (h : BlanksSettled xs) :
    dropBlanks (mergeBreaks xs) = mergeBreaks (dropBlanks xs) := by
  induction xs with
  | nil => rfl
  | cons x xs ih =>
    obtain ⟨hhead, htail⟩ := List.isChain_cons.1 h
    have ih' := ih htail
    by_cases hxw : x.1 = .whitespace
    · rw [mergeBreaks_cons, consBreak_of_ne (by simp [hxw]), dropBlanks_cons_of_blank hxw, ih',
        dropBlanks_cons_of_blank hxw]
    · rw [dropBlanks_cons_of_ne hxw, mergeBreaks_cons, mergeBreaks_cons, ← ih']
      by_cases hxn : x.1 = .newline
      · exact dropBlanks_consBreak hxn (blank_head_mergeBreaks htail)
      · rw [consBreak_of_ne hxn, consBreak_of_ne hxn, dropBlanks_cons_of_ne hxw]

/-- A lexeme that is no line break, put last, stays last. -/
theorem mergeBreaks_concat_of_ne {xs : List (TokenKind × σ)} {e : TokenKind × σ}
    (he : e.1 ≠ .newline) : mergeBreaks (xs ++ [e]) = mergeBreaks xs ++ [e] := by
  induction xs with
  | nil => simp [consBreak_of_ne he]
  | cons x xs ih =>
    rw [List.cons_append, mergeBreaks_cons, mergeBreaks_cons, ih]
    cases hm : mergeBreaks xs with
    | nil => simp [consBreak, he]
    | cons m M =>
      simp only [List.cons_append, consBreak]
      split_ifs <;> rfl

/-- Merging respects a relation that keeps kinds and joins line breaks. -/
theorem forall₂_mergeBreaks {R : TokenKind × σ → TokenKind × σ → Prop}
    {xs ys : List (TokenKind × σ)} (h : List.Forall₂ R xs ys) (hkind : ∀ a b, R a b → a.1 = b.1)
    (hjoin : ∀ a a' b b', R (.newline, a) (.newline, b) → R (.newline, a') (.newline, b') →
      R (.newline, a ++ a') (.newline, b ++ b')) :
    List.Forall₂ R (mergeBreaks xs) (mergeBreaks ys) := by
  induction h with
  | nil => exact .nil
  | @cons x y xs ys hxy _ ih =>
    rw [mergeBreaks_cons, mergeBreaks_cons]
    generalize mergeBreaks xs = M at ih ⊢
    generalize mergeBreaks ys = N at ih ⊢
    cases ih with
    | nil => exact .cons hxy .nil
    | @cons m n M N hmn hrest =>
      have hk := hkind x y hxy
      have hk' := hkind m n hmn
      simp only [consBreak]
      by_cases hnl : x.1 = .newline ∧ m.1 = .newline
      · -- both sides merge, and the merged lexemes are related
        have hnl' : y.1 = .newline ∧ n.1 = .newline := ⟨hk ▸ hnl.1, hk' ▸ hnl.2⟩
        rw [if_pos hnl, if_pos hnl']
        obtain ⟨x1, x2⟩ := x
        obtain ⟨y1, y2⟩ := y
        obtain ⟨m1, m2⟩ := m
        obtain ⟨n1, n2⟩ := n
        obtain ⟨rfl, rfl⟩ := hnl
        obtain ⟨rfl, rfl⟩ := hnl'
        exact .cons (hjoin _ _ _ _ hxy hmn) hrest
      · have hnl' : ¬ (y.1 = .newline ∧ n.1 = .newline) := by rwa [← hk, ← hk']
        rw [if_neg hnl, if_neg hnl']
        exact .cons hxy (.cons hmn hrest)

/-- Merging commutes with a map of texts that keeps joins. -/
theorem map_mergeBreaks {τ : Type} [Append τ] (f : σ → τ) (hf : ∀ a b, f (a ++ b) = f a ++ f b)
    (xs : List (TokenKind × σ)) :
    (mergeBreaks xs).map (fun l => (l.1, f l.2)) = mergeBreaks (xs.map fun l => (l.1, f l.2)) := by
  induction xs with
  | nil => rfl
  | cons x xs ih =>
    rw [mergeBreaks_cons, List.map_cons, mergeBreaks_cons, ← ih]
    cases mergeBreaks xs with
    | nil => rfl
    | cons m M =>
      simp only [consBreak, List.map_cons]
      split_ifs <;> simp [hf]

end Merge

end Lexer

namespace Format

/-! ## The lexemes of a line -/

/-- The lexemes of some tokens. -/
def lexemesOf (line : List (Token × Nat)) : List (TokenKind × List Char) :=
  line.map fun x => (x.1.kind, x.1.text.toList)

@[simp] theorem lexemesOf_nil : lexemesOf [] = [] := rfl

@[simp] theorem lexemesOf_cons (x : Token × Nat) (line : List (Token × Nat)) :
    lexemesOf (x :: line) = (x.1.kind, x.1.text.toList) :: lexemesOf line := rfl

@[simp] theorem lexemesOf_append (line line' : List (Token × Nat)) :
    lexemesOf (line ++ line') = lexemesOf line ++ lexemesOf line' := by
  simp [lexemesOf]

/-- No two blanks of a line follow one another. -/
def BlanksApart (line : List (Token × Nat)) : Prop :=
  line.IsChain fun x y => x.1.kind = .whitespace → y.1.kind ≠ .whitespace

theorem BlanksApart.of_sub {line line' : List (Token × Nat)} (h : BlanksApart line)
    (hsub : line' <:+: line) : BlanksApart line' :=
  List.IsChain.infix h hsub

theorem blanksApart_of_cutsTo {cs r : List Char} {line : List (Token × Nat)}
    (h : Lexer.CutsTo cs (lexemesOf line) r) : BlanksApart line := by
  have := h.blanks_apart
  rwa [lexemesOf, List.isChain_map] at this

theorem indentPart_blank (line : List (Token × Nat)) :
    ∀ x ∈ indentPart line, x.1.kind = .whitespace := by
  match line with
  | [] => simp [indentPart]
  | (t, d) :: rest =>
    by_cases h : t.kind = .whitespace <;> simp [indentPart, h]

theorem trailPart_cases (content : List (Token × Nat)) :
    (trailPart content = [] ∧ ∀ y ∈ content.getLast?, y.1.kind ≠ .whitespace) ∨
      ∃ y, trailPart content = [y] ∧ y.1.kind = .whitespace := by
  unfold trailPart
  split
  · rename_i y hy
    by_cases h : y.1.kind = .whitespace
    · exact .inr ⟨y, by simp [h], h⟩
    · exact .inl ⟨by simp [h], by simp [hy, h]⟩
  · rename_i hy
    exact .inl ⟨rfl, by simp [hy]⟩

/-- After the leading blank comes no blank. -/
theorem afterIndent_head {line : List (Token × Nat)} (h : BlanksApart line) :
    ∀ x ∈ (afterIndent line).head?, x.1.kind ≠ .whitespace := by
  match line, h with
  | [], _ => simp [afterIndent]
  | (t, d) :: rest, h =>
    by_cases hw : t.kind = .whitespace
    · simp only [afterIndent, hw, beq_self_eq_true, ite_true]
      exact fun x hx => (List.isChain_cons.1 h).1 x hx hw
    · simp [afterIndent, hw]

/-- A line with tokens after its leading blank keeps some of them, starting
with the first. -/
theorem kept_head {line : List (Token × Nat)} (h : BlanksApart line) (hne : afterIndent line ≠ []) :
    ∃ x xs, kept line = x :: xs ∧ x.1.kind ≠ .whitespace := by
  have hsplit := kept_append_trailPart line
  obtain ⟨y, ys, hy⟩ := List.exists_cons_of_ne_nil hne
  have hyw := afterIndent_head h y (by simp [hy])
  cases hk : kept line with
  | nil =>
    -- else everything after the leading blank would be a trailing blank
    rcases trailPart_cases (afterIndent line) with ⟨ht, -⟩ | ⟨z, ht, hz⟩
    · rw [hk, ht, hy] at hsplit
      simp at hsplit
    · rw [hk, ht, hy] at hsplit
      simp only [List.nil_append, List.cons.injEq] at hsplit
      exact absurd (hsplit.1 ▸ hz) hyw
  | cons x xs =>
    rw [hk, hy, List.cons_append, List.cons.injEq] at hsplit
    exact ⟨x, xs, rfl, hsplit.1 ▸ hyw⟩

/-- A line with indentation has tokens after it. -/
theorem afterIndent_ne_nil {config : WorkspaceConfig} {line : List (Token × Nat)}
    (h : indentChars config line ≠ []) : afterIndent line ≠ [] := by
  intro hnil
  exact h (by simp [indentChars, hnil])

/-- The last token kept is no blank. -/
theorem kept_last {line : List (Token × Nat)} (h : BlanksApart line) :
    ∀ x ∈ (kept line).getLast?, x.1.kind ≠ .whitespace := by
  have hsplit := kept_append_trailPart line
  intro x hx
  obtain ⟨init, hinit⟩ := List.getLast?_eq_some_iff.1 hx
  rcases trailPart_cases (afterIndent line) with ⟨ht, hlast⟩ | ⟨y, ht, hy⟩
  · rw [ht, List.append_nil] at hsplit
    exact hlast x (by simp [← hsplit, hinit])
  · -- the kept token before the trailing blank is no blank
    rw [ht, hinit] at hsplit
    have hsuffix : afterIndent line <:+ line := by
      conv_rhs => rw [← indentPart_append_afterIndent line]
      exact List.suffix_append _ _
    have hsub : [x, y] <:+: afterIndent line := ⟨init, [], by rw [← hsplit]; simp⟩
    have hchain := h.of_sub (hsub.trans hsuffix.isInfix)
    intro hxw
    exact (List.isChain_cons_cons.1 hchain).1 hxw hy

theorem mem_of_mem_kept {line : List (Token × Nat)} {x : Token × Nat} (hx : x ∈ kept line) :
    x ∈ line := by
  rw [← indentPart_append_afterIndent line, ← kept_append_trailPart line]
  simp [hx]

/-- The indentation is blanks. -/
theorem isBlank_of_mem_indentChars (config : WorkspaceConfig) (line : List (Token × Nat)) :
    ∀ c ∈ indentChars config line, Lexer.isBlank c = true := by
  unfold indentChars
  split
  · intro c hc
    simp only [indentText, String.toList_join, List.mem_flatMap, List.mem_replicate] at hc
    obtain ⟨u, ⟨-, rfl⟩, hc⟩ := hc
    unfold WorkspaceConfig.indentUnit at hc
    split at hc
    · simp only [String.toList_ofList, List.mem_replicate] at hc
      rw [hc.2]
      rfl
    · have htab : "\t".toList = ['\t'] := by decide
      rw [htab, List.mem_singleton] at hc
      rw [hc]
      rfl
  · simp
/-! ## A line lexed again -/

/-- A recased token is a recased copy of its lexeme. -/
theorem recases_recased (config : WorkspaceConfig) (x : Token × Nat) :
    Lexer.Recases (x.1.kind, x.1.text.toList) (x.1.kind, (recased config x.1).toList) := by
  refine ⟨rfl, ?_, ?_⟩
  · unfold recased
    split
    · exact KeywordStyle.toLower_apply _ _
    · rfl
  · intro hsep
    unfold recased
    split
    · rename_i hk
      rw [TokenKind.holdsSeparators_of_cased hk] at hsep
      cases hsep
    · rfl

theorem run_eq_nil {cs : List Char} (h : ∀ x ∈ cs.head?, Lexer.isSeparator x = true) :
    Lexer.run cs = [] := by
  cases cs with
  | nil => rfl
  | cons x xs => simp [Lexer.run_cons, h x rfl]

theorem isSeparator_of_isLineBreak {c : Char} (h : Lexer.isLineBreak c = true) :
    Lexer.isSeparator c = true := by
  simp [Lexer.isSeparator, h]

/-- What follows a line's kept tokens, a trailing blank and then a line break
or nothing, agrees as the lexer looks with a line break or nothing. -/
theorem lookahead_trail {line : List (Token × Nat)} {Y X : List Char}
    (htrail : Lexer.CutsTo (Lexer.chars (lexemesOf (trailPart (afterIndent line))) ++ Y)
      (lexemesOf (trailPart (afterIndent line))) Y)
    (hY : ∀ y ∈ Y.head?, Lexer.isLineBreak y = true) (hX : ∀ x ∈ X.head?, Lexer.isLineBreak x = true)
    (hYX : Y = [] → X = []) :
    Lexer.Lookahead (Lexer.chars (lexemesOf (trailPart (afterIndent line))) ++ Y) X := by
  have hrunX : Lexer.run X = [] := run_eq_nil fun x hx => isSeparator_of_isLineBreak (hX x hx)
  have hrun : Lexer.run (Lexer.chars (lexemesOf (trailPart (afterIndent line))) ++ Y) = [] := by
    apply run_eq_nil
    rcases trailPart_cases (afterIndent line) with ⟨ht, -⟩ | ⟨y, ht, hy⟩
    · simpa [ht] using fun x hx => isSeparator_of_isLineBreak (hY x hx)
    · rw [ht] at htrail ⊢
      intro x hx
      have := htrail.head_isBlank x hx
      simp only [hy, beq_self_eq_true] at this
      simp [Lexer.isSeparator, this]
  refine ⟨by rw [hrunX, hrun], fun x hx => .inl (hX x hx), fun hnil => hYX ?_⟩
  exact (List.append_eq_nil_iff.1 hnil).2

/-- A line is cut in the formatted text into its formatted lexemes, whatever
line break or end follows it there, when it was cut into its lexemes in the
text, followed by a line break or nothing. -/
theorem cutsTo_lineLexemes (config : WorkspaceConfig) {line : List (Token × Nat)} {Y X : List Char}
    (h : Lexer.CutsTo (Lexer.chars (lexemesOf line) ++ Y) (lexemesOf line) Y)
    (hnl : ∀ x ∈ line, x.1.kind ≠ .newline)
    (hY : ∀ y ∈ Y.head?, Lexer.isLineBreak y = true) (hX : ∀ x ∈ X.head?, Lexer.isLineBreak x = true)
    (hYX : Y = [] → X = []) :
    Lexer.CutsTo (Lexer.chars (lineLexemes config line) ++ X) (lineLexemes config line) X := by
  have hapart := blanksApart_of_cutsTo h
  have hparts : lexemesOf line = lexemesOf (indentPart line) ++
      (lexemesOf (kept line) ++ lexemesOf (trailPart (afterIndent line))) := by
    rw [← lexemesOf_append, kept_append_trailPart, ← lexemesOf_append, indentPart_append_afterIndent]
  rw [hparts] at h
  obtain ⟨-, hrest⟩ := h.split
  obtain ⟨hkept, htrail⟩ := hrest.split
  have hrel : List.Forall₂ Lexer.Recases (lexemesOf (kept line))
      ((kept line).map fun x => (x.1.kind, (recased config x.1).toList)) :=
    List.forall₂_map_left_iff.2 (List.forall₂_map_right_iff.2
      (List.forall₂_same.2 fun x _ => recases_recased config x))
  have hkeptnl : ∀ l ∈ lexemesOf (kept line), l.1 ≠ .newline := by
    intro l hl
    obtain ⟨x, hx, rfl⟩ := List.mem_map.1 hl
    exact hnl x (mem_of_mem_kept hx)
  -- the kept tokens, recased, are cut as they were
  obtain ⟨hcut, hlook⟩ := hkept.recase hrel hkeptnl (lookahead_trail htrail hY hX hYX)
  unfold lineLexemes
  split_ifs with hind
  · simpa using hcut
  · -- the indentation is a blank run, cut at the first kept token, which is no blank
    obtain ⟨y, ys, hys, hyw⟩ := kept_head hapart (afterIndent_ne_nil hind)
    have hhead : ∀ x ∈ (Lexer.chars ((kept line).map fun x =>
        (x.1.kind, (recased config x.1).toList)) ++ X).head?, Lexer.isBlank x = false := by
      intro x hx
      rcases hlook.head x hx with hl | ⟨z, hz, hzx⟩
      · exact Lexer.isBlank_of_isLineBreak hl
      · have hr := hrest
        simp only [hys, lexemesOf_cons, List.cons_append] at hr hz
        have := hr.head_isBlank z hz
        rw [← Lexer.isBlank_toLower, ← hzx, Lexer.isBlank_toLower, this]
        simpa using hyw
    obtain ⟨c, a, hca⟩ := List.exists_cons_of_ne_nil hind
    have hblank := isBlank_of_mem_indentChars config line
    rw [hca] at hblank ⊢
    have hscan := Lexer.scan_blank_run (hblank c (by simp))
      (fun x hx => hblank x (List.mem_cons_of_mem c hx)) hhead
    simpa using Lexer.CutsTo.cons hscan hcut

/-! ## The formatted text lexed again -/

/-- The lexemes of formatted lines with the line breaks between them, before
line-break runs that meet are merged. -/
def unmerged (config : WorkspaceConfig) (ls : List (List (Token × Nat) × (Token × Nat)))
    (last : List (Token × Nat)) : List (TokenKind × List Char) :=
  ls.flatMap (fun l => lineLexemes config l.1 ++ [(.newline, l.2.1.text.toList)]) ++
    lineLexemes config last

@[simp] theorem unmerged_nil (config : WorkspaceConfig) (last : List (Token × Nat)) :
    unmerged config [] last = lineLexemes config last := by
  simp [unmerged]

@[simp] theorem unmerged_cons (config : WorkspaceConfig) (l : List (Token × Nat) × (Token × Nat))
    (ls : List (List (Token × Nat) × (Token × Nat))) (last : List (Token × Nat)) :
    unmerged config (l :: ls) last =
      lineLexemes config l.1 ++ (.newline, l.2.1.text.toList) :: unmerged config ls last := by
  simp [unmerged]

theorem joinText_cons (config : WorkspaceConfig) (l : List (Token × Nat) × (Token × Nat))
    (ls : List (List (Token × Nat) × (Token × Nat))) (last : List (Token × Nat)) :
    joinText config (l :: ls) last =
      Lexer.chars (lineLexemes config l.1) ++ l.2.1.text.toList ++ joinText config ls last := by
  simp [joinText]

/-- A formatted line holds no line break. -/
theorem lineLexemes_ne_newline (config : WorkspaceConfig) {line : List (Token × Nat)}
    (hnl : ∀ x ∈ line, x.1.kind ≠ .newline) : ∀ l ∈ lineLexemes config line, l.1 ≠ .newline := by
  intro l hl
  unfold lineLexemes at hl
  rcases List.mem_append.1 hl with hl | hl
  · split_ifs at hl
    · simp at hl
    · simp only [List.mem_singleton] at hl
      simp [hl]
  · obtain ⟨x, hx, rfl⟩ := List.mem_map.1 hl
    exact hnl x (mem_of_mem_kept hx)

/-- The formatted text is cut into the formatted lines' lexemes and the line
breaks, where line breaks that meet across an emptied line are one run. -/
theorem cutsTo_joinText (config : WorkspaceConfig) {ls : List (List (Token × Nat) × (Token × Nat))}
    {last : List (Token × Nat)} (hare : AreLines ls last)
    (h : Lexer.CutsTo (Lexer.chars (lexemesOf (joinLines ls last))) (lexemesOf (joinLines ls last)) []) :
    Lexer.CutsTo (joinText config ls last) (Lexer.mergeBreaks (unmerged config ls last)) [] := by
  induction ls with
  | nil =>
    -- the last line is followed by nothing, in both texts
    have hline := cutsTo_lineLexemes config (Y := []) (X := []) (by simpa using h) hare.2
      (by simp) (by simp) (fun _ => rfl)
    rw [unmerged_nil, ← List.append_nil (lineLexemes config last),
      Lexer.mergeBreaks_append_of_ne (lineLexemes_ne_newline config hare.2)]
    simpa [joinText] using hline
  | cons l ls ih =>
    obtain ⟨hl, hbreak⟩ := hare.1 l (by simp)
    rw [joinLines_cons, lexemesOf_append, lexemesOf_cons] at h
    obtain ⟨hline, hnext⟩ := h.split
    -- the line break after the line is a nonempty run of line-break characters
    obtain ⟨c, a, hn, hs, hrest⟩ := hnext.cons_inv
    rw [hbreak] at hs
    obtain ⟨hc, ha, -⟩ := Lexer.scan_eq_newline hs
    have hall : ∀ x ∈ c :: a, Lexer.isLineBreak x = true := by
      intro x hx
      rcases List.mem_cons.1 hx with rfl | hx
      · exact hc
      · exact ha x hx
    have htail := ih hare.tail (by simpa using hrest)
    have hcut := cutsTo_lineLexemes config
      (Y := c :: a ++ Lexer.chars (lexemesOf (joinLines ls last)))
      (X := c :: a ++ joinText config ls last) (by simpa [hn] using hline) hl
      (by simpa using hc) (by simpa using hc) (by simp)
    have := hcut.append (Lexer.CutsTo.consBreak (by simp) hall htail)
    rw [unmerged_cons, Lexer.mergeBreaks_append_of_ne (lineLexemes_ne_newline config hl),
      Lexer.mergeBreaks_cons, joinText_cons, hn]
    simpa using this

/-- The text is cut into the lexemes of its lines and line breaks. -/
theorem cutsTo_lines (source : String) {ls : List (List (Token × Nat) × (Token × Nat))}
    {last : List (Token × Nat)}
    (hlines : (leavesWithDepth (parseScript source fun _ => false).root 0).filter
      (fun x => x.1.kind != .eof) = joinLines ls last) :
    Lexer.CutsTo (Lexer.chars (lexemesOf (joinLines ls last))) (lexemesOf (joinLines ls last)) [] := by
  have htokens := tokens_parseScript source
  rw [hlines] at htokens
  have hsource := Lexer.cutsTo_lexFrom source.toList 0
  have hlex : ((Lexer.lexFrom source.toList 0).dropLast.map fun t => (t.kind, t.text.toList)) =
      lexemesOf (joinLines ls last) := by
    rw [← lex, ← htokens, lexemesOf, List.map_map]
    rfl
  rw [hlex] at hsource
  have hS := hsource
  rw [hsource.eq, List.append_nil] at hS
  exact hS

/-- Lexing the formatted text gives the formatted lines' lexemes, line-break
runs that meet merged, and the end of input. -/
theorem lex_formatSource (source : String) (config : WorkspaceConfig)
    {ls : List (List (Token × Nat) × (Token × Nat))} {last : List (Token × Nat)}
    (hlines : (leavesWithDepth (parseScript source fun _ => false).root 0).filter
      (fun x => x.1.kind != .eof) = joinLines ls last)
    (hare : AreLines ls last) :
    (lex (formatSource source config)).map (fun t => (t.kind, t.text)) =
      (Lexer.mergeBreaks (unmerged config ls last)).map (fun l => (l.1, String.ofList l.2)) ++
        [(.eof, "")] := by
  rw [(formatSource_eq_join source config hlines hare).2, lex, String.toList_ofList]
  exact Lexer.lexFrom_of_cutsTo (cutsTo_joinText config hare (cutsTo_lines source hlines)) rfl 0

/-! ## Tokens up to layout -/

/-- The kind and text of every token that is not a blank run. -/
def layoutFree (tokens : List Token) : List (TokenKind × String) :=
  Lexer.dropBlanks (tokens.map fun t => (t.kind, t.text))

/-- Lexemes of one kind with the same text, up to ASCII case for keywords and
type names. -/
def SameUpToCase (a b : TokenKind × String) : Prop :=
  a.1 = b.1 ∧
    if (a.1.isKeyword || a.1.isType) = true then
      a.2.toList.map Char.toLower = b.2.toList.map Char.toLower
    else a.2 = b.2

instance : DecidableRel SameUpToCase := fun a b =>
  inferInstanceAs (Decidable (a.1 = b.1 ∧ if (a.1.isKeyword || a.1.isType) = true then
    a.2.toList.map Char.toLower = b.2.toList.map Char.toLower else a.2 = b.2))

theorem sameUpToCase_refl (a : TokenKind × String) : SameUpToCase a a := by
  refine ⟨rfl, ?_⟩
  split <;> rfl

/-- A recased token is its token up to case. -/
theorem sameUpToCase_recased (config : WorkspaceConfig) (t : Token) :
    SameUpToCase (t.kind, recased config t) (t.kind, t.text) := by
  refine ⟨rfl, ?_⟩
  dsimp only
  unfold recased
  split
  · exact KeywordStyle.toLower_apply _ _
  · rfl

/-- Line breaks up to case are the same line breaks, so joining them keeps
them so. -/
theorem sameUpToCase_join (a a' b b' : String)
    (h : SameUpToCase (.newline, a) (.newline, b)) (h' : SameUpToCase (.newline, a') (.newline, b')) :
    SameUpToCase (.newline, a ++ a') (.newline, b ++ b') := by
  have hnl : (TokenKind.newline.isKeyword || TokenKind.newline.isType) = false := rfl
  simp only [SameUpToCase, hnl, Bool.false_eq_true, if_false, true_and] at h h' ⊢
  rw [h, h']

/-- A blank run and what a formatted line keeps of the lexemes of a line,
blanks dropped, are its kept tokens, recased. -/
theorem dropBlanks_lineLexemes (config : WorkspaceConfig) (line : List (Token × Nat)) :
    Lexer.dropBlanks ((lineLexemes config line).map fun l => (l.1, String.ofList l.2)) =
      Lexer.dropBlanks ((kept line).map fun x => (x.1.kind, recased config x.1)) := by
  unfold lineLexemes
  rw [List.map_append, Lexer.dropBlanks_append]
  have hind : Lexer.dropBlanks (((if indentChars config line = [] then []
      else [(TokenKind.whitespace, indentChars config line)]) : List (TokenKind × List Char)).map
        fun l => (l.1, String.ofList l.2)) = [] := by
    split_ifs <;> rfl
  rw [hind, List.nil_append, List.map_map]
  simp [Function.comp_def]

/-- The lexemes of a line, blanks dropped, are those of its kept tokens. -/
theorem dropBlanks_lexemesOf (line : List (Token × Nat)) :
    Lexer.dropBlanks ((lexemesOf line).map fun l => (l.1, String.ofList l.2)) =
      Lexer.dropBlanks ((kept line).map fun x => (x.1.kind, x.1.text)) := by
  have hblank : ∀ part : List (Token × Nat), (∀ x ∈ part, x.1.kind = .whitespace) →
      Lexer.dropBlanks ((lexemesOf part).map fun l => (l.1, String.ofList l.2)) = [] := by
    intro part hpart
    rw [Lexer.dropBlanks, List.filter_eq_nil_iff]
    intro l hl
    simp only [lexemesOf, List.map_map, List.mem_map, Function.comp_def] at hl
    obtain ⟨x, hx, rfl⟩ := hl
    simp [hpart x hx]
  conv_lhs => rw [← indentPart_append_afterIndent line, ← kept_append_trailPart line]
  rw [lexemesOf_append, lexemesOf_append, List.map_append, List.map_append,
    Lexer.dropBlanks_append, Lexer.dropBlanks_append, hblank _ (indentPart_blank line),
    hblank (trailPart (afterIndent line)) ?_, List.nil_append, List.append_nil]
  · simp [lexemesOf, Function.comp_def]
  · intro x hx
    rcases trailPart_cases (afterIndent line) with ⟨ht, -⟩ | ⟨y, ht, hy⟩
    · simp [ht] at hx
    · rw [ht, List.mem_singleton] at hx
      rwa [hx]

/-- A formatted line and its line, blanks dropped, are the same tokens up to
case. -/
theorem sameUpToCase_line (config : WorkspaceConfig) (line : List (Token × Nat)) :
    List.Forall₂ SameUpToCase
      (Lexer.dropBlanks ((lineLexemes config line).map fun l => (l.1, String.ofList l.2)))
      (Lexer.dropBlanks ((lexemesOf line).map fun l => (l.1, String.ofList l.2))) := by
  rw [dropBlanks_lineLexemes, dropBlanks_lexemesOf, Lexer.dropBlanks, Lexer.dropBlanks,
    List.filter_map, List.filter_map]
  exact List.forall₂_map_left_iff.2 (List.forall₂_map_right_iff.2
    (List.forall₂_same.2 fun x _ => sameUpToCase_recased config x.1))

/-- The formatted lines and the lines, blanks dropped, are the same tokens up
to case. -/
theorem sameUpToCase_unmerged (config : WorkspaceConfig)
    {ls : List (List (Token × Nat) × (Token × Nat))} {last : List (Token × Nat)}
    (hare : AreLines ls last) :
    List.Forall₂ SameUpToCase
      (Lexer.dropBlanks ((unmerged config ls last).map fun l => (l.1, String.ofList l.2)))
      (Lexer.dropBlanks ((lexemesOf (joinLines ls last)).map fun l => (l.1, String.ofList l.2))) := by
  induction ls with
  | nil => simpa using sameUpToCase_line config last
  | cons l ls ih =>
    have hbreak := (hare.1 l (by simp)).2
    rw [unmerged_cons, joinLines_cons, lexemesOf_append, lexemesOf_cons, List.map_append,
      List.map_append, List.map_cons, List.map_cons, Lexer.dropBlanks_append,
      Lexer.dropBlanks_append, Lexer.dropBlanks_cons_of_ne (by simp),
      Lexer.dropBlanks_cons_of_ne (by simp [hbreak]), hbreak]
    exact List.rel_append (sameUpToCase_line config l.1)
      (.cons (sameUpToCase_refl _) (ih hare.tail))

/-! ## Blanks are settled in a formatted text -/

/-- In a formatted line, a blank run is followed by neither a blank run nor a
line break, and none comes last. -/
theorem settled_lineLexemes (config : WorkspaceConfig) {line : List (Token × Nat)}
    (hapart : BlanksApart line) (hnl : ∀ x ∈ line, x.1.kind ≠ .newline) :
    Lexer.BlanksSettled (lineLexemes config line) ∧
      ∀ l ∈ (lineLexemes config line).getLast?, l.1 ≠ .whitespace := by
  have hsub : kept line <:+: line := ⟨indentPart line, trailPart (afterIndent line), by
    rw [List.append_assoc, kept_append_trailPart, indentPart_append_afterIndent]⟩
  have hkept : (kept line).IsChain fun x y => x.1.kind = .whitespace →
      y.1.kind ≠ .whitespace ∧ y.1.kind ≠ .newline :=
    (hapart.of_sub hsub).imp_of_mem_imp fun a b _ hb hab ha =>
      ⟨hab ha, hnl b (mem_of_mem_kept hb)⟩
  have hchain : Lexer.BlanksSettled ((kept line).map fun x =>
      (x.1.kind, (recased config x.1).toList)) := by
    rw [Lexer.BlanksSettled, List.isChain_map]
    exact hkept
  have hlast : ∀ l ∈ ((kept line).map fun x =>
      (x.1.kind, (recased config x.1).toList)).getLast?, l.1 ≠ .whitespace := by
    intro l hl
    rw [List.getLast?_map] at hl
    obtain ⟨x, hx, rfl⟩ := Option.mem_map.1 hl
    exact kept_last hapart x hx
  unfold lineLexemes
  split_ifs with hind
  · rw [List.nil_append]
    exact ⟨hchain, hlast⟩
  · -- the indentation stands in front of the first kept token, which is neither
    obtain ⟨y, ys, hys, hyw⟩ := kept_head hapart (afterIndent_ne_nil hind)
    have hyn := hnl y (mem_of_mem_kept (by simp [hys]))
    refine ⟨List.isChain_append.2 ⟨.singleton _, hchain, ?_⟩, ?_⟩
    · intro a ha b hb _
      simp only [hys, List.map_cons, List.head?_cons, Option.mem_def, Option.some.injEq] at hb
      subst hb
      exact ⟨hyw, hyn⟩
    · have hne' : ((kept line).map fun x => (x.1.kind, (recased config x.1).toList)) ≠ [] := by
        simp [hys]
      rw [List.getLast?_append_of_ne_nil _ hne']
      exact hlast

/-- In the formatted text, before line breaks are merged, a blank run is
followed by neither a blank run nor a line break. -/
theorem settled_unmerged (config : WorkspaceConfig) {ls : List (List (Token × Nat) × (Token × Nat))}
    {last : List (Token × Nat)} (hare : AreLines ls last) (hapart : BlanksApart (joinLines ls last)) :
    Lexer.BlanksSettled (unmerged config ls last) := by
  induction ls with
  | nil => simpa using (settled_lineLexemes config (by simpa using hapart) hare.2).1
  | cons l ls ih =>
    rw [joinLines_cons] at hapart
    have hline : BlanksApart l.1 := hapart.of_sub (List.infix_append [] l.1 _)
    have hrest : BlanksApart (joinLines ls last) :=
      hapart.of_sub (List.IsSuffix.isInfix ⟨l.1 ++ [l.2], by simp⟩)
    obtain ⟨hsettled, hlast⟩ := settled_lineLexemes config hline (hare.1 l (by simp)).1
    rw [unmerged_cons, Lexer.BlanksSettled, List.isChain_append]
    refine ⟨hsettled, (ih hare.tail hrest).cons fun y _ hnl => ?_, ?_⟩
    · simp at hnl
    · intro a ha b _ haw
      exact absurd haw (hlast a ha)

/-- The formatted text, blank runs dropped, is the text with blank runs
dropped and the line-break runs that then meet merged, up to the case of
keywords and type names. -/
theorem layoutFree_formatSource (source : String) (config : WorkspaceConfig)
    {ls : List (List (Token × Nat) × (Token × Nat))} {last : List (Token × Nat)}
    (hlines : (leavesWithDepth (parseScript source fun _ => false).root 0).filter
      (fun x => x.1.kind != .eof) = joinLines ls last)
    (hare : AreLines ls last) :
    List.Forall₂ SameUpToCase (layoutFree (lex (formatSource source config)))
      (Lexer.mergeBreaks (layoutFree (lex source))) := by
  have hcut := cutsTo_lines source hlines
  have hsettled : Lexer.BlanksSettled ((unmerged config ls last).map
      fun l => (l.1, String.ofList l.2)) := by
    rw [Lexer.BlanksSettled, List.isChain_map]
    exact settled_unmerged config hare (blanksApart_of_cutsTo hcut)
  -- the text's tokens are its lines' lexemes and the end of input
  have hsource : (lex source).map (fun t => (t.kind, t.text)) =
      (lexemesOf (joinLines ls last)).map (fun l => (l.1, String.ofList l.2)) ++ [(.eof, "")] := by
    obtain ⟨body, hlex, -⟩ := lex_eq_append_eof source
    have htokens := tokens_parseScript source
    rw [hlines, hlex, List.dropLast_concat] at htokens
    rw [hlex, ← htokens]
    simp [lexemesOf]
  have heof : Lexer.dropBlanks [((TokenKind.eof, "") : TokenKind × String)] = [(.eof, "")] := rfl
  unfold layoutFree
  rw [lex_formatSource source config hlines hare, hsource, Lexer.dropBlanks_append,
    Lexer.dropBlanks_append, heof, Lexer.mergeBreaks_concat_of_ne (by simp),
    Lexer.map_mergeBreaks String.ofList (fun a b => String.ofList_append),
    Lexer.dropBlanks_mergeBreaks hsettled]
  exact List.rel_append (Lexer.forall₂_mergeBreaks (sameUpToCase_unmerged config hare)
    (fun _ _ h => h.1) sameUpToCase_join) (.cons (sameUpToCase_refl _) .nil)

end Format

/-- Formatting changes only layout and keyword case: the edits that format a
parsed text are in order, do not overlap and lie within the text, so all of
them are applied; and lexing the formatted text gives the tokens of the text,
token for token, once blank runs are dropped from both and the line-break
runs of the text that then meet are merged, their texts joined, with every
text the same except that keywords and type names may differ in ASCII case. -/
theorem formatTree_changes_only_layout (source : String) (config : WorkspaceConfig) :
    ((formatTree (parseScript source fun _ => false).root config).Pairwise fun e f =>
        e.span.stop ≤ f.span.start) ∧
      (∀ e ∈ formatTree (parseScript source fun _ => false).root config,
        e.span.start ≤ e.span.stop ∧ e.span.stop ≤ source.utf8ByteSize) ∧
      Text.appliedEdits source.utf8ByteSize (formatTree (parseScript source fun _ => false).root config) =
        formatTree (parseScript source fun _ => false).root config ∧
      List.Forall₂ Format.SameUpToCase (Format.layoutFree (lex (formatSource source config)))
        (Lexer.mergeBreaks (Format.layoutFree (lex source))) := by
  obtain ⟨ls, last, hlines, hare⟩ := Format.exists_lines
    ((Format.leavesWithDepth (parseScript source fun _ => false).root 0).filter
      fun x => x.1.kind != .eof)
  have hord := (formatSource_eq_join source config hlines hare).1
  refine ⟨hord.pairwise, fun e he => ⟨(hord.bounds e he).2.1, (hord.bounds e he).2.2⟩,
    Text.appliedEdits_of_inOrder hord, Format.layoutFree_formatSource source config hlines hare⟩

end GameScript
