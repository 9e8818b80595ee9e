import Mathlib
import GameScript.Proofs.References
/-!
# The token under the cursor

A cursor sits between two characters and the editor asks which token it is on
(`TokenIndex.tokenAtOrBefore`), or which identifier (`TokenIndex.identAt`).
This file says what the two lookups return on the index of any parsed text.

A significant token (neither trivia nor a line break) that `tokenAtOrBefore`
returns is one the cursor touches, or else it is found by looking back from a
token the cursor touches that is not significant: it is then the nearest
significant token before that one, and only blanks and comments lie between
them (`TokenIndex.ActsOn`). So the cursor at `x |` after `x` and a blank acts
on `x`, although it does not touch it; `identAt` returns an identifier only on
the same terms (`cursor_lookups_actOn`).

The lookups rest on two searches over the tokens in order: a binary search for
the first token that ends at or after an offset (`firstEndingFrom_brackets`),
and a walk back over the tokens before a token (`tokensBefore_eq`). Both are
proved against the index of a parsed text, whose tokens follow one another
and none of which is empty (`TokenIndex.Ordered`).
-/

set_option autoImplicit false

namespace GameScript

namespace TokenIndex

/-- The tokens of an index follow one another in order, and none is empty. -/
structure Ordered (idx : TokenIndex) : Prop where
  apart : idx.tokens.toList.Pairwise fun a b => a.1.stop ≤ b.1.start
  nonempty : ∀ t ∈ idx.tokens.toList, t.1.start < t.1.stop

/-- The index of a parsed text is ordered. -/
theorem ordered_parseScript (source : String) (isFunction : String → Bool) :
    (ofTree (parseScript source isFunction).root).Ordered := by
  obtain ⟨hpair, hne⟩ := parseScript_locatedTokens_spans source isFunction
  exact ⟨by simpa [ofTree] using List.pairwise_map.1 hpair, by simpa [ofTree] using hne⟩

section Ordered

variable {idx : TokenIndex} (ho : idx.Ordered)
include ho

/-- Two tokens of an ordered index are the same or one ends before the other
starts. -/
theorem Ordered.eq_or_apart {a b : Token × List SyntaxTree} (ha : a ∈ idx.tokens.toList)
    (hb : b ∈ idx.tokens.toList) : a = b ∨ a.1.stop ≤ b.1.start ∨ b.1.stop ≤ a.1.start := by
  obtain ⟨i, hi, rfl⟩ := List.mem_iff_getElem.1 ha
  obtain ⟨j, hj, rfl⟩ := List.mem_iff_getElem.1 hb
  rcases Nat.lt_trichotomy i j with hij | rfl | hij
  · exact .inr (.inl (List.pairwise_iff_getElem.1 ho.apart i j hi hj hij))
  · exact .inl rfl
  · exact .inr (.inr (List.pairwise_iff_getElem.1 ho.apart j i hj hi hij))

/-- Later tokens end later. -/
theorem Ordered.stop_lt {i j : Nat} (hij : i < j) (hj : j < idx.tokens.size) :
    idx.tokens[i].1.stop < idx.tokens[j].1.stop := by
  have hapart := List.pairwise_iff_getElem.1 ho.apart i j (by simp; omega) (by simpa using hj) hij
  have hne := ho.nonempty _ (List.getElem_mem (l := idx.tokens.toList) (by simpa using hj))
  simp only [Array.getElem_toList] at hapart hne
  omega

/-! ## The binary search -/

/-- What the search for the first token ending at or after `offset` keeps
between `lo` and `hi`: the tokens before `lo` end before the offset, those
from `hi` on end at or after it. -/
def Brackets (idx : TokenIndex) (offset lo hi : Nat) : Prop :=
  lo ≤ hi ∧ hi ≤ idx.tokens.size ∧
    (∀ i (h : i < idx.tokens.size), i < lo → idx.tokens[i].1.stop < offset) ∧
    (∀ i (h : i < idx.tokens.size), hi ≤ i → offset ≤ idx.tokens[i].1.stop)

omit ho in
/-- At the start of the search nothing is known. -/
theorem brackets_start (offset : Nat) : Brackets idx offset 0 idx.tokens.size :=
  ⟨Nat.zero_le _, le_refl _, fun _ _ h => absurd h (Nat.not_lt_zero _),
    fun _ hi hle => absurd hi (Nat.not_lt_of_le hle)⟩

/-- The search ends at the first token that ends at or after the offset. -/
theorem firstEndingFrom_brackets {offset lo hi : Nat} (h : Brackets idx offset lo hi) :
    Brackets idx offset (idx.firstEndingFrom offset lo hi) (idx.firstEndingFrom offset lo hi) := by
  fun_induction idx.firstEndingFrom offset lo hi with
  | case1 lo hi hlt mid t up hmid hle ih =>
    -- the middle token ends at or after the offset: the answer is at or before it
    obtain ⟨hlohi, hhi, hbelow, habove⟩ := h
    obtain ⟨hm, hmid⟩ := Array.getElem?_eq_some_iff.1 hmid
    have ht : idx.tokens[mid].1 = t := by rw [hmid]
    refine ih ⟨by omega, by omega, hbelow, fun i hi hmi => ?_⟩
    rcases Nat.lt_or_eq_of_le hmi with hmi | rfl
    · have := ho.stop_lt hmi hi
      rw [ht] at this
      omega
    · rw [ht]
      exact hle
  | case2 lo hi hlt mid t up hmid hlt' ih =>
    -- the middle token ends before the offset: so do all before it
    obtain ⟨hlohi, hhi, hbelow, habove⟩ := h
    obtain ⟨hm, hmid⟩ := Array.getElem?_eq_some_iff.1 hmid
    have ht : idx.tokens[mid].1 = t := by rw [hmid]
    refine ih ⟨by omega, hhi, fun i hi him => ?_, habove⟩
    rcases Nat.lt_or_ge i lo with hil | hil
    · exact hbelow i hi hil
    · rcases Nat.lt_or_eq_of_le (Nat.le_of_lt_succ him) with him | rfl
      · have := ho.stop_lt him hm
        rw [ht] at this
        omega
      · rw [ht]
        omega
  | case3 lo hi hlt mid hmid =>
    -- the middle lies within the tokens
    exact absurd hmid (by rw [Array.getElem?_eq_getElem (by obtain ⟨-, h2, -⟩ := h; omega)]; simp)
  | case4 lo hi hge =>
    obtain ⟨hlohi, hhi, hbelow, habove⟩ := h
    obtain rfl : lo = hi := by omega
    exact ⟨le_refl _, hhi, hbelow, habove⟩

/-- The first token that ends at or after an offset: those before it end
before the offset, it and those after it end at or after it. -/
theorem firstEndingFrom_spec (offset : Nat) :
    idx.firstEndingFrom offset 0 idx.tokens.size ≤ idx.tokens.size ∧
    (∀ i (h : i < idx.tokens.size), i < idx.firstEndingFrom offset 0 idx.tokens.size →
      idx.tokens[i].1.stop < offset) ∧
    (∀ i (h : i < idx.tokens.size), idx.firstEndingFrom offset 0 idx.tokens.size ≤ i →
      offset ≤ idx.tokens[i].1.stop) := by
  obtain ⟨-, hsize, hbelow, habove⟩ := firstEndingFrom_brackets ho (brackets_start offset)
  exact ⟨hsize, hbelow, habove⟩

/-! ## Looking back -/

/-- The tokens before a token of the index are those that start before it,
nearest first: the search for the first token ending where it ends stops at
it, and every token that starts before it ends before it does. -/
theorem tokensBefore_eq {t : Token × List SyntaxTree} (ht : t ∈ idx.tokens.toList) :
    idx.tokensBefore t.1 = (idx.tokens.toList.filter fun u => u.1.start < t.1.start).reverse := by
  obtain ⟨hsize, -, habove⟩ := firstEndingFrom_spec ho t.1.stop
  unfold tokensBefore
  generalize idx.firstEndingFrom t.1.stop 0 idx.tokens.size = i at hsize habove
  simp only [Array.toList_extract, List.extract_eq_take_drop, List.drop_zero, Nat.sub_zero,
    List.filter_reverse]
  congr 1
  -- the tokens from `i` on do not start before `t`
  conv_rhs => rw [← List.take_append_drop i idx.tokens.toList]
  rw [List.filter_append, List.self_eq_append_right, List.filter_eq_nil_iff]
  intro u hu
  obtain ⟨j, hj, rfl⟩ := List.mem_iff_getElem.1 hu
  have hij : i + j < idx.tokens.size := by simp at hj; omega
  have hle := habove (i + j) hij (by omega)
  simp only [List.getElem_drop, Array.getElem_toList]
  have hne := ho.nonempty t ht
  rcases ho.eq_or_apart (Array.getElem_mem_toList hij) ht with he | hap | hap
  · simp [he]
  all_goals
    simp only [decide_eq_true_eq, not_lt]
    omega

omit ho in
/-- Looking back over a list stops at its first significant token, past
blanks and comments only. -/
theorem previousSignificant_go_eq_some {l : List (Token × List SyntaxTree)}
    {u : Token × List SyntaxTree} (h : previousSignificant.go l = some u) :
    ∃ pre post, l = pre ++ u :: post ∧ (∀ w ∈ pre, w.1.kind.isTrivia = true) ∧
      isSignificant u.1 = true := by
  induction l with
  | nil => cases h
  | cons w l ih =>
    unfold previousSignificant.go at h
    by_cases hnl : w.1.kind.isNewline = true
    · rw [if_pos hnl] at h
      cases h
    rw [if_neg hnl] at h
    by_cases htr : w.1.kind.isTrivia = true
    · -- a blank or a comment is passed
      rw [if_neg (by simp [htr])] at h
      obtain ⟨pre, post, rfl, hpre, hu⟩ := ih h
      refine ⟨w :: pre, post, rfl, fun x hx => ?_, hu⟩
      rcases List.mem_cons.1 hx with rfl | hx
      · exact htr
      · exact hpre x hx
    · -- the first token that is neither is the answer
      rw [if_pos (by simpa using htr)] at h
      cases h
      exact ⟨[], l, rfl, by simp, by simp [isSignificant, htr, hnl]⟩

/-- Looking back from a token of the index finds a significant token that
ends before it, with only blanks and comments starting between the two. -/
theorem previousSignificant_eq_some {a u : Token × List SyntaxTree} (ha : a ∈ idx.tokens.toList)
    (h : idx.previousSignificant a.1 = some u) :
    u ∈ idx.tokens.toList ∧ isSignificant u.1 = true ∧ u.1.stop ≤ a.1.start ∧
      ∀ w ∈ idx.tokens.toList, u.1.start < w.1.start → w.1.start < a.1.start →
        w.1.kind.isTrivia = true := by
  unfold previousSignificant at h
  rw [tokensBefore_eq ho ha] at h
  obtain ⟨pre, post, hl, hpre, hu⟩ := previousSignificant_go_eq_some h
  -- in text order the tokens before `a` are those of `post`, then `u`, then those of `pre`
  have hbefore : idx.tokens.toList.filter (fun w => w.1.start < a.1.start) =
      post.reverse ++ u :: pre.reverse := by
    rw [← List.reverse_reverse (List.filter _ _), hl]
    simp
  have hmem : ∀ {w}, w ∈ idx.tokens.toList.filter (fun w => w.1.start < a.1.start) →
      w ∈ idx.tokens.toList ∧ w.1.start < a.1.start := fun hw => by simpa using hw
  have hu_in : u ∈ idx.tokens.toList.filter (fun w => w.1.start < a.1.start) := by
    rw [hbefore]
    simp
  obtain ⟨hut, hua⟩ := hmem hu_in
  refine ⟨hut, hu, ?_, fun w hw huw hwa => ?_⟩
  · rcases ho.eq_or_apart hut ha with rfl | hap | hap
    · omega
    · exact hap
    · have := ho.nonempty a ha
      omega
  · -- `w` starts between `u` and `a`, so it is one of `pre`
    have hw' : w ∈ post.reverse ++ u :: pre.reverse := by
      rw [← hbefore]
      exact List.mem_filter.2 ⟨hw, by simpa using hwa⟩
    have hpair : (post.reverse ++ u :: pre.reverse).Pairwise fun x y => x.1.stop ≤ y.1.start := by
      rw [← hbefore]
      exact ho.apart.sublist List.filter_sublist
    rcases List.mem_append.1 hw' with hw' | hw'
    · -- a token of `post` ends before `u` starts
      have := (List.pairwise_append.1 hpair).2.2 w hw' u List.mem_cons_self
      have := ho.nonempty w hw
      omega
    · rcases List.mem_cons.1 hw' with rfl | hw'
      · omega
      · exact hpre w (List.mem_reverse.1 hw')

/-! ## The tokens at the cursor -/

/-- A token of the index that the cursor at `offset` touches: it starts at or
before the offset and ends at or after it. -/
def Touches (idx : TokenIndex) (offset : Nat) (t : Token × List SyntaxTree) : Prop :=
  t ∈ idx.tokens.toList ∧ t.1.start ≤ offset ∧ offset ≤ t.1.stop

omit ho in
/-- A token the lookup near the offset keeps touches the cursor. -/
theorem touches_of_mem_near {offset i j : Nat} {t : Token × List SyntaxTree}
    (h : t ∈ (idx.tokens.extract i j).toList.filter fun (t, _) =>
      t.start < t.stop && t.start ≤ offset && offset ≤ t.stop) :
    idx.Touches offset t := by
  obtain ⟨hx, hp⟩ := List.mem_filter.1 h
  simp only [Array.toList_extract, List.extract_eq_take_drop] at hx
  obtain ⟨t, up⟩ := t
  simp only [Bool.and_eq_true, decide_eq_true_eq] at hp
  exact ⟨List.mem_of_mem_drop (List.mem_of_mem_take hx), hp.1.2, hp.2⟩

omit ho in
/-- A single token at the offset touches it. -/
theorem touches_of_atOffset_single {offset : Nat} {t : Token × List SyntaxTree}
    (h : idx.atOffset offset = .single t) : idx.Touches offset t := by
  unfold atOffset at h
  dsimp only at h
  split at h
  · rename_i near hnear
    cases h
    exact touches_of_mem_near (by rw [hnear]; exact List.mem_singleton_self _)
  · cases h
  · cases h

omit ho in
/-- Two tokens at the offset both touch it. -/
theorem touches_of_atOffset_between {offset : Nat} {l r : Token × List SyntaxTree}
    (h : idx.atOffset offset = .between l r) : idx.Touches offset l ∧ idx.Touches offset r := by
  unfold atOffset at h
  dsimp only at h
  split at h
  · cases h
  · rename_i l' r' rest hnear
    cases h
    exact ⟨touches_of_mem_near (by rw [hnear]; simp), touches_of_mem_near (by rw [hnear]; simp)⟩
  · cases h

/-! ## What the lookups return -/

/-- The token a cursor at `offset` acts on: one it touches, or else the
nearest significant token before a token it touches that is not significant,
with only blanks and comments starting between the two. -/
def ActsOn (idx : TokenIndex) (offset : Nat) (t : Token × List SyntaxTree) : Prop :=
  idx.Touches offset t ∨
    t ∈ idx.tokens.toList ∧ ∃ a, idx.Touches offset a ∧ isSignificant a.1 = false ∧
      t.1.stop ≤ a.1.start ∧ ∀ w ∈ idx.tokens.toList, t.1.start < w.1.start →
        w.1.start < a.1.start → w.1.kind.isTrivia = true

/-- Looking back from a token the cursor touches that is not significant, and
keeping that token when there is nothing to find, gives a token the cursor
acts on whenever it gives a significant one. -/
theorem actsOn_of_lookBack {offset : Nat} {a t : Token × List SyntaxTree}
    (ha : idx.Touches offset a) (hna : isSignificant a.1 = false)
    (h : (idx.previousSignificant a.1).orElse (fun _ => some a) = some t)
    (hs : isSignificant t.1 = true) : idx.ActsOn offset t := by
  cases hp : idx.previousSignificant a.1 with
  | none =>
    -- nothing found: the answer is `a` itself, which is not significant
    rw [hp] at h
    cases h
    exact absurd hs (by simp [hna])
  | some u =>
    rw [hp] at h
    cases h
    obtain ⟨ht, -, hstop, hbetween⟩ := previousSignificant_eq_some ho ha.1 hp
    exact .inr ⟨ht, a, ha, hna, hstop, hbetween⟩

/-- A significant token at or before the cursor is one it acts on. -/
theorem tokenAtOrBefore_actsOn {offset : Nat} {t : Token × List SyntaxTree}
    (h : idx.tokenAtOrBefore offset = some t) (hs : isSignificant t.1 = true) :
    idx.ActsOn offset t := by
  unfold tokenAtOrBefore at h
  split at h
  · cases h
  split at h
  · cases h
  · -- one token at the cursor: itself if significant, else look back from it
    rename_i a hat
    have ha := touches_of_atOffset_single hat
    split at h
    · cases h
      exact .inl ha
    · rename_i hna
      exact actsOn_of_lookBack ho ha (by simpa using hna) h hs
  · -- two tokens at the cursor: the left if significant, then the right, else
    -- look back from the left
    rename_i l r hat
    obtain ⟨hl, hr⟩ := touches_of_atOffset_between hat
    split at h
    · cases h
      exact .inl hl
    split at h
    · cases h
      exact .inl hr
    · rename_i hnl _
      exact actsOn_of_lookBack ho hl (by simpa using hnl) h hs

/-- The identifier at the cursor is one it acts on. -/
theorem identAt_actsOn {offset : Nat} {t : Token × List SyntaxTree} (h : idx.identAt offset = some t) :
    t.1.kind = .ident ∧ idx.ActsOn offset t := by
  unfold identAt at h
  split at h
  · cases h
  split at h
  · -- between two tokens: the one after the cursor first
    rename_i l r hat
    obtain ⟨hl, hr⟩ := touches_of_atOffset_between hat
    split at h
    · rename_i hk
      cases h
      exact ⟨by simpa using hk, .inl hr⟩
    split at h
    · rename_i hk
      cases h
      exact ⟨by simpa using hk, .inl hl⟩
    · cases h
  · -- otherwise the token at or before the cursor, if an identifier
    obtain ⟨hat, hk⟩ := Option.filter_eq_some_iff.1 h
    have hk : t.1.kind = .ident := by simpa using hk
    exact ⟨hk, tokenAtOrBefore_actsOn ho hat (by rw [isSignificant, hk]; rfl)⟩

end Ordered

/-- **What the cursor lookups return.** On the index of every parsed text, a
significant token at or before a cursor, and an identifier at a cursor, is a
token the cursor touches, or the nearest significant token before a token it
touches that is not significant, with only blanks and comments between. -/
theorem cursor_lookups_actOn (source : String) (isFunction : String → Bool) (offset : Nat)
    (t : Token × List SyntaxTree) :
    ((ofTree (parseScript source isFunction).root).tokenAtOrBefore offset = some t →
        isSignificant t.1 = true → (ofTree (parseScript source isFunction).root).ActsOn offset t) ∧
      ((ofTree (parseScript source isFunction).root).identAt offset = some t →
        t.1.kind = .ident ∧ (ofTree (parseScript source isFunction).root).ActsOn offset t) :=
  ⟨fun h hs => tokenAtOrBefore_actsOn (ordered_parseScript source isFunction) h hs,
    fun h => identAt_actsOn (ordered_parseScript source isFunction) h⟩

end TokenIndex

/-- In every database an editing session reaches, the identifier that going to
a definition, hovering, finding references and renaming start from is one the
cursor acts on in its file's index. -/
theorem Editor.definitionAt?_actsOn (c : Catalog) (ops : List Database.Op) {file : FileId}
    {offset : Nat} {t : Token × List SyntaxTree} {d : Definition}
    (h : Editor.definitionAt? ((Database.ofCatalog c).run ops) file offset = some (t, d)) :
    ∃ f, ((Database.ofCatalog c).run ops).file? file = some f ∧ t.1.kind = .ident ∧
      f.index.ActsOn offset t := by
  have hc := Database.coherent_run c ops
  simp only [Editor.definitionAt?, Editor.index?, Option.bind_eq_bind, Option.bind_eq_some_iff,
    Option.map_eq_some_iff] at h
  obtain ⟨idx, ⟨f, hf, rfl⟩, u, hu, d', -, he⟩ := h
  obtain ⟨rfl, -⟩ : u = t ∧ d' = d := by simpa using he
  -- the file's index is the index of its parsed text
  have hmem := (Database.file?_eq_some_iff hc.sorted file f).1 hf
  have hindex : f.index = TokenIndex.ofTree (parseScript f.text c.isFunction).root := by
    rw [(Database.indexed_run c ops).index _ hmem, (hc.parsed _ hmem).1]
  refine ⟨f, hf, ?_⟩
  rw [hindex] at hu ⊢
  exact TokenIndex.identAt_actsOn (TokenIndex.ordered_parseScript _ _) hu


/-! ## A cursor past a blank -/

/-- The tree of `x` and two blanks: an expression statement naming `x`, then
the blanks. -/
def blankAfterName : SyntaxTree :=
  .node .script 0 3 [.node .exprStmt 0 1 [.node .nameRef 0 1 [.token ⟨.ident, 0, "x"⟩]],
    .token ⟨.whitespace, 1, "  "⟩]

theorem parseScript_blankAfterName : (parseScript "x  " fun _ => false).root = blankAfterName := by
  have hlex : lex "x  " = [⟨.ident, 0, "x"⟩, ⟨.whitespace, 1, "  "⟩, ⟨.eof, 3, ""⟩] := by
    decide +kernel
  have hbare : (Grammar.script (Grammar.fuelFor (Lexeme.ofTokens
      [⟨.ident, 0, "x"⟩, ⟨.whitespace, 1, "  "⟩, ⟨.eof, 3, ""⟩] fun _ => false).length)
      { rest := (Lexeme.ofTokens [⟨.ident, 0, "x"⟩, ⟨.whitespace, 1, "  "⟩, ⟨.eof, 3, ""⟩]
        fun _ => false) }).1 = .node .script [.node .exprStmt [.node .nameRef [.token .ident]]] := by
    decide +kernel
  -- attaching the blanks is unfolded, not evaluated by the kernel
  have hatt : (BareTree.node .script [.node .exprStmt [.node .nameRef [.token .ident]]]).attach
      [⟨.ident, 0, "x"⟩, ⟨.whitespace, 1, "  "⟩, ⟨.eof, 3, ""⟩] = blankAfterName := by
    simp only [BareTree.attach, Attach.node, Attach.elements]
    rfl
  simp only [parseScript, hlex]
  rw [hbare, hatt]

/-- In `x` and two blanks, the cursor between the blanks touches only the
blanks, yet the lookup returns `x`, a significant token that ends before it. -/
theorem tokenAtOrBefore_past_blank :
    ∃ t, (TokenIndex.ofTree (parseScript "x  " fun _ => false).root).tokenAtOrBefore 2 = some t ∧
      TokenIndex.isSignificant t.1 = true ∧ t.1.stop < 2 := by
  have h : ((TokenIndex.ofTree blankAfterName).tokenAtOrBefore 2).map (·.1) = some ⟨.ident, 0, "x"⟩ := by
    decide +kernel
  obtain ⟨t, ht, hx⟩ := Option.map_eq_some_iff.1 h
  rw [parseScript_blankAfterName]
  exact ⟨t, ht, by rw [hx]; rfl, by rw [hx]; decide⟩

/-- In `x` and two blanks, the cursor between the blanks acts on `x`, which
both lookups return. -/
theorem cursor_lookups_actOn_blank :
    ∃ t u, (TokenIndex.ofTree (parseScript "x  " fun _ => false).root).tokenAtOrBefore 2 = some t ∧
      TokenIndex.isSignificant t.1 = true ∧
      (TokenIndex.ofTree (parseScript "x  " fun _ => false).root).ActsOn 2 t ∧
      (TokenIndex.ofTree (parseScript "x  " fun _ => false).root).identAt 2 = some u ∧
      (TokenIndex.ofTree (parseScript "x  " fun _ => false).root).ActsOn 2 u ∧
      t.1 = ⟨.ident, 0, "x"⟩ ∧ u.1 = ⟨.ident, 0, "x"⟩ := by
  have ht : ((TokenIndex.ofTree blankAfterName).tokenAtOrBefore 2).map (·.1) = some ⟨.ident, 0, "x"⟩ := by
    decide +kernel
  have hu : ((TokenIndex.ofTree blankAfterName).identAt 2).map (·.1) = some ⟨.ident, 0, "x"⟩ := by
    decide +kernel
  obtain ⟨t, ht, htx⟩ := Option.map_eq_some_iff.1 ht
  obtain ⟨u, hu, hux⟩ := Option.map_eq_some_iff.1 hu
  have hs : TokenIndex.isSignificant t.1 = true := by rw [htx]; rfl
  rw [← parseScript_blankAfterName] at ht hu
  have hact := (TokenIndex.cursor_lookups_actOn "x  " (fun _ => false) 2 t).1 ht hs
  have hident := (TokenIndex.cursor_lookups_actOn "x  " (fun _ => false) 2 u).2 hu
  exact ⟨t, u, ht, hs, hact, hu, hident.2, htx, hux⟩

end GameScript
