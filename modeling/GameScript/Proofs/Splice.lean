import Mathlib
import GameScript.Proofs.Lexer
import GameScript.Text.Edit
/-!
# Applying edits that keep to token boundaries

`Text.applyEdits` skips an edit that starts before the end of the one applied
before it or ends past the text, and keeps the characters around the others
by their byte offsets. This file says when nothing is skipped and what the
characters become.

* `Text.InOrder p es q`: the edits follow one another from offset `p` to `q`,
  none reversed. Edits in order within the text are all applied
  (`appliedEdits_of_inOrder`), and they do not overlap (`InOrder.pairwise`).
* `Token.Tiles p ts q`: tokens that follow one another with no gap from `p`
  to `q`, as the tokens of `lex` do (`tiles_lex`). The characters of tiling
  tokens, with their offsets, are those of each token in turn
  (`Tiles.withOffsets_go`).
* Splicing is local: characters before an offset take the edits before it and
  characters after it the edits after it (`splice_append`). Over one token, an
  edit that covers it replaces it (`splice_replace`) and an empty edit at its
  start inserts in front of it (`splice_insert`).
-/

set_option autoImplicit false

namespace GameScript

namespace Text

/-! ## Edits in order -/

/-- Edits that follow one another from the offset `p` to `q`: each starts at
or after the end of the one before (the first at or after `p`), none is
reversed, and the last ends at or before `q`. -/
inductive InOrder : Nat → List TextEdit → Nat → Prop
  | nil {p q : Nat} : p ≤ q → InOrder p [] q
  | cons {p q : Nat} {e : TextEdit} {es : List TextEdit} :
      p ≤ e.span.start → e.span.start ≤ e.span.stop → InOrder e.span.stop es q →
      InOrder p (e :: es) q

namespace InOrder

variable {p q r : Nat} {es fs : List TextEdit}

theorem le (h : InOrder p es q) : p ≤ q := by
  induction h with
  | nil hpq => exact hpq
  | cons hs hse _ ih => omega

theorem mono_left {p' : Nat} (hp : p' ≤ p) (h : InOrder p es q) : InOrder p' es q := by
  cases h with
  | nil hpq => exact nil (by omega)
  | cons hs hse hrest => exact cons (by omega) hse hrest

theorem append (h1 : InOrder p es q) (h2 : InOrder q fs r) : InOrder p (es ++ fs) r := by
  induction h1 with
  | nil hpq => exact h2.mono_left hpq
  | cons hs hse _ ih => exact cons hs hse (ih h2)

/-- Every edit lies between the two ends, the right way round. -/
theorem bounds (h : InOrder p es q) :
    ∀ e ∈ es, p ≤ e.span.start ∧ e.span.start ≤ e.span.stop ∧ e.span.stop ≤ q := by
  induction h with
  | nil => simp
  | cons hs hse hrest ih =>
    intro e he
    rcases List.mem_cons.1 he with rfl | he
    · exact ⟨hs, hse, hrest.le⟩
    · have := ih e he
      omega

/-- Edits in order do not overlap: each ends before any later one starts. -/
theorem pairwise (h : InOrder p es q) : es.Pairwise fun e f => e.span.stop ≤ f.span.start := by
  induction h with
  | nil => exact List.Pairwise.nil
  | cons _ _ hrest ih => exact List.Pairwise.cons (fun f hf => (hrest.bounds f hf).1) ih

end InOrder

/-- The loop of `appliedEdits`, run over edits in order within the text from
an offset at or before the first, takes every one. -/
theorem foldl_applied_of_inOrder {len p last : Nat} {es : List TextEdit} (h : InOrder p es len)
    (hl : last ≤ p) (acc : List TextEdit) :
    (es.foldl (fun (acc : List TextEdit × Nat) e =>
      if e.span.start < acc.2 || e.span.stop > len then acc else (e :: acc.1, e.span.stop))
      (acc, last)).1 = es.reverse ++ acc := by
  induction h generalizing acc last with
  | nil => simp
  | cons hs hse hrest ih =>
    have hstop := hrest.le
    rw [List.foldl_cons, if_neg (by simp only [Bool.or_eq_true, decide_eq_true_eq]; omega),
      ih le_rfl]
    simp

/-- Edits in order within the text are all applied. -/
theorem appliedEdits_of_inOrder {len : Nat} {es : List TextEdit} (h : InOrder 0 es len) :
    appliedEdits len es = es := by
  unfold appliedEdits
  rw [foldl_applied_of_inOrder h le_rfl]
  simp

/-! ## Characters and their offsets -/

theorem withOffsets_go_append (a b : List Char) (p : Nat) :
    withOffsets.go (a ++ b) p = withOffsets.go a p ++ withOffsets.go b (p + String.utf8Len a) := by
  induction a generalizing p with
  | nil => simp [withOffsets.go]
  | cons c a ih =>
    simp only [List.cons_append, withOffsets.go, ih, String.utf8Len_cons]
    congr 3
    omega

@[simp] theorem map_fst_withOffsets_go (a : List Char) (p : Nat) :
    (withOffsets.go a p).map (·.1) = a := by
  induction a generalizing p with
  | nil => rfl
  | cons c a ih => simp [withOffsets.go, ih]

/-- The offsets of a run of characters lie within its bytes. -/
theorem withOffsets_go_bounds (a : List Char) (p : Nat) :
    ∀ x ∈ withOffsets.go a p, p ≤ x.2 ∧ x.2 < p + String.utf8Len a := by
  induction a generalizing p with
  | nil => simp [withOffsets.go]
  | cons c a ih =>
    have hc := Char.utf8Size_pos c
    intro x hx
    simp only [withOffsets.go, List.mem_cons] at hx
    rcases hx with rfl | hx
    · simp only [String.utf8Len_cons]
      omega
    · have := ih (p + c.utf8Size) x hx
      simp only [String.utf8Len_cons]
      omega

/-! ## Splicing is local -/

theorem takeWhile_append_of_head {α : Type} {P : α → Bool} {A B : List α}
    (h : ∀ x ∈ B.head?, P x = false) : (A ++ B).takeWhile P = A.takeWhile P := by
  rw [List.takeWhile_append]
  split
  · rename_i hlen
    have hA : A.takeWhile P = A := (List.takeWhile_prefix P).eq_of_length hlen
    cases B with
    | nil => simp [hA]
    | cons b B => simp [h b rfl, hA]
  · rfl

theorem dropWhile_append_of_head {α : Type} {P : α → Bool} {A B : List α}
    (h : ∀ x ∈ B.head?, P x = false) : (A ++ B).dropWhile P = A.dropWhile P ++ B := by
  rw [List.dropWhile_append]
  split
  · rename_i hempty
    rw [List.isEmpty_iff.1 hempty, List.nil_append]
    cases B with
    | nil => rfl
    | cons b B => simp [h b rfl]
  · rfl

/-- Characters before the offset `p` take the edits that end by `p`, those
after it the edits that start after it. -/
theorem splice_append {A B : List (Char × Nat)} {es fs : List TextEdit} {p : Nat}
    (hA : ∀ x ∈ A, x.2 < p) (hB : ∀ x ∈ B, p ≤ x.2)
    (hes : ∀ e ∈ es, e.span.stop ≤ p ∧ e.span.start ≤ e.span.stop)
    (hfs : ∀ f ∈ fs, p ≤ f.span.start) :
    splice (A ++ B) (es ++ fs) = splice A es ++ splice B fs := by
  -- no character after `p` falls below a bound at or before `p`
  have hnot : ∀ {b : Nat}, b ≤ p → ∀ x ∈ B.head?, decide (x.2 < b) = false := by
    intro b hb x hx
    have := hB x (List.mem_of_mem_head? hx)
    simp only [decide_eq_false_iff_not, Nat.not_lt]
    omega
  induction es generalizing A with
  | nil =>
    cases fs with
    | nil => simp [splice]
    | cons f fs =>
      have hf := hfs f (by simp)
      have hall : ∀ x ∈ A, decide (x.2 < f.span.start) = true := by
        intro x hx
        have := hA x hx
        simp only [decide_eq_true_eq]
        omega
      simp only [List.nil_append, splice, List.takeWhile_append_of_pos hall,
        List.dropWhile_append_of_pos hall, List.map_append, List.append_assoc]
  | cons e es ih =>
    obtain ⟨hstop, hse⟩ := hes e (by simp)
    have hrest : ∀ x ∈ (A.dropWhile (·.2 < e.span.start)).dropWhile (·.2 < e.span.stop), x.2 < p :=
      fun x hx => hA x ((List.dropWhile_sublist _).subset ((List.dropWhile_sublist _).subset hx))
    have hB1 := hnot (b := e.span.start) (by omega)
    have hB2 := hnot (b := e.span.stop) hstop
    simp only [List.cons_append, splice, takeWhile_append_of_head hB1,
      dropWhile_append_of_head hB1, dropWhile_append_of_head hB2,
      ih hrest (fun e he => hes e (by simp [he])), List.append_assoc]

/-- An empty edit at or before every offset inserts its text in front. -/
theorem splice_insert {cs : List (Char × Nat)} {p : Nat} (h : ∀ x ∈ cs, p ≤ x.2) (s : String)
    (es : List TextEdit) : splice cs (⟨⟨p, p⟩, s⟩ :: es) = s.toList ++ splice cs es := by
  have hnot : ∀ x ∈ cs, decide (x.2 < p) = false := by
    intro x hx
    simpa using h x hx
  have htake : cs.takeWhile (·.2 < p) = [] := by
    cases cs with
    | nil => rfl
    | cons x cs => simp [hnot x (by simp)]
  have hdrop : cs.dropWhile (·.2 < p) = cs := by
    cases cs with
    | nil => rfl
    | cons x cs => simp [hnot x (by simp)]
  simp [splice, htake, hdrop]

/-- An edit that covers every offset replaces the characters by its text. -/
theorem splice_replace {cs : List (Char × Nat)} {p q : Nat} (h : ∀ x ∈ cs, p ≤ x.2 ∧ x.2 < q)
    (s : String) : splice cs [⟨⟨p, q⟩, s⟩] = s.toList := by
  have htake : cs.takeWhile (·.2 < p) = [] := by
    cases cs with
    | nil => rfl
    | cons x cs =>
      have := (h x (by simp)).1
      simp [Nat.not_lt.2 this]
  have hdrop : cs.dropWhile (·.2 < p) = cs := by
    cases cs with
    | nil => rfl
    | cons x cs =>
      have := (h x (by simp)).1
      simp [Nat.not_lt.2 this]
  have hgone : cs.dropWhile (·.2 < q) = [] := List.dropWhile_eq_nil_iff.2 fun x hx => by
    simpa using (h x hx).2
  simp [splice, htake, hdrop, hgone]

end Text

/-! ## Tokens that tile a text -/

namespace Token

/-- Tokens that follow one another with no gap, from offset `p` to `q`. -/
inductive Tiles : Nat → List Token → Nat → Prop
  | nil (p : Nat) : Tiles p [] p
  | cons {p q : Nat} {t : Token} {ts : List Token} :
      t.start = p → Tiles t.stop ts q → Tiles p (t :: ts) q

/-- The characters of a token, each with its byte offset. -/
def charsAt (t : Token) : List (Char × Nat) := Text.withOffsets.go t.text.toList t.start

/-- The characters of a token lie within it. -/
theorem charsAt_bounds (t : Token) : ∀ x ∈ t.charsAt, t.start ≤ x.2 ∧ x.2 < t.stop := by
  have h := Text.withOffsets_go_bounds t.text.toList t.start
  rwa [← String.utf8ByteSize_ofList, String.ofList_toList] at h

namespace Tiles

variable {p q r : Nat} {ts us : List Token}

theorem le (h : Tiles p ts q) : p ≤ q := by
  induction h with
  | nil => exact le_rfl
  | cons hs _ ih =>
    simp only [Token.stop] at ih
    omega

theorem append (h1 : Tiles p ts q) (h2 : Tiles q us r) : Tiles p (ts ++ us) r := by
  induction h1 with
  | nil => exact h2
  | cons hs _ ih => exact cons hs (ih h2)

theorem split (h : Tiles p (ts ++ us) r) : ∃ q, Tiles p ts q ∧ Tiles q us r := by
  induction ts generalizing p with
  | nil => exact ⟨p, nil p, h⟩
  | cons t ts ih =>
    cases h with
    | cons hs hrest =>
      obtain ⟨q, h1, h2⟩ := ih hrest
      exact ⟨q, cons hs h1, h2⟩

/-- The characters of tiling tokens, with their offsets, are those of each
token in turn. -/
theorem withOffsets_go (h : Tiles p ts q) :
    Text.withOffsets.go (ts.flatMap (·.text.toList)) p = ts.flatMap charsAt := by
  induction h with
  | nil => rfl
  | @cons p q t ts hs _ ih =>
    have hstop : p + String.utf8Len t.text.toList = t.stop := by
      rw [Token.stop, hs, ← String.utf8ByteSize_ofList, String.ofList_toList]
    rw [List.flatMap_cons, Text.withOffsets_go_append, hstop, ih, List.flatMap_cons, charsAt, hs]

/-- The characters of tiling tokens lie between the two ends. -/
theorem charsAt_bounds (h : Tiles p ts q) : ∀ x ∈ ts.flatMap charsAt, p ≤ x.2 ∧ x.2 < q := by
  induction h with
  | nil => simp
  | @cons p q t ts hs hrest ih =>
    intro x hx
    rw [List.flatMap_cons, List.mem_append] at hx
    have ht := t.charsAt_bounds
    rcases hx with hx | hx
    · have := ht x hx
      have := hrest.le
      omega
    · have := ih x hx
      have : t.start ≤ t.stop := by simp [Token.stop]
      omega

end Tiles

end Token

/-- The tokens before the end of input tile the text lexed. -/
theorem Lexer.tiles_lexFrom (cs : List Char) (pos : Nat) :
    Token.Tiles pos (lexFrom cs pos).dropLast (pos + String.utf8Len cs) := by
  fun_induction lexFrom cs pos with
  | case1 pos => simpa [lexFrom] using Token.Tiles.nil pos
  | case2 c cs pos kind extra h text ih =>
    obtain ⟨t, rest, hrest, -⟩ := lexFrom_head (cs.drop extra) (pos + text.utf8ByteSize)
    rw [hrest] at ih ⊢
    have hsize := utf8ByteSize_cut c cs extra
    simp only [String.utf8ByteSize_ofList] at hsize
    rw [List.dropLast_cons_of_ne_nil (by simp)]
    refine Token.Tiles.cons rfl ?_
    have hend : pos + text.utf8ByteSize + String.utf8Len (List.drop extra cs) =
        pos + String.utf8Len (c :: cs) := by
      simp only [text, String.utf8ByteSize_ofList]
      omega
    simpa [Token.stop, hend] using ih

theorem tiles_lex (source : String) :
    Token.Tiles 0 (lex source).dropLast source.utf8ByteSize := by
  have h := Lexer.tiles_lexFrom source.toList 0
  rwa [Nat.zero_add, ← String.utf8ByteSize_ofList, String.ofList_toList] at h

end GameScript
