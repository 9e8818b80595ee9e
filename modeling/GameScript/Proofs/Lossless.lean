import Mathlib
import GameScript.Proofs.Lexer
import GameScript.Proofs.Grammar
/-!
# Parsing loses nothing

The tree of a parse holds every token of the source, in order, and nothing
else: its text is the source. The grammar itself is not involved. The tree's
leaves are placed by `BareTree.attach`, which takes the tokens of `lex source`
from the front, one after another, and at the root takes all that is left
before the end of input. So the leaves are the tokens before the end of
input, whatever the grammar built, and by the tiling of `lex` their texts
spell the source (`attach_text`).

The problems reported are a matter of the cursor. The grammar changes it only
by the moves of `GameScript.Proofs.Cursor`, and each move keeps every offset
the cursor holds on a token boundary of the source (`Cursor.Placed`). A
report points at the next token or just after the last one taken, so every
problem does too (`parse_lossless`).
-/

set_option autoImplicit false

namespace GameScript

/-! ## Leaves -/

namespace SyntaxTree

@[simp] theorem leaves_token (t : Token) : (token t).leaves = [t] := by
  simp [leaves]

@[simp] theorem leaves_node (k : NodeKind) (a b : Nat) (cs : List SyntaxTree) :
    (node k a b cs).leaves = leavesOf cs := by
  simp [leaves]

@[simp] theorem leavesOf_nil : leavesOf [] = [] := by
  simp [leavesOf]

@[simp] theorem leavesOf_cons (e : SyntaxTree) (es : List SyntaxTree) :
    leavesOf (e :: es) = e.leaves ++ leavesOf es := by
  simp [leavesOf]

@[simp] theorem leavesOf_append (es fs : List SyntaxTree) :
    leavesOf (es ++ fs) = leavesOf es ++ leavesOf fs := by
  induction es with
  | nil => simp
  | cons e es ih => simp [ih]

end SyntaxTree

/-! ## Attaching takes tokens from the front -/

namespace Attach

/-- What the attaching functions do with the tokens they are given: the
leaves they build, followed by the tokens they leave, are those tokens, and
none of the leaves is the end of input. -/
def Takes (rest : List Token) (out : List SyntaxTree) (rest' : List Token) : Prop :=
  SyntaxTree.leavesOf out ++ rest' = rest ∧ ∀ t ∈ SyntaxTree.leavesOf out, t.kind ≠ .eof

theorem Takes.nil (r : List Token) : Takes r [] r := by
  simp [Takes]

theorem Takes.append {r r' r'' : List Token} {a b : List SyntaxTree}
    (ha : Takes r a r') (hb : Takes r' b r'') : Takes r (a ++ b) r'' := by
  obtain ⟨ha1, ha2⟩ := ha
  obtain ⟨hb1, hb2⟩ := hb
  refine ⟨by simp [← ha1, ← hb1], ?_⟩
  simp only [SyntaxTree.leavesOf_append, List.mem_append]
  rintro t (ht | ht)
  · exact ha2 t ht
  · exact hb2 t ht

/-- A token other than the end of input, put in front. -/
theorem Takes.cons {t : Token} {r r' : List Token} {out : List SyntaxTree}
    (ht : t.kind ≠ .eof) (h : Takes r out r') : Takes (t :: r) (.token t :: out) r' := by
  obtain ⟨hcat, heof⟩ := h
  refine ⟨by simp [hcat], ?_⟩
  simp only [SyntaxTree.leavesOf_cons, SyntaxTree.leaves_token, List.singleton_append,
    List.mem_cons]
  rintro u (rfl | hu)
  · exact ht
  · exact heof u hu

/-- A node built from what its parent left, its children and its tail. -/
theorem Takes.wrap {r r1 r2 r3 : List Token} {pre kids tail : List SyntaxTree}
    (k : NodeKind) (a b : Nat) (h1 : Takes r pre r1) (h2 : Takes r1 kids r2)
    (h3 : Takes r2 tail r3) : Takes r (pre ++ [.node k a b (kids ++ tail)]) r3 := by
  have h := h1.append (h2.append h3)
  refine ⟨by simpa using h.1, ?_⟩
  simpa using h.2

theorem takeTrivia_takes (rest : List Token) (off : Nat) :
    Takes rest (takeTrivia rest off).1 (takeTrivia rest off).2.1 := by
  fun_induction takeTrivia rest off with
  | case1 t more off h ts r o ih hmore =>
    rw [ih] at hmore
    -- trivia is never the end of input
    refine Takes.cons ?_ hmore
    intro he
    simp [he, TokenKind.isTrivia] at h
  | case2 => exact Takes.nil _
  | case3 => exact Takes.nil _

theorem takeAll_takes (rest : List Token) (off : Nat) :
    Takes rest (takeAll rest off).1 (takeAll rest off).2.1 := by
  fun_induction takeAll rest off with
  | case1 => exact Takes.nil _
  | case2 t more off h ts r o ih hmore =>
    rw [ih] at hmore
    exact Takes.cons (by simpa using h) hmore
  | case3 => exact Takes.nil _

/-- `takeAll` stops only at the end of the tokens or at an end-of-input token. -/
theorem takeAll_stops (rest : List Token) (off : Nat) :
    ∀ t ∈ (takeAll rest off).2.1.head?, t.kind = .eof := by
  fun_induction takeAll rest off with
  | case1 t more off h => simpa using h
  | case2 t more off h ts r o ih hmore => rwa [ih] at hmore
  | case3 => simp

/-- The token a bare token stands for: the next one, unless it is the end of
input. -/
theorem takeOne_takes (rest1 : List Token) (off1 : Nat) :
    Takes rest1
      (match rest1 with
        | t :: r => if t.kind == .eof then ([], rest1, off1) else ([.token t], r, t.stop)
        | [] => ([], [], off1) : List SyntaxTree × List Token × Nat).1
      (match rest1 with
        | t :: r => if t.kind == .eof then ([], rest1, off1) else ([.token t], r, t.stop)
        | [] => ([], [], off1) : List SyntaxTree × List Token × Nat).2.1 := by
  match rest1 with
  | t :: r =>
    by_cases h : t.kind = .eof
    · simp [h, Takes.nil]
    · simpa [h] using Takes.cons h (Takes.nil r)
  | [] => exact Takes.nil []

mutual

/-- A node takes its leading trivia (unless it is the root or a statement
list), its children and, at the root, everything left. -/
theorem node_takes (kind : NodeKind) (children : List BareTree) (root : Bool)
    (rest : List Token) (off : Nat) :
    Takes rest ((node kind children root rest off).1 ++ [(node kind children root rest off).2.1])
      (node kind children root rest off).2.2.1 := by
  rw [node]
  dsimp only
  cases root with
  | true =>
    simp only [Bool.not_true, Bool.false_and, Bool.false_eq_true, ↓reduceIte]
    exact Takes.wrap _ _ _ (Takes.nil rest) (elements_takes _ _ _) (takeAll_takes _ _)
  | false =>
    simp only [Bool.not_false, Bool.true_and, Bool.false_eq_true, ↓reduceIte]
    split
    · exact Takes.wrap _ _ _ (takeTrivia_takes _ _) (elements_takes _ _ _) (Takes.nil _)
    · exact Takes.wrap _ _ _ (Takes.nil rest) (elements_takes _ _ _) (Takes.nil _)
termination_by sizeOf children + 1

theorem elements_takes (children : List BareTree) (rest : List Token) (off : Nat) :
    Takes rest (elements children rest off).1 (elements children rest off).2.1 := by
  match children with
  | [] => simp [elements, Takes.nil]
  | .token _ :: more =>
    rw [elements]
    exact ((takeTrivia_takes _ _).append (takeOne_takes _ _)).append (elements_takes more _ _)
  | .node k cs :: more =>
    rw [elements]
    exact (node_takes k cs false rest off).append (elements_takes more _ _)
termination_by sizeOf children

end

/-- The root takes everything up to the end of input. -/
theorem node_root_takes (kind : NodeKind) (children : List BareTree) (rest : List Token)
    (off : Nat) :
    Takes rest [(node kind children true rest off).2.1] (node kind children true rest off).2.2.1 := by
  have h := node_takes kind children true rest off
  rwa [show (node kind children true rest off).1 = [] by rw [node]; simp, List.nil_append] at h

/-- What the root leaves is empty or starts with the end of input. -/
theorem node_root_stops (kind : NodeKind) (children : List BareTree) (rest : List Token)
    (off : Nat) : ∀ t ∈ (node kind children true rest off).2.2.1.head?, t.kind = .eof := by
  rw [node]
  exact takeAll_stops _ _

end Attach

/-! ## The root holds the tokens before the end of input -/

/-- Leaves that take tokens from the front and stop only at the end of
input are the tokens before it. -/
theorem eq_of_append_eq_append_eof {leaves rest body : List Token} {e : Token}
    (hcat : leaves ++ rest = body ++ [e]) (he : e.kind = .eof)
    (hleaves : ∀ t ∈ leaves, t.kind ≠ .eof) (hbody : ∀ t ∈ body, t.kind ≠ .eof)
    (hrest : ∀ t ∈ rest.head?, t.kind = .eof) : leaves = body := by
  rcases List.append_eq_append_iff.1 hcat with ⟨mid, rfl, hmid⟩ | ⟨mid, rfl, hmid⟩
  · -- `rest` starts with the part of `body` the leaves did not take: there is none
    cases mid with
    | nil => simp
    | cons t more =>
      have ht : t.kind = .eof := hrest t (by simp [hmid])
      exact absurd ht (hbody t (by simp))
  · -- the leaves ran past `body`, and the next token is the end of input
    cases mid with
    | nil => simp
    | cons t more =>
      simp only [List.cons_append, List.cons.injEq] at hmid
      exact absurd (hmid.1 ▸ he) (hleaves t (by simp))

theorem attach_leaves (k : NodeKind) (cs : List BareTree) (source : String) :
    ((BareTree.node k cs).attach (lex source)).leaves ++
      [⟨.eof, source.utf8ByteSize, ""⟩] = lex source := by
  obtain ⟨body, hlex, hbody⟩ := lex_eq_append_eof source
  obtain ⟨hcat, hleaves⟩ := Attach.node_root_takes k cs (lex source) 0
  simp only [SyntaxTree.leavesOf_cons, SyntaxTree.leavesOf_nil, List.append_nil] at hcat hleaves
  have hroot := eq_of_append_eq_append_eof (hcat.trans hlex) rfl hleaves hbody
    (Attach.node_root_stops k cs _ 0)
  rw [BareTree.attach, hroot, hlex]

theorem attach_leaves_ne_eof (k : NodeKind) (cs : List BareTree) (tokens : List Token) :
    ∀ t ∈ ((BareTree.node k cs).attach tokens).leaves, t.kind ≠ .eof := by
  rw [BareTree.attach]
  simpa using (Attach.node_root_takes k cs tokens 0).2

/-- The text of an attached tree is the source. -/
theorem attach_text (k : NodeKind) (cs : List BareTree) (source : String) :
    ((BareTree.node k cs).attach (lex source)).text = source := by
  have h := congrArg (fun ts : List Token => String.join (ts.map (·.text)))
    (attach_leaves k cs source)
  simp only [List.map_append, List.map_cons, List.map_nil, lex_texts] at h
  simpa [SyntaxTree.text] using h

/-! ## Problems point at token boundaries -/

namespace Cursor

/-- Every offset the cursor holds is a token boundary of `source`: the ends
of the tokens left, the end of the last token taken, and the ends of every
problem reported, each range the right way round. -/
structure Placed (source : String) (s : Cursor) : Prop where
  rest : ∀ x ∈ s.rest, IsBoundary source x.start ∧ IsBoundary source x.stop ∧ x.start ≤ x.stop
  lastEnd : IsBoundary source s.lastEnd
  errors : ∀ e ∈ s.errors.toList,
    IsBoundary source e.start ∧ IsBoundary source e.stop ∧ e.start ≤ e.stop

variable {source : String} {s s' : Cursor}

theorem report_errors (s : Cursor) (p : SyntaxProblem) :
    (s.report p).errors = s.errors.push ⟨p, s.problemRange.1, s.problemRange.2⟩ := rfl

/-- A problem reported now covers the next token, or is empty after the last
one taken. -/
theorem Placed.problemRange (h : Placed source s) :
    IsBoundary source s.problemRange.1 ∧ IsBoundary source s.problemRange.2 ∧
      s.problemRange.1 ≤ s.problemRange.2 := by
  unfold Cursor.problemRange
  split
  · rename_i t more hr
    split
    · exact ⟨h.lastEnd, h.lastEnd, le_rfl⟩
    · exact h.rest t (by simp [hr])
  · exact ⟨h.lastEnd, h.lastEnd, le_rfl⟩

/-- Each move keeps the offsets on boundaries. -/
theorem Placed.move (hm : Move s s') (h : Placed source s) : Placed source s' := by
  cases hm with
  | @pop t more hr =>
    refine ⟨fun x hx => h.rest x (by simp [hr, hx]), ?_, h.errors⟩
    dsimp only
    split
    · exact h.lastEnd
    · exact (h.rest t (by simp [hr])).2.1
  | report p =>
    refine ⟨h.rest, h.lastEnd, ?_⟩
    intro e he
    rw [report_errors, Array.toList_push, List.mem_append, List.mem_singleton] at he
    rcases he with he | rfl
    · exact h.errors e he
    · exact h.problemRange
  | counters => exact ⟨h.rest, h.lastEnd, h.errors⟩

theorem Placed.of_reach (h : Placed source s) (hr : Reach s s') : Placed source s' :=
  Reach.invariant (fun _ _ hm hp => hp.move hm) hr h

/-- The cursor a parse starts from: the significant tokens of `lex source`,
nothing taken, nothing reported. -/
theorem placed_start (source : String) (isFunction : String → Bool) :
    Placed source { rest := Lexeme.ofTokens (lex source) isFunction } := by
  refine ⟨?_, zero_isBoundary source, by simp⟩
  intro x hx
  obtain ⟨t, ht, hx⟩ := List.mem_filterMap.1 hx
  split at hx
  · cases hx
  · rename_i hk
    cases hx
    have hne : t.kind ≠ .eof := fun he => hk (by simp [he])
    exact ⟨⟨t, ht, rfl⟩, stop_isBoundary ht hne, by simp [Token.stop]⟩

end Cursor

/-! ## Losslessness -/

/-- What a parse of `source` promises: the tree spells the source, holds no
end-of-input token, and every problem covers a range within the source whose
ends are token boundaries. -/
structure ParseResult.Lossless (source : String) (p : ParseResult) : Prop where
  text_eq : p.root.text = source
  leaves_ne_eof : ∀ t ∈ p.root.leaves, t.kind ≠ .eof
  errors_placed : ∀ e ∈ p.errors, e.start ≤ e.stop ∧ e.stop ≤ source.utf8ByteSize ∧
    IsBoundary source e.start ∧ IsBoundary source e.stop

/-- A result whose tree is attached to the tokens of `source` and whose
problems are those of a cursor reached from a placed one. -/
theorem ParseResult.lossless_of {source : String} {p : ParseResult} {k : NodeKind}
    {cs : List BareTree} {s₀ s : Cursor} (h₀ : Cursor.Placed source s₀) (hr : Cursor.Reach s₀ s)
    (hroot : p.root = (BareTree.node k cs).attach (lex source))
    (herrors : p.errors = s.errors.toList) : p.Lossless source where
  text_eq := by rw [hroot, attach_text]
  leaves_ne_eof := by
    rw [hroot]
    exact attach_leaves_ne_eof k cs _
  errors_placed := by
    intro e he
    rw [herrors] at he
    obtain ⟨hstart, hstop, hle⟩ := (h₀.of_reach hr).errors e he
    exact ⟨hle, le_of_isBoundary hstop, hstart, hstop⟩

/-- Parsing loses nothing: for every source and every set of known
functions, the tree of a script spells the source, holds no end of input,
and every problem it reports lies between two token boundaries of the source;
and the same for a standalone expression. -/
theorem parse_lossless (source : String) (isFunction : String → Bool) :
    (parseScript source isFunction).Lossless source ∧ (parseExpr source).Lossless source := by
  constructor
  · have hr := Grammar.script_reach (Grammar.fuelFor (Lexeme.ofTokens (lex source) isFunction).length)
      (Cursor.Reach.refl { rest := Lexeme.ofTokens (lex source) isFunction })
    exact ParseResult.lossless_of (Cursor.placed_start source isFunction) hr rfl rfl
  · have hr := Grammar.exprRoot_reach
      (Grammar.fuelFor (Lexeme.ofTokens (lex source) fun _ => false).length)
      (Cursor.Reach.refl { rest := Lexeme.ofTokens (lex source) fun _ => false })
    exact ParseResult.lossless_of (Cursor.placed_start source fun _ => false) hr rfl rfl

end GameScript
