import Mathlib
import GameScript.Syntax.Cursor
/-!
# How the grammar moves its cursor

The grammar changes its cursor in three ways only: it takes the next token
(`Move.pop`), it reports a problem where it stands (`Move.report`), and it sets
its counters of open parentheses, `begin` blocks and nesting
(`Move.counters`). `Reach` is what a run of such moves can do. This file proves
it of every step of `GameScript.Syntax.Cursor`; `GameScript.Proofs.Grammar`
lifts it to the whole grammar.

What is true of the cursor the parse starts from and is kept by each kind of
move is then true of the cursor it ends with (`Reach.invariant`). A new fact
about what the parser leaves behind is proved against the three moves, never
against the grammar again.

The lemmas are stated after any run (`Reach s₀ s → Reach s₀ (f s)`), so that a
chain of steps is checked by applying them from the last step back.
-/

set_option autoImplicit false

namespace GameScript

namespace Cursor

/-- One thing the grammar can do to its cursor. -/
inductive Move : Cursor → Cursor → Prop
  /-- Take the next token. The end of the last token taken moves with it,
  unless the token is a line break. -/
  | pop {s : Cursor} {t : Lexeme} {more : List Lexeme} (h : s.rest = t :: more) :
      Move s { s with rest := more, lastEnd := if t.kind == .newline then s.lastEnd else t.stop }
  /-- Report a problem at the current position. -/
  | report (s : Cursor) (p : SyntaxProblem) : Move s (s.report p)
  /-- Set the counters; the tokens, the position and the problems stay. -/
  | counters (s : Cursor) (paren depth nesting : Nat) :
      Move s { s with parenDepth := paren, beginDepth := depth, nesting := nesting }

/-- The cursors a run of moves leads to. -/
def Reach : Cursor → Cursor → Prop := Relation.ReflTransGen Move

namespace Reach

variable {a b c : Cursor}

theorem refl (s : Cursor) : Reach s s := Relation.ReflTransGen.refl

theorem trans (h1 : Reach a b) (h2 : Reach b c) : Reach a c := Relation.ReflTransGen.trans h1 h2

theorem single (h : Move a b) : Reach a b := Relation.ReflTransGen.single h

theorem counters (h : Reach a b) (paren depth nesting : Nat) :
    Reach a { b with parenDepth := paren, beginDepth := depth, nesting := nesting } :=
  Relation.ReflTransGen.tail h (.counters b paren depth nesting)

theorem report (h : Reach a b) (p : SyntaxProblem) : Reach a (b.report p) :=
  Relation.ReflTransGen.tail h (.report b p)

theorem nesting (h : Reach a b) (n : Nat) : Reach a { b with nesting := n } :=
  h.counters _ _ _

theorem parenDepth (h : Reach a b) (n : Nat) : Reach a { b with parenDepth := n } :=
  h.counters _ _ _

theorem beginDepth (h : Reach a b) (n : Nat) : Reach a { b with beginDepth := n } :=
  h.counters _ _ _

/-- The cursor of a step, read through the pattern its caller binds the
step's result with. -/
theorem of_eq {α : Type} {p : α × Cursor} {x : α} {s : Cursor} (h : Reach a p.2)
    (e : p = (x, s)) : Reach a s := by
  subst e
  exact h

/-- A step chosen by a condition moves the cursor as both branches do. -/
theorem ite {α : Type} {c : Prop} [Decidable c] {p q : α × Cursor} (hp : c → Reach a p.2)
    (hq : ¬c → Reach a q.2) : Reach a (if c then p else q).2 := by
  split
  · exact hp ‹_›
  · exact hq ‹_›

/-- A property that every move keeps holds wherever a run of moves leads. -/
theorem invariant {P : Cursor → Prop} (step : ∀ s s', Move s s' → P s → P s')
    (h : Reach a b) (ha : P a) : P b := by
  induction h with
  | refl => exact ha
  | tail _ hmove ih => exact step _ _ hmove ih

end Reach

/-- Taking a line break leaves the end of the last token where it was. -/
theorem Move.popNewline {s : Cursor} {t : Lexeme} {more : List Lexeme} (h : s.rest = t :: more)
    (hk : t.kind = .newline) : Move s { s with rest := more } := by
  simpa [hk] using Move.pop h

/-! ## The steps of the cursor -/

variable {s₀ s : Cursor}

theorem Reach.eatLineBreaks (h : Reach s₀ s) : Reach s₀ s.eatLineBreaks.1.2 := by
  refine h.trans ?_
  clear h
  fun_induction Cursor.eatLineBreaks s with
  | case1 s t more h hk ts s1 h1 heq ih =>
    rw [heq] at ih
    exact (Reach.single (Move.popNewline h (by simpa using hk))).trans ih
  | case2 => exact Reach.refl _
  | case3 => exact Reach.refl _

theorem Reach.bumpAt (h : Reach s₀ s) (hr : s.rest ≠ []) : Reach s₀ (s.bumpAt hr).1.2 := by
  refine h.trans ?_
  clear h
  obtain ⟨_ | ⟨t, more⟩, paren, depth, nesting, lastEnd, errors⟩ := s
  · exact absurd rfl hr
  dsimp only [Cursor.bumpAt]
  split
  · exact (Reach.single (Move.pop rfl)).eatLineBreaks
  · exact Reach.single (Move.pop rfl)

/-- A loop step that took the next token and went on from where that left
the cursor. -/
theorem reach_of_bumpAt {s1 s2 : Cursor} {hr : s.rest ≠ []} {ts : List BareTree}
    {h1 : s1.rest.length < s.rest.length} (heq : s.bumpAt hr = ⟨(ts, s1), h1⟩)
    (h : Reach s1 s2) : Reach s s2 := by
  have hbump := (Reach.refl s).bumpAt hr
  rw [heq] at hbump
  exact hbump.trans h

theorem Reach.bumpAny (h : Reach s₀ s) : Reach s₀ s.bumpAny.1.2 := by
  unfold Cursor.bumpAny
  split
  · exact h
  · exact h.bumpAt _

theorem Reach.eat (h : Reach s₀ s) (k : TokenKind) : Reach s₀ (s.eat k).1.2 := by
  unfold Cursor.eat
  split
  · exact h.bumpAny
  · exact h

theorem Reach.expect (h : Reach s₀ s) (k : TokenKind) : Reach s₀ (s.expect k).1.2 := by
  unfold Cursor.expect
  dsimp only
  split
  · exact h.eat k
  · exact (h.eat k).report _

theorem Reach.recover (h : Reach s₀ s) (p : SyntaxProblem) (stopAt : TokenKind → Bool) :
    Reach s₀ (s.recover p stopAt).1.2 := by
  by_cases hc : (stopAt s.current || s.atLineEnd) = true
  · simp only [Cursor.recover, hc, ↓reduceIte]
    exact h.report p
  · simp only [Cursor.recover, hc, Bool.false_eq_true, ↓reduceIte]
    exact (h.report p).bumpAny

theorem Reach.skipAll (h : Reach s₀ s) : Reach s₀ s.skipAll.1.2 := by
  refine h.trans ?_
  clear h
  fun_induction Cursor.skipAll s with
  | case1 => exact Reach.refl _
  | case2 s hr ts s1 h1 heq1 more s2 h2 heq2 ih =>
    rw [heq2] at ih
    exact reach_of_bumpAt heq1 ih

theorem Reach.skipLine (h : Reach s₀ s) : Reach s₀ s.skipLine.1.2 := by
  refine h.trans ?_
  clear h
  fun_induction Cursor.skipLine s with
  | case1 => exact Reach.refl _
  | case2 s hl hne ts s1 h1 heq1 more s2 h2 heq2 ih =>
    rw [heq2] at ih
    exact reach_of_bumpAt heq1 ih

theorem Reach.skipNested (h : Reach s₀ s) (opened : Nat) : Reach s₀ (s.skipNested opened).1.2 := by
  refine h.trans ?_
  clear h
  fun_induction Cursor.skipNested s opened with
  | case1 => exact Reach.refl _
  | case2 => exact Reach.refl _
  | case3 s opened hl hne k hk opened2 ts s1 h1 heq1 more s2 h2 heq2 ih =>
    rw [heq2] at ih
    exact reach_of_bumpAt heq1 ih

theorem Reach.skipBlock (h : Reach s₀ s) (opened : Nat) : Reach s₀ (s.skipBlock opened).1.2 := by
  refine h.trans ?_
  clear h
  fun_induction Cursor.skipBlock s opened with
  | case1 => exact Reach.refl _
  | case2 => exact Reach.refl _
  | case3 s opened he hne k isOpener isCloser hk opened2 ts s1 h1 heq1 more s2 h2 heq2 ih =>
    rw [heq2] at ih
    exact reach_of_bumpAt heq1 ih

theorem Reach.expressionTooDeep (h : Reach s₀ s) : Reach s₀ s.expressionTooDeep.1.2 := by
  unfold Cursor.expressionTooDeep
  dsimp only
  -- the skip runs with no parenthesis open; the count comes back afterwards
  have h0 := (h.report .expressionTooDeep).counters 0 s.beginDepth s.nesting
  exact (h0.skipNested 0).counters _ _ _

theorem Reach.blockTooDeep (h : Reach s₀ s) : Reach s₀ s.blockTooDeep.1.2 :=
  (h.report _).skipBlock 0

theorem Reach.expectNewline (h : Reach s₀ s) : Reach s₀ s.expectNewline.1.2 := by
  unfold Cursor.expectNewline
  dsimp only
  split
  · exact h.eat _
  · exact (((h.eat _).report _).skipLine).eat _

theorem Reach.name (h : Reach s₀ s) (role : NameRole) : Reach s₀ (s.name role).1.2 := by
  unfold Cursor.name
  dsimp only
  split
  · exact h.eat _
  · exact (h.eat _).report _

theorem Reach.varDecl (h : Reach s₀ s) : Reach s₀ s.varDecl.1.2 :=
  h.bumpAny.name _

theorem Reach.varOrVarDecl (h : Reach s₀ s) (stopAt : TokenKind → Bool) :
    Reach s₀ (s.varOrVarDecl stopAt).1.2 := by
  unfold Cursor.varOrVarDecl
  split
  · exact h.varDecl
  · split
    · exact h.bumpAny
    · exact h.recover _ _

theorem Reach.paramEntries (h : Reach s₀ s) : Reach s₀ s.paramEntries.1.2 := by
  refine h.trans ?_
  clear h
  fun_induction Cursor.paramEntries s with
  | case1 => exact Reach.refl _
  | case2 s hs v s1 h1 heq1 ok c s2 h2 heq2 hp more s3 h3 heq3 ih =>
    have hv := (Reach.refl s).varOrVarDecl (· == .rBrace)
    have hc := (Reach.refl s1).eat .comma
    rw [heq1] at hv
    rw [heq2] at hc
    rw [heq3] at ih
    exact (hv.trans hc).trans ih
  | case3 s hs v s1 h1 heq1 ok c s2 h2 heq2 hp =>
    have hv := (Reach.refl s).varOrVarDecl (· == .rBrace)
    have hc := (Reach.refl s1).eat .comma
    rw [heq1] at hv
    rw [heq2] at hc
    exact hv.trans hc

theorem Reach.paramList (h : Reach s₀ s) : Reach s₀ s.paramList.1.2 :=
  h.bumpAny.paramEntries.expect _

end Cursor

end GameScript
