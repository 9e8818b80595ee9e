import Mathlib
import GameScript.Proofs.Grammar
/-!
# Every loop of the parser advances

The parser's loops (statements up to a block end, arguments, items in
parentheses, infix and access chains, the top level) each go round once per
item, and each item must take a token, or a loop that sees the same token
again would go round for ever. This file proves that they do: a statement
always takes a token, and so do an expression and a prefix expression that
start with a token that can start them; an item in call parentheses takes one
whether it is an expression or a recovered token.

Most of the work is in the cursor: a run of moves leaves a tail of the tokens
it started with (`Cursor.Reach.rest_suffix`), so it is enough to find the
first primitive that takes a token and follow the rest as a run. A statement
that begins with an expression that stops at once still ends its line, and
that takes the token.
-/

set_option autoImplicit false

namespace GameScript

/-! ## Tokens that start expressions -/

namespace TokenKind

/-- A token that starts an expression is no line end, closer or stop. -/
theorem canStartExpr_facts {k : TokenKind} (h : k.canStartExpr = true) :
    k ≠ .newline ∧ k ≠ .eof ∧ k.stopsExpression = false ∧
      (k == .rParen || k == .rBracket || k == .rBrace) = false := by
  revert h
  cases k <;> decide

theorem canStartExpr_of_canStartArgument {k : TokenKind} (h : k.canStartArgument = true) :
    k.canStartExpr = true := by
  revert h
  cases k <;> decide

end TokenKind

namespace Cursor

variable {a b s : Cursor}

/-! ## Tokens only go -/

/-- A run of moves leaves a tail of the tokens it started with. -/
theorem Reach.rest_suffix (h : Reach a b) : b.rest <:+ a.rest := by
  induction h with
  | refl => exact List.suffix_refl _
  | tail _ hmove ih =>
    cases hmove with
    | pop hr =>
      rw [hr] at ih
      exact (List.suffix_cons _ _).trans ih
    | report => exact ih
    | counters => exact ih

theorem Reach.length_le (h : Reach a b) : b.rest.length ≤ a.rest.length :=
  h.rest_suffix.length_le

/-- A run that follows a step past `a` ends past `a`. -/
theorem Reach.lt_of_lt {c : Cursor} (hab : b.rest.length < a.rest.length) (hbc : Reach b c) :
    c.rest.length < a.rest.length :=
  lt_of_le_of_lt hbc.length_le hab

/-- A run either takes no token or takes one at least. -/
theorem Reach.eq_or_lt (h : Reach a b) : b.rest = a.rest ∨ b.rest.length < a.rest.length := by
  rcases h.length_le.lt_or_eq with hlt | heq
  · exact Or.inr hlt
  · exact Or.inl (h.rest_suffix.eq_of_length heq)

theorem bumpAny_lt (h : s.rest ≠ []) : s.bumpAny.1.2.rest.length < s.rest.length := by
  unfold bumpAny
  rw [dif_neg h]
  exact (s.bumpAt h).2

/-- The current token depends on the tokens left only. -/
theorem current_congr (h : a.rest = b.rest) : a.current = b.current := by
  simp only [current, h]

theorem eat_lt {k : TokenKind} (hk : s.current = k) (hne : k ≠ .eof) :
    (s.eat k).1.2.rest.length < s.rest.length := by
  unfold eat
  rw [if_pos (by simp [hk, hne])]
  exact bumpAny_lt (rest_ne_nil hk hne)

theorem skipLine_lt (h : s.atLineEnd = false) : s.skipLine.1.2.rest.length < s.rest.length := by
  unfold skipLine
  rw [dif_neg (by simp [h])]
  exact (Reach.refl _).skipLine.lt_of_lt (s.bumpAt _).2

theorem eat_fst {k : TokenKind} (hk : s.current = k) (hne : k ≠ .eof) : (s.eat k).1.1.1 = true := by
  unfold eat
  rw [if_pos (by simp [hk, hne])]

theorem eat_of_ne {k : TokenKind} (hk : s.current ≠ k) : s.eat k = stay s (false, []) := by
  unfold eat
  rw [if_neg (by simp [hk])]

/-- Ending a statement takes a token, unless the input is over. -/
theorem expectNewline_lt (h : s.current ≠ .eof) : s.expectNewline.1.2.rest.length < s.rest.length := by
  unfold expectNewline
  by_cases hn : s.current = .newline
  · -- the line break itself
    have hok := eat_fst hn (by decide)
    have hlt := eat_lt hn (by decide)
    rcases he : s.eat .newline with ⟨⟨⟨ok, ts⟩, s1⟩, h1⟩
    rw [he] at hok hlt
    obtain rfl : ok = true := hok
    exact hlt
  · -- the rest of the line, as an error
    rw [eat_of_ne hn]
    dsimp only [stay]
    rw [if_neg (by simp [atEnd, h])]
    have hcur : (s.report .expectedNewline).current = s.current := current_congr (report_rest _ _)
    have hlt := skipLine_lt (s := s.report .expectedNewline) (by simp [atLineEnd, hcur, hn, h])
    rcases hs : (s.report .expectedNewline).skipLine with ⟨⟨junk, s2⟩, h2⟩
    rw [hs] at hlt
    exact ((Reach.refl s2).eat _).lt_of_lt hlt

theorem skipNested_lt (hl : s.atLineEnd = false)
    (hc : (s.current == .rParen || s.current == .rBracket || s.current == .rBrace) = false)
    (opened : Nat) : (s.skipNested opened).1.2.rest.length < s.rest.length := by
  unfold skipNested
  rw [dif_neg (by simp [hl]), if_neg (by simp [hc])]
  exact ((Reach.refl _).skipNested _).lt_of_lt (s.bumpAt _).2

/-- Cutting off an expression nested too deeply takes the token that starts
it. -/
theorem expressionTooDeep_lt (h : s.current.canStartExpr = true) :
    s.expressionTooDeep.1.2.rest.length < s.rest.length := by
  obtain ⟨hnl, heof, -, hclose⟩ := TokenKind.canStartExpr_facts h
  have hcur : ({ s.report .expressionTooDeep with parenDepth := 0 } : Cursor).current = s.current :=
    current_congr rfl
  have hlt := skipNested_lt (s := { s.report .expressionTooDeep with parenDepth := 0 })
    (by unfold atLineEnd; rw [hcur]; simp [hnl, heof]) (by rw [hcur]; exact hclose) 0
  unfold expressionTooDeep
  exact hlt

theorem varDecl_lt (h : s.rest ≠ []) : s.varDecl.1.2.rest.length < s.rest.length :=
  ((Reach.refl _).name .variable).lt_of_lt (bumpAny_lt h)

/-- Recovery wraps the current token unless it stops there. -/
theorem recover_lt {p : SyntaxProblem} {stopAt : TokenKind → Bool} (hs : stopAt s.current = false)
    (hl : s.atLineEnd = false) : (s.recover p stopAt).1.2.rest.length < s.rest.length := by
  have heof : s.current ≠ .eof := fun he => by simp [atLineEnd, he] at hl
  simp only [recover, hs, hl, Bool.or_self, Bool.false_eq_true, ↓reduceIte]
  exact bumpAny_lt (s := s.report p) (by simpa using rest_ne_nil_of_ne heof)

/-- A step chosen by a condition takes a token when both branches do. -/
theorem lt_ite {α : Type} {c : Prop} [Decidable c] {p q : α × Cursor} {n : Nat}
    (hp : c → p.2.rest.length < n) (hq : ¬c → q.2.rest.length < n) :
    (if c then p else q).2.rest.length < n := by
  split
  · exact hp ‹_›
  · exact hq ‹_›

/-- The tokens left after a step, read through the pattern its caller binds
the step's result with. -/
theorem lt_of_eq {α : Type} {s1 : Cursor} {p : α × Cursor} {x : α}
    (h : p.2.rest.length < s.rest.length) (e : p = (x, s1)) : s1.rest.length < s.rest.length := by
  subst e
  exact h

end Cursor

namespace Grammar

open Cursor

variable {fuel : Nat} {s : Cursor}

/-! ## Progress

A statement takes a token, and so do an expression and an argument that
start with a token that can start them. Each needs a little fuel to reach
the token it takes. -/

theorem keywordStmt_lt (h : s.rest ≠ []) (kind : NodeKind) :
    (keywordStmt s kind).2.rest.length < s.rest.length :=
  (Reach.refl _).expectNewline.lt_of_lt (bumpAny_lt h)

theorem varDeclStmt_lt (h : s.rest ≠ []) : (varDeclStmt (fuel + 1) s).2.rest.length < s.rest.length :=
  (varDeclStmt_reach (reaches fuel) (Reach.refl _)).lt_of_lt (varDecl_lt h)

theorem setStmt_lt (h : s.rest ≠ []) : (setStmt (fuel + 1) s).2.rest.length < s.rest.length :=
  (setStmt_reach (reaches fuel) (Reach.refl _)).lt_of_lt (bumpAny_lt h)

theorem letStmt_lt (h : s.rest ≠ []) : (letStmt (fuel + 1) s).2.rest.length < s.rest.length :=
  (letStmt_reach (reaches fuel) (Reach.refl _)).lt_of_lt (bumpAny_lt h)

theorem ifStmt_lt (h : s.rest ≠ []) : (ifStmt (fuel + 1) s).2.rest.length < s.rest.length :=
  (ifStmt_reach (reaches fuel) (Reach.refl _)).lt_of_lt (bumpAny_lt h)

theorem whileStmt_lt (h : s.rest ≠ []) : (whileStmt (fuel + 1) s).2.rest.length < s.rest.length :=
  (whileStmt_reach (reaches fuel) (Reach.refl _)).lt_of_lt (bumpAny_lt h)

theorem foreachStmt_lt (h : s.rest ≠ []) :
    (foreachStmt (fuel + 1) s).2.rest.length < s.rest.length :=
  (foreachStmt_reach (reaches fuel) (Reach.refl _)).lt_of_lt (bumpAny_lt h)

theorem beginStmt_lt (h : s.rest ≠ []) : (beginStmt (fuel + 1) s).2.rest.length < s.rest.length :=
  (beginStmt_reach (reaches fuel) (Reach.refl _)).lt_of_lt (bumpAny_lt h)

theorem returnStmt_lt (h : s.rest ≠ []) : (returnStmt (fuel + 1) s).2.rest.length < s.rest.length :=
  (returnStmt_reach (reaches fuel) (Reach.refl _)).lt_of_lt (bumpAny_lt h)

theorem nameRefOrCall_lt (h : s.rest ≠ []) (calls : Bool) :
    (nameRefOrCall (fuel + 1) s calls).2.rest.length < s.rest.length :=
  (nameRefOrCall_reach (reaches fuel) calls (Reach.refl _)).lt_of_lt (bumpAny_lt h)

theorem lambda_lt (h : s.rest ≠ []) : (lambda (fuel + 1) s).2.rest.length < s.rest.length :=
  (lambda_reach (reaches fuel) (Reach.refl _)).lt_of_lt (bumpAny_lt (s := { s with parenDepth := 0 }) h)

theorem beginOrNested_lt (h : s.rest ≠ []) :
    (beginOrNested (fuel + 2) s).2.rest.length < s.rest.length := by
  rw [beginOrNested]
  split
  · exact beginStmt_lt h
  · split; rename_i blk s1 e1
    simpa using lt_of_eq (beginStmt_lt (s := s.report .nestedBegin) (by simpa using h)) e1

/-- An expression statement ends its line: if the expression took nothing,
the line end takes the token. -/
theorem exprStmt_lt (h : s.current ≠ .eof) : (exprStmt (fuel + 1) s).2.rest.length < s.rest.length := by
  rw [exprStmt]
  split; rename_i e s1 e1
  split; rename_i nl s2 e2
  have r1 : Reach s s1 := ((reaches fuel).expression (Reach.refl s)).of_eq e1
  rcases r1.eq_or_lt with heq | hlt
  · have hnl := expectNewline_lt (s := s1) (by rwa [current_congr heq])
    rw [e2] at hnl
    rwa [heq] at hnl
  · exact (((Reach.refl s1).expectNewline).of_eq e2).lt_of_lt hlt

/-- A statement takes a token. -/
theorem statement_lt (h : s.current ≠ .eof) : (statement (fuel + 3) s).2.rest.length < s.rest.length := by
  have hr := rest_ne_nil_of_ne h
  rw [statement]
  -- each form takes its keyword first; an expression statement ends its line
  refine lt_ite (fun _ => setStmt_lt hr) fun _ => ?_
  refine lt_ite (fun _ => letStmt_lt hr) fun _ => ?_
  refine lt_ite (fun _ => ifStmt_lt hr) fun _ => ?_
  refine lt_ite (fun _ => whileStmt_lt hr) fun _ => ?_
  refine lt_ite (fun _ => foreachStmt_lt hr) fun _ => ?_
  refine lt_ite (fun _ => beginOrNested_lt hr) fun _ => ?_
  refine lt_ite (fun _ => returnStmt_lt hr) fun _ => ?_
  refine lt_ite (fun _ => keywordStmt_lt hr _) fun _ => ?_
  refine lt_ite (fun _ => keywordStmt_lt hr _) fun _ => ?_
  exact lt_ite (fun _ => varDeclStmt_lt hr) fun _ => exprStmt_lt h

/-- A primary expression takes the token that starts it. -/
theorem primary_lt (h : s.current.canStartExpr = true) (calls : Bool) :
    (primary (fuel + 2) s calls).2.rest.length < s.rest.length := by
  obtain ⟨hnl, heof, hstop, -⟩ := TokenKind.canStartExpr_facts h
  have hr := rest_ne_nil_of_ne heof
  rw [primary]
  split_ifs with hid hlp hbegin hlit hend
  · split; rename_i e s1 e1
    exact lt_of_eq (nameRefOrCall_lt hr calls) e1
  · split; rename_i e s1 e1
    exact lt_of_eq (lambda_lt hr) e1
  · -- a parenthesized expression
    split; rename_i lp s1 e1
    have hlt := lt_of_eq (bumpAny_lt (s := { s with parenDepth := s.parenDepth + 1 }) hr) e1
    split; rename_i e s2 e2
    have r2 := ((reaches _).expression (Reach.refl s1)).of_eq e2
    split; rename_i ok rp s3 e3
    exact (((r2.parenDepth _).expect _).of_eq e3).lt_of_lt hlt
  · split; rename_i t s1 e1
    exact lt_of_eq (bumpAny_lt hr) e1
  · simp [atLineEnd, hnl, heof, hstop] at hend
  · split; rename_i t s1 e1
    simpa using lt_of_eq (bumpAny_lt (s := s.report .expectedExpression) (by simpa using hr)) e1

/-- A prefix expression takes the token that starts it. -/
theorem unaryInner_lt (h : s.current.canStartExpr = true) (calls : Bool) :
    (unaryInner (fuel + 3) s calls).2.rest.length < s.rest.length := by
  have hr := rest_ne_nil_of_ne (TokenKind.canStartExpr_facts h).2.1
  rw [unaryInner]
  split
  · -- a prefix operator, then its operand
    split; rename_i op s1 e1
    have hlt := lt_of_eq (bumpAny_lt hr) e1
    split; rename_i inner s2 e2
    refine ((Reach.ite (fun _ => (reaches _).exprBp _ (Reach.refl s1)) (fun _ => ?_)).of_eq e2).lt_of_lt hlt
    split; rename_i e s3 e3
    exact ((reaches _).unary false (Reach.refl s1)).of_eq e3
  · split; rename_i p? s1 e1
    have hlt := lt_of_eq (primary_lt h calls) e1
    split
    · exact hlt
    · split; rename_i e s2 e2
      exact ((((reaches _).accessChain _ calls (Reach.refl s1)).of_eq e2).nesting _).lt_of_lt hlt

theorem unary_lt (h : s.current.canStartExpr = true) (calls : Bool) :
    (unary (fuel + 4) s calls).2.rest.length < s.rest.length := by
  rw [unary]
  split
  · split; rename_i err s1 e1
    exact lt_of_eq (expressionTooDeep_lt h) e1
  · split; rename_i e s1 e1
    have hlt := lt_of_eq (unaryInner_lt (s := { s with nesting := s.nesting + 1 }) h calls) e1
    exact hlt

theorem exprBp_lt (h : s.current.canStartExpr = true) (min : Nat) :
    (exprBp (fuel + 5) s min).2.rest.length < s.rest.length := by
  rw [exprBp]
  split; rename_i lhs? s1 e1
  have hlt := lt_of_eq (unary_lt h true) e1
  split
  · exact hlt
  · split; rename_i e s2 e2
    exact ((((reaches _).infixChain _ _ (Reach.refl s1)).of_eq e2).nesting _).lt_of_lt hlt

/-- An expression takes the token that starts it. -/
theorem expression_lt (h : s.current.canStartExpr = true) :
    (expression (fuel + 6) s).2.rest.length < s.rest.length := by
  rw [expression]
  exact exprBp_lt h 0

theorem statement_lt_of_le (hf : 3 ≤ fuel) (h : s.current ≠ .eof) :
    (statement fuel s).2.rest.length < s.rest.length := by
  obtain ⟨f, rfl⟩ : ∃ f, fuel = f + 3 := ⟨fuel - 3, by omega⟩
  exact statement_lt h

theorem expression_lt_of_le (hf : 6 ≤ fuel) (h : s.current.canStartExpr = true) :
    (expression fuel s).2.rest.length < s.rest.length := by
  obtain ⟨f, rfl⟩ : ∃ f, fuel = f + 6 := ⟨fuel - 6, by omega⟩
  exact expression_lt h

theorem unary_lt_of_le (hf : 4 ≤ fuel) (h : s.current.canStartExpr = true) (calls : Bool) :
    (unary fuel s calls).2.rest.length < s.rest.length := by
  obtain ⟨f, rfl⟩ : ∃ f, fuel = f + 4 := ⟨fuel - 4, by omega⟩
  exact unary_lt h calls

/-- An argument in parentheses takes a token: an expression the one that
starts it, recovery the one that cannot. -/
theorem parenArgItem_lt (hl : s.atLineEnd = false) (hrp : s.current ≠ .rParen) (hf : 6 ≤ fuel) :
    (if s.current.canStartExpr then expression fuel s
      else (s.recover .expectedArgument (· == .rParen)).val).2.rest.length < s.rest.length := by
  split
  · exact expression_lt_of_le hf ‹_›
  · exact recover_lt (by simpa using hrp) hl

theorem scriptNameDecl_lt (h : s.rest ≠ []) : (scriptNameDecl s).2.rest.length < s.rest.length :=
  ((Reach.refl _).name _).expectNewline.lt_of_lt (bumpAny_lt h)

end Grammar

end GameScript
