import Mathlib
import GameScript.Proofs.Grammar
/-!
# The grammar keeps every token it takes

The bare tree a grammar function builds holds, as its token leaves and in
order, the kinds of exactly the tokens the function took from its cursor:
nothing is dropped and nothing is made up. `Cursor.Keeps s out s'` says this of
one step from `s` to `s'` that built `out`; it composes along a function body
(`Keeps.trans`) and survives wrapping in a node (`Keeps.wrap`) and every change
of the counters or the problems.

The proof has the layout of `GameScript.Proofs.Grammar`: one lemma per step of
the cursor, then one structure `Grammar.Kept fuel` over all the functions of
the grammar, proved by induction on the fuel, each function following its own
body.

Main statement (`script_keeps`): the bare tree of a script, followed by the
tokens the parse did not take, spells the kinds of all the tokens it was given.
-/

set_option autoImplicit false

namespace GameScript

namespace BareTree

mutual
/-- The kinds of the token leaves of a bare tree, in order. -/
def kinds : BareTree → List TokenKind
  | .token k => [k]
  | .node _ cs => kindsOf cs

/-- The kinds of the token leaves of bare trees one after another. -/
def kindsOf : List BareTree → List TokenKind
  | [] => []
  | b :: bs => b.kinds ++ kindsOf bs
end

@[simp] theorem kinds_token (k : TokenKind) : (token k).kinds = [k] := by
  simp [kinds]

@[simp] theorem kinds_node (k : NodeKind) (cs : List BareTree) : (node k cs).kinds = kindsOf cs := by
  simp [kinds]

@[simp] theorem kindsOf_nil : kindsOf [] = [] := by
  simp [kindsOf]

@[simp] theorem kindsOf_cons (b : BareTree) (bs : List BareTree) :
    kindsOf (b :: bs) = b.kinds ++ kindsOf bs := by
  simp [kindsOf]

@[simp] theorem kindsOf_append (bs cs : List BareTree) :
    kindsOf (bs ++ cs) = kindsOf bs ++ kindsOf cs := by
  induction bs with
  | nil => simp
  | cons b bs ih => simp [ih]

end BareTree

namespace Cursor

/-- A step from `s` to `s'` that built `out` kept the tokens it took: the
leaves of `out`, then the tokens left at `s'`, are the tokens left at `s`. -/
def Keeps (s : Cursor) (out : List BareTree) (s' : Cursor) : Prop :=
  BareTree.kindsOf out ++ s'.rest.map (·.kind) = s.rest.map (·.kind)

namespace Keeps

variable {s s' s1 s2 : Cursor} {a b : List BareTree}

/-- A step that took nothing and built nothing. -/
theorem of_rest (h : s'.rest = s.rest) : Keeps s [] s' := by
  simp [Keeps, h]

theorem refl (s : Cursor) : Keeps s [] s := of_rest rfl

theorem trans (h1 : Keeps s a s1) (h2 : Keeps s1 b s2) : Keeps s (a ++ b) s2 := by
  unfold Keeps at *
  rw [BareTree.kindsOf_append, List.append_assoc, h2, h1]

theorem wrap (h : Keeps s a s1) (k : NodeKind) : Keeps s [.node k a] s1 := by
  simpa [Keeps] using h

/-- The counters and the problems do not touch the tokens. -/
theorem rest_congr {s1' : Cursor} (h : Keeps s a s1) (e : s1'.rest = s1.rest) : Keeps s a s1' := by
  unfold Keeps at *
  rw [e, h]

theorem report (h : Keeps s a s1) (p : SyntaxProblem) : Keeps s a (s1.report p) :=
  h.rest_congr rfl

theorem counters (h : Keeps s a s1) (paren depth nesting : Nat) :
    Keeps s a { s1 with parenDepth := paren, beginDepth := depth, nesting := nesting } :=
  h.rest_congr rfl

/-- What a step built, read through the pattern its caller binds it with. -/
theorem of_eq {p : List BareTree × Cursor} {x : List BareTree} {s' : Cursor}
    (h : Keeps s p.1 p.2) (e : p = (x, s')) : Keeps s x s' := by
  subst e
  exact h

theorem of_eq_snd {β : Type} {p : (β × List BareTree) × Cursor} {b : β} {x : List BareTree}
    {s' : Cursor} (h : Keeps s p.1.2 p.2) (e : p = ((b, x), s')) : Keeps s x s' := by
  subst e
  exact h

theorem of_eq_getD {p : Option (List BareTree) × Cursor} {x : Option (List BareTree)} {s' : Cursor}
    (h : Keeps s (p.1.getD []) p.2) (e : p = (x, s')) : Keeps s (x.getD []) s' := by
  subst e
  exact h

theorem ite {c : Prop} [Decidable c] {p q : List BareTree × Cursor} (hp : c → Keeps s p.1 p.2)
    (hq : ¬c → Keeps s q.1 q.2) : Keeps s (if c then p else q).1 (if c then p else q).2 := by
  split
  · exact hp ‹_›
  · exact hq ‹_›

/-- A step that took a token built something. -/
theorem kindsOf_ne_nil (h : Keeps s a s1) (hlt : s1.rest.length < s.rest.length) :
    BareTree.kindsOf a ≠ [] := by
  intro ha
  have := congrArg List.length h
  simp only [ha, List.nil_append, List.length_map] at this
  omega

end Keeps

/-! ## The steps of the cursor -/

theorem keeps_eatLineBreaks (s : Cursor) : Keeps s s.eatLineBreaks.1.1 s.eatLineBreaks.1.2 := by
  fun_induction Cursor.eatLineBreaks s with
  | case1 s t more h hk ts s1 h1 heq ih =>
    rw [heq] at ih
    have hk' : t.kind = .newline := by simpa using hk
    simpa [Keeps, h, hk'] using ih
  | case2 => exact Keeps.refl _
  | case3 => exact Keeps.refl _

theorem keeps_bumpAt (s : Cursor) (hr : s.rest ≠ []) : Keeps s (s.bumpAt hr).1.1 (s.bumpAt hr).1.2 := by
  obtain ⟨_ | ⟨t, more⟩, paren, depth, nesting, lastEnd, errors⟩ := s
  · exact absurd rfl hr
  dsimp only [Cursor.bumpAt]
  split
  · -- inside parentheses the line breaks after the token go with it
    have hl := keeps_eatLineBreaks
      { rest := more, parenDepth := paren, beginDepth := depth, nesting := nesting,
        lastEnd := if t.kind == .newline then lastEnd else t.stop, errors := errors }
    simpa [Keeps] using hl
  · simp [Keeps]

/-- A loop step that took the next token and went on from where that left
the cursor. -/
theorem keeps_of_bumpAt {s s1 s2 : Cursor} {hr : s.rest ≠ []} {ts more : List BareTree}
    {h1 : s1.rest.length < s.rest.length} (heq : s.bumpAt hr = ⟨(ts, s1), h1⟩)
    (h : Keeps s1 more s2) : Keeps s (ts ++ more) s2 := by
  have hbump := keeps_bumpAt s hr
  rw [heq] at hbump
  exact hbump.trans h

theorem keeps_bumpAny (s : Cursor) : Keeps s s.bumpAny.1.1 s.bumpAny.1.2 := by
  unfold Cursor.bumpAny
  split
  · exact Keeps.refl _
  · exact keeps_bumpAt s _

theorem keeps_eat (s : Cursor) (k : TokenKind) : Keeps s (s.eat k).1.1.2 (s.eat k).1.2 := by
  unfold Cursor.eat
  split
  · exact keeps_bumpAny s
  · exact Keeps.refl _

theorem keeps_expect (s : Cursor) (k : TokenKind) : Keeps s (s.expect k).1.1.2 (s.expect k).1.2 := by
  unfold Cursor.expect
  dsimp only
  split
  · exact keeps_eat s k
  · exact (keeps_eat s k).report _

theorem keeps_recover (s : Cursor) (p : SyntaxProblem) (stopAt : TokenKind → Bool) :
    Keeps s (s.recover p stopAt).1.1 (s.recover p stopAt).1.2 := by
  by_cases hc : (stopAt s.current || s.atLineEnd) = true
  · simp only [Cursor.recover, hc, ↓reduceIte]
    exact (Keeps.refl s).report p
  · simp only [Cursor.recover, hc, Bool.false_eq_true, ↓reduceIte]
    exact (keeps_bumpAny (s.report p)).wrap _

theorem keeps_skipLine (s : Cursor) : Keeps s s.skipLine.1.1 s.skipLine.1.2 := by
  fun_induction Cursor.skipLine s with
  | case1 => exact Keeps.refl _
  | case2 s hl hne ts s1 h1 heq1 more s2 h2 heq2 ih =>
    rw [heq2] at ih
    exact keeps_of_bumpAt heq1 ih

theorem keeps_skipNested (s : Cursor) (opened : Nat) :
    Keeps s (s.skipNested opened).1.1 (s.skipNested opened).1.2 := by
  fun_induction Cursor.skipNested s opened with
  | case1 => exact Keeps.refl _
  | case2 => exact Keeps.refl _
  | case3 s opened hl hne k hk opened2 ts s1 h1 heq1 more s2 h2 heq2 ih =>
    rw [heq2] at ih
    exact keeps_of_bumpAt heq1 ih

theorem keeps_skipBlock (s : Cursor) (opened : Nat) :
    Keeps s (s.skipBlock opened).1.1 (s.skipBlock opened).1.2 := by
  fun_induction Cursor.skipBlock s opened with
  | case1 => exact Keeps.refl _
  | case2 => exact Keeps.refl _
  | case3 s opened he hne k isOpener isCloser hk opened2 ts s1 h1 heq1 more s2 h2 heq2 ih =>
    rw [heq2] at ih
    exact keeps_of_bumpAt heq1 ih

theorem keeps_expressionTooDeep (s : Cursor) :
    Keeps s s.expressionTooDeep.1.1 s.expressionTooDeep.1.2 := by
  unfold Cursor.expressionTooDeep
  dsimp only
  exact ((keeps_skipNested { s.report .expressionTooDeep with parenDepth := 0 } 0).counters
    _ _ _).wrap _

theorem keeps_blockTooDeep (s : Cursor) : Keeps s s.blockTooDeep.1.1 s.blockTooDeep.1.2 := by
  unfold Cursor.blockTooDeep
  dsimp only
  exact (keeps_skipBlock (s.report _) 0).wrap _

theorem keeps_expectNewline (s : Cursor) : Keeps s s.expectNewline.1.1 s.expectNewline.1.2 := by
  unfold Cursor.expectNewline
  dsimp only
  split
  · exact keeps_eat s _
  · -- the rest of the line goes into one error node, then the line break
    have h1 := keeps_eat s .newline
    have h2 := keeps_skipLine ((s.eat .newline).1.2.report .expectedNewline)
    have h3 := keeps_eat (skipLine ((s.eat .newline).1.2.report .expectedNewline)).1.2 .newline
    exact (h1.trans (h2.wrap _)).trans h3

theorem keeps_name (s : Cursor) (role : NameRole) : Keeps s (s.name role).1.1 (s.name role).1.2 := by
  unfold Cursor.name Cursor.eat
  by_cases hc : (s.current == .ident && TokenKind.ident != .eof) = true
  · simp only [hc, ↓reduceIte]
    exact (keeps_bumpAny s).wrap _
  · -- nothing was taken when the identifier is missing
    simp only [hc, Bool.false_eq_true, ↓reduceIte]
    exact (Keeps.refl s).report _

theorem keeps_varDecl (s : Cursor) : Keeps s s.varDecl.1.1 s.varDecl.1.2 :=
  ((keeps_bumpAny s).trans (keeps_name _ _)).wrap _

theorem keeps_varOrVarDecl (s : Cursor) (stopAt : TokenKind → Bool) :
    Keeps s (s.varOrVarDecl stopAt).1.1 (s.varOrVarDecl stopAt).1.2 := by
  unfold Cursor.varOrVarDecl
  split
  · exact keeps_varDecl s
  · split
    · exact (keeps_bumpAny s).wrap _
    · exact keeps_recover s _ _

theorem keeps_paramEntries (s : Cursor) : Keeps s s.paramEntries.1.1 s.paramEntries.1.2 := by
  fun_induction Cursor.paramEntries s with
  | case1 => exact Keeps.refl _
  | case2 s hs v s1 h1 heq1 ok c s2 h2 heq2 hp more s3 h3 heq3 ih =>
    have hv := keeps_varOrVarDecl s (· == .rBrace)
    have hc := keeps_eat s1 .comma
    rw [heq1] at hv
    rw [heq2] at hc
    rw [heq3] at ih
    exact (hv.trans hc).trans ih
  | case3 s hs v s1 h1 heq1 ok c s2 h2 heq2 hp =>
    have hv := keeps_varOrVarDecl s (· == .rBrace)
    have hc := keeps_eat s1 .comma
    rw [heq1] at hv
    rw [heq2] at hc
    exact hv.trans hc

theorem keeps_paramList (s : Cursor) : Keeps s s.paramList.1.1 s.paramList.1.2 :=
  (((keeps_bumpAny s).trans (keeps_paramEntries _)).trans (keeps_expect _ _)).wrap _

end Cursor

/-! ## The grammar -/

namespace Grammar

open Cursor

variable {s₀ s : Cursor}

theorem keywordStmt_keeps (s : Cursor) (kind : NodeKind) :
    Keeps s (keywordStmt s kind).1 (keywordStmt s kind).2 :=
  ((keeps_bumpAny s).trans (keeps_expectNewline _)).wrap _

/-- Every function of the grammar, at a given fuel, keeps the tokens it
takes. The chains that extend a left operand are stated after the step that
built it. -/
structure Kept (fuel : Nat) : Prop where
  stmtList : ∀ s, Keeps s (stmtList fuel s).1 (stmtList fuel s).2
  stmtListBody : ∀ s, Keeps s (stmtListBody fuel s).1 (stmtListBody fuel s).2
  statement : ∀ s, Keeps s (statement fuel s).1 (statement fuel s).2
  varDeclStmt : ∀ s, Keeps s (varDeclStmt fuel s).1 (varDeclStmt fuel s).2
  setStmt : ∀ s, Keeps s (setStmt fuel s).1 (setStmt fuel s).2
  letStmt : ∀ s, Keeps s (letStmt fuel s).1 (letStmt fuel s).2
  ifStmt : ∀ s, Keeps s (ifStmt fuel s).1 (ifStmt fuel s).2
  elseChain : ∀ s, Keeps s (elseChain fuel s).1 (elseChain fuel s).2
  whileStmt : ∀ s, Keeps s (whileStmt fuel s).1 (whileStmt fuel s).2
  foreachStmt : ∀ s, Keeps s (foreachStmt fuel s).1 (foreachStmt fuel s).2
  beginOrNested : ∀ s, Keeps s (beginOrNested fuel s).1 (beginOrNested fuel s).2
  beginStmt : ∀ s, Keeps s (beginStmt fuel s).1 (beginStmt fuel s).2
  returnStmt : ∀ s, Keeps s (returnStmt fuel s).1 (returnStmt fuel s).2
  exprStmt : ∀ s, Keeps s (exprStmt fuel s).1 (exprStmt fuel s).2
  expression : ∀ s, Keeps s (expression fuel s).1 (expression fuel s).2
  exprBp : ∀ s min, Keeps s (exprBp fuel s min).1 (exprBp fuel s min).2
  infixChain : ∀ {s₀ s : Cursor} (min : Nat) (lhs : List BareTree), Keeps s₀ lhs s →
    Keeps s₀ (infixChain fuel s min lhs).1 (infixChain fuel s min lhs).2
  unary : ∀ s calls, Keeps s ((unary fuel s calls).1.getD []) (unary fuel s calls).2
  unaryInner : ∀ s calls, Keeps s ((unaryInner fuel s calls).1.getD []) (unaryInner fuel s calls).2
  accessChain : ∀ {s₀ s : Cursor} (lhs : List BareTree) (calls : Bool), Keeps s₀ lhs s →
    Keeps s₀ (accessChain fuel s lhs calls).1 (accessChain fuel s lhs calls).2
  primary : ∀ s calls, Keeps s ((primary fuel s calls).1.getD []) (primary fuel s calls).2
  nameRefOrCall : ∀ s calls, Keeps s (nameRefOrCall fuel s calls).1 (nameRefOrCall fuel s calls).2
  parenArgs : ∀ s, Keeps s (parenArgs fuel s).1 (parenArgs fuel s).2
  parenArgItems : ∀ s, Keeps s (parenArgItems fuel s).1 (parenArgItems fuel s).2
  bareArgs : ∀ s, Keeps s (bareArgs fuel s).1 (bareArgs fuel s).2
  argSequence : ∀ s afterComma, Keeps s (argSequence fuel s afterComma).1 (argSequence fuel s afterComma).2
  lambda : ∀ s, Keeps s (lambda fuel s).1 (lambda fuel s).2

/-- With no fuel left every function builds nothing and stays where it is. -/
theorem kept_zero : Kept 0 := by
  constructor <;> intros <;>
    simp only [stmtList, stmtListBody, statement, varDeclStmt, setStmt, letStmt, ifStmt,
      elseChain, whileStmt, foreachStmt, beginOrNested, beginStmt, returnStmt, exprStmt,
      expression, exprBp, infixChain, unary, unaryInner, accessChain, primary, nameRefOrCall,
      parenArgs, parenArgItems, bareArgs, argSequence, lambda, Option.getD_none] <;>
    first | assumption | exact Keeps.refl _

section Unfold

variable {fuel : Nat} (ih : Kept fuel)
include ih

theorem stmtList_keeps (s : Cursor) : Keeps s (stmtList (fuel + 1) s).1 (stmtList (fuel + 1) s).2 := by
  rw [stmtList]
  split
  · split; rename_i err s1 e1
    exact ((keeps_blockTooDeep s).of_eq e1).wrap _
  · split; rename_i body s1 e1
    exact (((ih.stmtListBody _).of_eq e1).counters _ _ _).wrap _

theorem stmtListBody_keeps (s : Cursor) :
    Keeps s (stmtListBody (fuel + 1) s).1 (stmtListBody (fuel + 1) s).2 := by
  rw [stmtListBody]
  split
  · exact Keeps.refl _
  split; rename_i item s1 e1
  have h1 : Keeps s item s1 := by
    refine Keeps.of_eq ?_ e1
    split_ifs
    · split; rename_i u nl s1 e
      exact (keeps_eat s _).of_eq_snd e
    · exact ih.statement s
  split; rename_i more s2 e2
  exact h1.trans ((ih.stmtListBody s1).of_eq e2)

theorem statement_keeps (s : Cursor) : Keeps s (statement (fuel + 1) s).1 (statement (fuel + 1) s).2 := by
  rw [statement]
  -- one branch per leading keyword, taken without bringing the tests into the context
  exact Keeps.ite (fun _ => ih.setStmt s) fun _ => Keeps.ite (fun _ => ih.letStmt s) fun _ =>
    Keeps.ite (fun _ => ih.ifStmt s) fun _ => Keeps.ite (fun _ => ih.whileStmt s) fun _ =>
    Keeps.ite (fun _ => ih.foreachStmt s) fun _ => Keeps.ite (fun _ => ih.beginOrNested s) fun _ =>
    Keeps.ite (fun _ => ih.returnStmt s) fun _ => Keeps.ite (fun _ => keywordStmt_keeps s _)
    fun _ => Keeps.ite (fun _ => keywordStmt_keeps s _) fun _ =>
    Keeps.ite (fun _ => ih.varDeclStmt s) fun _ => ih.exprStmt s

theorem varDeclStmt_keeps (s : Cursor) :
    Keeps s (varDeclStmt (fuel + 1) s).1 (varDeclStmt (fuel + 1) s).2 := by
  rw [varDeclStmt]
  split; rename_i decl s1 e1
  have h1 := (keeps_varDecl s).of_eq e1
  split; rename_i ok op s2 e2
  have h2 := (keeps_eat s1 _).of_eq_snd e2
  split; rename_i init s3 e3
  have h3 := (Keeps.ite (fun _ => ih.expression s2) (fun _ => Keeps.refl s2)).of_eq e3
  split; rename_i nl s4 e4
  exact (((h1.trans h2).trans h3).trans ((keeps_expectNewline s3).of_eq e4)).wrap _

theorem setStmt_keeps (s : Cursor) : Keeps s (setStmt (fuel + 1) s).1 (setStmt (fuel + 1) s).2 := by
  rw [setStmt]
  split; rename_i kw s1 e1
  have h1 := (keeps_bumpAny s).of_eq e1
  split; rename_i target s2 e2
  have h2 := (ih.expression s1).of_eq e2
  split; rename_i ok toKw s3 e3
  have h3 := (keeps_expect s2 _).of_eq_snd e3
  split; rename_i value s4 e4
  have h4 := (Keeps.ite (fun _ => ih.expression s3) (fun _ => Keeps.refl s3)).of_eq e4
  split; rename_i nl s5 e5
  exact ((((h1.trans h2).trans h3).trans h4).trans ((keeps_expectNewline s4).of_eq e5)).wrap _

theorem letStmt_keeps (s : Cursor) : Keeps s (letStmt (fuel + 1) s).1 (letStmt (fuel + 1) s).2 := by
  rw [letStmt]
  split; rename_i kw s1 e1
  have h1 := (keeps_bumpAny s).of_eq e1
  split; rename_i e s2 e2
  have h2 := (ih.expression s1).of_eq e2
  split; rename_i nl s3 e3
  exact ((h1.trans h2).trans ((keeps_expectNewline s2).of_eq e3)).wrap _

theorem ifStmt_keeps (s : Cursor) : Keeps s (ifStmt (fuel + 1) s).1 (ifStmt (fuel + 1) s).2 := by
  rw [ifStmt]
  split; rename_i kw s1 e1
  have h1 := (keeps_bumpAny s).of_eq e1
  split; rename_i cond s2 e2
  have h2 := (ih.expression s1).of_eq e2
  split; rename_i nl s3 e3
  have h3 := (keeps_expectNewline s2).of_eq e3
  split; rename_i body s4 e4
  have h4 := (ih.stmtList s3).of_eq e4
  split; rename_i branch s5 e5
  have h5 := (ih.elseChain s4).of_eq e5
  split; rename_i ok endif s6 e6
  have h6 := (keeps_expect s5 _).of_eq_snd e6
  split; rename_i nl2 s7 e7
  have h7 := (Keeps.ite (fun _ => keeps_expectNewline s6) (fun _ => Keeps.refl s6)).of_eq e7
  exact ((((((h1.trans h2).trans h3).trans h4).trans h5).trans h6).trans h7).wrap _

theorem elseChain_keeps (s : Cursor) : Keeps s (elseChain (fuel + 1) s).1 (elseChain (fuel + 1) s).2 := by
  rw [elseChain]
  split_ifs
  · split; rename_i kw s1 e1
    have h1 := (keeps_bumpAny s).of_eq e1
    split; rename_i cond s2 e2
    have h2 := (ih.expression s1).of_eq e2
    split; rename_i nl s3 e3
    have h3 := (keeps_expectNewline s2).of_eq e3
    split; rename_i body s4 e4
    have h4 := (ih.stmtList s3).of_eq e4
    split; rename_i next s5 e5
    exact ((((h1.trans h2).trans h3).trans h4).trans ((ih.elseChain s4).of_eq e5)).wrap _
  · split; rename_i kw s1 e1
    have h1 := (keeps_bumpAny s).of_eq e1
    split; rename_i nl s2 e2
    have h2 := (keeps_expectNewline s1).of_eq e2
    split; rename_i body s3 e3
    exact ((h1.trans h2).trans ((ih.stmtList s2).of_eq e3)).wrap _
  · exact Keeps.refl _

theorem whileStmt_keeps (s : Cursor) : Keeps s (whileStmt (fuel + 1) s).1 (whileStmt (fuel + 1) s).2 := by
  rw [whileStmt]
  split; rename_i kw s1 e1
  have h1 := (keeps_bumpAny s).of_eq e1
  split; rename_i cond s2 e2
  have h2 := (ih.expression s1).of_eq e2
  split; rename_i nl s3 e3
  have h3 := (keeps_expectNewline s2).of_eq e3
  split; rename_i body s4 e4
  have h4 := (ih.stmtList s3).of_eq e4
  split; rename_i ok lp s5 e5
  have h5 := (keeps_expect s4 _).of_eq_snd e5
  split; rename_i nl2 s6 e6
  have h6 := (Keeps.ite (fun _ => keeps_expectNewline s5) (fun _ => Keeps.refl s5)).of_eq e6
  exact (((((h1.trans h2).trans h3).trans h4).trans h5).trans h6).wrap _

theorem foreachStmt_keeps (s : Cursor) :
    Keeps s (foreachStmt (fuel + 1) s).1 (foreachStmt (fuel + 1) s).2 := by
  rw [foreachStmt]
  split; rename_i kw s1 e1
  have h1 := (keeps_bumpAny s).of_eq e1
  split; rename_i var s2 e2
  have h2 := (keeps_varOrVarDecl s1 _).of_eq e2
  split; rename_i ok arrow s3 e3
  have h3 := (keeps_expect s2 _).of_eq_snd e3
  split; rename_i iter s4 e4
  have h4 := (Keeps.ite (fun _ => ih.expression s3) (fun _ => Keeps.refl s3)).of_eq e4
  split; rename_i nl s5 e5
  have h5 := (keeps_expectNewline s4).of_eq e5
  split; rename_i body s6 e6
  have h6 := (ih.stmtList s5).of_eq e6
  split; rename_i ok2 lp s7 e7
  have h7 := (keeps_expect s6 _).of_eq_snd e7
  split; rename_i nl2 s8 e8
  have h8 := (Keeps.ite (fun _ => keeps_expectNewline s7) (fun _ => Keeps.refl s7)).of_eq e8
  exact (((((((h1.trans h2).trans h3).trans h4).trans h5).trans h6).trans h7).trans h8).wrap _

theorem beginOrNested_keeps (s : Cursor) :
    Keeps s (beginOrNested (fuel + 1) s).1 (beginOrNested (fuel + 1) s).2 := by
  rw [beginOrNested]
  split
  · exact ih.beginStmt s
  · split; rename_i blk s1 e1
    exact ((ih.beginStmt (s.report _)).of_eq e1).wrap _

theorem beginStmt_keeps (s : Cursor) : Keeps s (beginStmt (fuel + 1) s).1 (beginStmt (fuel + 1) s).2 := by
  rw [beginStmt]
  split; rename_i kw s1 e1
  have h1 := (keeps_bumpAny s).of_eq e1
  split; rename_i ty s2 e2
  have h2 := (keeps_name s1 _).of_eq e2
  split; rename_i extra s3 e3
  have h3 := (Keeps.ite (fun _ => keeps_paramList s2)
    (fun _ => Keeps.ite (fun _ => ih.bareArgs s2) (fun _ => Keeps.refl s2))).of_eq e3
  split; rename_i nl s4 e4
  have h4 := (keeps_expectNewline s3).of_eq e4
  split; rename_i body s5 e5
  have h5 := (ih.stmtList { s4 with beginDepth := s4.beginDepth + 1 }).of_eq e5
  split; rename_i ok e s6 e6
  have h6 := (keeps_expect { s5 with beginDepth := s5.beginDepth - 1 } _).of_eq_snd e6
  split; rename_i nl2 s7 e7
  have h7 := (Keeps.ite (fun _ => keeps_expectNewline s6) (fun _ => Keeps.refl s6)).of_eq e7
  exact ((((((h1.trans h2).trans h3).trans h4).trans h5).trans h6).trans h7).wrap _

theorem returnStmt_keeps (s : Cursor) :
    Keeps s (returnStmt (fuel + 1) s).1 (returnStmt (fuel + 1) s).2 := by
  rw [returnStmt]
  split; rename_i kw s1 e1
  have h1 := (keeps_bumpAny s).of_eq e1
  split; rename_i e s2 e2
  have h2 := (Keeps.ite (fun _ => ih.expression s1) (fun _ => Keeps.refl s1)).of_eq e2
  split; rename_i nl s3 e3
  exact ((h1.trans h2).trans ((keeps_expectNewline s2).of_eq e3)).wrap _

theorem exprStmt_keeps (s : Cursor) : Keeps s (exprStmt (fuel + 1) s).1 (exprStmt (fuel + 1) s).2 := by
  rw [exprStmt]
  split; rename_i e s1 e1
  have h1 := (ih.expression s).of_eq e1
  split; rename_i nl s2 e2
  exact (h1.trans ((keeps_expectNewline s1).of_eq e2)).wrap _

theorem expression_keeps (s : Cursor) :
    Keeps s (expression (fuel + 1) s).1 (expression (fuel + 1) s).2 := by
  rw [expression]
  exact ih.exprBp s 0

theorem exprBp_keeps (s : Cursor) (min : Nat) :
    Keeps s (exprBp (fuel + 1) s min).1 (exprBp (fuel + 1) s min).2 := by
  rw [exprBp]
  split; rename_i lhs? s1 e1
  have h1 := (ih.unary s true).of_eq_getD e1
  split
  · exact h1
  · split; rename_i e s2 e2
    exact ((ih.infixChain min _ h1).of_eq e2).counters _ _ _

theorem infixChain_keeps (min : Nat) (lhs : List BareTree) (h : Keeps s₀ lhs s) :
    Keeps s₀ (infixChain (fuel + 1) s min lhs).1 (infixChain (fuel + 1) s min lhs).2 := by
  rw [infixChain]
  split
  · exact h
  split_ifs
  · exact h
  · split; rename_i err s1 e1
    exact h.trans ((keeps_expressionTooDeep s).of_eq e1)
  · -- the operator and its right operand join the left operand in one node
    split; rename_i op s1 e1
    have h1 := (keeps_bumpAny { s with nesting := s.nesting + 1 }).of_eq e1
    split; rename_i rhs s2 e2
    have h2 := (ih.exprBp s1 _).of_eq e2
    exact ih.infixChain min _ (((h.trans h1).trans h2).wrap _)

theorem unary_keeps (s : Cursor) (calls : Bool) :
    Keeps s ((unary (fuel + 1) s calls).1.getD []) (unary (fuel + 1) s calls).2 := by
  rw [unary]
  split
  · split; rename_i err s1 e1
    exact (keeps_expressionTooDeep s).of_eq e1
  · split; rename_i e s1 e1
    exact ((ih.unaryInner { s with nesting := s.nesting + 1 } calls).of_eq_getD e1).counters _ _ _

theorem unaryInner_keeps (s : Cursor) (calls : Bool) :
    Keeps s ((unaryInner (fuel + 1) s calls).1.getD []) (unaryInner (fuel + 1) s calls).2 := by
  rw [unaryInner]
  split
  · split; rename_i op s1 e1
    have h1 := (keeps_bumpAny s).of_eq e1
    split; rename_i inner s2 e2
    have h2 : Keeps s1 inner s2 := by
      refine (Keeps.ite (fun _ => ih.exprBp s1 _) (fun _ => ?_)).of_eq e2
      split; rename_i e s3 e3
      exact (ih.unary s1 false).of_eq_getD e3
    exact (h1.trans h2).wrap _
  · split; rename_i p? s1 e1
    have h1 := (ih.primary s calls).of_eq_getD e1
    split
    · exact h1
    · split; rename_i e s2 e2
      exact ((ih.accessChain _ calls h1).of_eq e2).counters _ _ _

theorem accessChain_keeps (lhs : List BareTree) (calls : Bool) (h : Keeps s₀ lhs s) :
    Keeps s₀ (accessChain (fuel + 1) s lhs calls).1 (accessChain (fuel + 1) s lhs calls).2 := by
  rw [accessChain]
  split_ifs
  · split; rename_i err s1 e1
    exact h.trans ((keeps_expressionTooDeep s).of_eq e1)
  · -- a member: the operator and the name join the operand in one node
    split; rename_i op s1 e1
    have h1 := (keeps_bumpAny { s with nesting := s.nesting + 1 }).of_eq e1
    split; rename_i m s2 e2
    have h2 := (Keeps.ite (fun _ => ih.nameRefOrCall s1 calls)
      (fun _ => (Keeps.refl s1).report _)).of_eq e2
    exact ih.accessChain _ calls (((h.trans h1).trans h2).wrap _)
  · -- an index
    split; rename_i lb s1 e1
    have h1 := (keeps_bumpAny { s with nesting := s.nesting + 1 }).of_eq e1
    split; rename_i idx s2 e2
    have h2 := (ih.expression s1).of_eq e2
    split; rename_i ok rb s3 e3
    have h3 := (keeps_expect s2 _).of_eq_snd e3
    exact ih.accessChain _ calls ((((h.trans h1).trans h2).trans h3).wrap _)
  · exact h.counters _ _ _

theorem primary_keeps (s : Cursor) (calls : Bool) :
    Keeps s ((primary (fuel + 1) s calls).1.getD []) (primary (fuel + 1) s calls).2 := by
  rw [primary]
  split_ifs
  · split; rename_i e s1 e1
    exact (ih.nameRefOrCall s calls).of_eq e1
  · split; rename_i e s1 e1
    exact (ih.lambda s).of_eq e1
  · split; rename_i lp s1 e1
    have h1 := (keeps_bumpAny { s with parenDepth := s.parenDepth + 1 }).of_eq e1
    split; rename_i e s2 e2
    have h2 := (ih.expression s1).of_eq e2
    split; rename_i ok rp s3 e3
    have h3 := (keeps_expect { s2 with parenDepth := s2.parenDepth - 1 } _).of_eq_snd e3
    exact ((h1.trans h2).trans h3).wrap _
  · split; rename_i t s1 e1
    exact ((keeps_bumpAny s).of_eq e1).wrap _
  · exact (Keeps.refl s).report _
  · split; rename_i t s1 e1
    exact ((keeps_bumpAny (s.report _)).of_eq e1).wrap _

theorem nameRefOrCall_keeps (s : Cursor) (calls : Bool) :
    Keeps s (nameRefOrCall (fuel + 1) s calls).1 (nameRefOrCall (fuel + 1) s calls).2 := by
  rw [nameRefOrCall]
  split; rename_i id s1 e1
  have h1 := (keeps_bumpAny s).of_eq e1
  dsimp only
  split_ifs
  · exact h1.wrap _
  · exact (h1.wrap _).trans ((ih.parenArgs s1).wrap _) |>.wrap _
  · exact (h1.wrap _).trans ((ih.argSequence s1 false).wrap _) |>.wrap _

theorem parenArgs_keeps (s : Cursor) : Keeps s (parenArgs (fuel + 1) s).1 (parenArgs (fuel + 1) s).2 := by
  rw [parenArgs]
  split; rename_i lp s1 e1
  have h1 := (keeps_bumpAny { s with parenDepth := s.parenDepth + 1 }).of_eq e1
  split; rename_i items s2 e2
  have h2 := (ih.parenArgItems s1).of_eq e2
  split; rename_i ok rp s3 e3
  exact (h1.trans h2).trans ((keeps_expect { s2 with parenDepth := s2.parenDepth - 1 } _).of_eq_snd e3)

theorem parenArgItems_keeps (s : Cursor) :
    Keeps s (parenArgItems (fuel + 1) s).1 (parenArgItems (fuel + 1) s).2 := by
  rw [parenArgItems]
  split
  · exact Keeps.refl _
  split; rename_i item s1 e1
  have h1 := (Keeps.ite (fun _ => ih.expression s) (fun _ => keeps_recover s _ _)).of_eq e1
  split; rename_i ok c s2 e2
  have h2 := (keeps_eat s1 _).of_eq_snd e2
  split; rename_i more s3 e3
  exact (h1.trans h2).trans ((ih.parenArgItems s2).of_eq e3)

theorem bareArgs_keeps (s : Cursor) : Keeps s (bareArgs (fuel + 1) s).1 (bareArgs (fuel + 1) s).2 := by
  rw [bareArgs]
  split; rename_i args s1 e1
  exact ((ih.argSequence s false).of_eq e1).wrap _

theorem argSequence_keeps (s : Cursor) (afterComma : Bool) :
    Keeps s (argSequence (fuel + 1) s afterComma).1 (argSequence (fuel + 1) s afterComma).2 := by
  rw [argSequence]
  split
  · split; rename_i a s1 e1
    have h1 := (ih.unary s false).of_eq_getD e1
    split; rename_i comma c s2 e2
    have h2 := (keeps_eat s1 _).of_eq_snd e2
    split; rename_i more s3 e3
    exact (h1.trans h2).trans ((ih.argSequence s2 comma).of_eq e3)
  · exact Keeps.refl _

theorem lambda_keeps (s : Cursor) : Keeps s (lambda (fuel + 1) s).1 (lambda (fuel + 1) s).2 := by
  rw [lambda]
  split; rename_i lp s1 e1
  have h1 := (keeps_bumpAny { s with parenDepth := 0 }).of_eq e1
  split; rename_i kw s2 e2
  have h2 := (keeps_bumpAny s1).of_eq e2
  split; rename_i ty s3 e3
  have h3 := (keeps_name s2 _).of_eq e3
  split; rename_i params s4 e4
  have h4 := (Keeps.ite (fun _ => keeps_paramList s3) (fun _ => Keeps.refl s3)).of_eq e4
  split; rename_i nl s5 e5
  have h5 := (keeps_expectNewline s4).of_eq e5
  split; rename_i body s6 e6
  have h6 := (ih.stmtList { s5 with beginDepth := s5.beginDepth + 1 }).of_eq e6
  split; rename_i ok e s7 e7
  have h7 := (keeps_expect { s6 with beginDepth := s6.beginDepth - 1 } _).of_eq_snd e7
  split; rename_i ok2 rp s8 e8
  have h8 := (keeps_expect { s7 with parenDepth := s.parenDepth } _).of_eq_snd e8
  exact (((((((h1.trans h2).trans h3).trans h4).trans h5).trans h6).trans h7).trans h8).wrap _

/-- The functions at `fuel + 1` keep their tokens when the ones at `fuel` do. -/
theorem kept_succ : Kept (fuel + 1) where
  stmtList := stmtList_keeps ih
  stmtListBody := stmtListBody_keeps ih
  statement := statement_keeps ih
  varDeclStmt := varDeclStmt_keeps ih
  setStmt := setStmt_keeps ih
  letStmt := letStmt_keeps ih
  ifStmt := ifStmt_keeps ih
  elseChain := elseChain_keeps ih
  whileStmt := whileStmt_keeps ih
  foreachStmt := foreachStmt_keeps ih
  beginOrNested := beginOrNested_keeps ih
  beginStmt := beginStmt_keeps ih
  returnStmt := returnStmt_keeps ih
  exprStmt := exprStmt_keeps ih
  expression := expression_keeps ih
  exprBp := exprBp_keeps ih
  infixChain := infixChain_keeps ih
  unary := unary_keeps ih
  unaryInner := unaryInner_keeps ih
  accessChain := accessChain_keeps ih
  primary := primary_keeps ih
  nameRefOrCall := nameRefOrCall_keeps ih
  parenArgs := parenArgs_keeps ih
  parenArgItems := parenArgItems_keeps ih
  bareArgs := bareArgs_keeps ih
  argSequence := argSequence_keeps ih
  lambda := lambda_keeps ih

end Unfold

/-- Every function of the grammar, at every fuel, keeps the tokens it takes. -/
theorem kept : ∀ fuel, Kept fuel
  | 0 => kept_zero
  | fuel + 1 => kept_succ (kept fuel)

/-! ## The top level -/

theorem scriptNameDecl_keeps (s : Cursor) : Keeps s (scriptNameDecl s).1 (scriptNameDecl s).2 :=
  (((keeps_bumpAny s).trans (keeps_name _ _)).trans (keeps_expectNewline _)).wrap _

theorem topLevel_keeps (fuel : Nat) (s : Cursor) : Keeps s (topLevel fuel s).1 (topLevel fuel s).2 := by
  induction fuel generalizing s with
  | zero =>
    rw [topLevel]
    exact Keeps.refl _
  | succ fuel ihf =>
    rw [topLevel]
    split
    · exact Keeps.refl _
    split; rename_i item s1 e1
    have h1 : Keeps s item s1 := by
      refine Keeps.of_eq ?_ e1
      split_ifs
      · split; rename_i u nl s1 e
        exact (keeps_eat s _).of_eq_snd e
      · exact scriptNameDecl_keeps (s.report _)
      · exact keeps_recover s _ _
      · exact (kept fuel).statement s
      · exact (kept fuel).statement (s.report _)
    split; rename_i more s2 e2
    exact h1.trans ((ihf s1).of_eq e2)

/-- The bare tree of a script holds, as its leaves and in order, the kinds
of the tokens the parse took; the tokens it left follow them. -/
theorem script_keeps (fuel : Nat) (s : Cursor) :
    (script fuel s).1.kinds ++ (script fuel s).2.rest.map (·.kind) = s.rest.map (·.kind) := by
  rw [script]
  split; rename_i blank s1 e1
  have h1 := (keeps_eatLineBreaks s).of_eq e1
  split; rename_i decl s2 e2
  have h2 := (Keeps.ite (fun _ => scriptNameDecl_keeps s1) (fun _ => (Keeps.refl s1).report _)).of_eq e2
  split; rename_i items s3 e3
  have h := ((h1.trans h2).trans ((topLevel_keeps fuel s2).of_eq e3)).wrap .script
  simpa [Keeps] using h

end Grammar

end GameScript
