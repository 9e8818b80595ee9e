import Mathlib
import GameScript.Proofs.Progress
/-!
# The parse never runs out of fuel

The grammar's functions take fuel, one unit per call, and stop where they
are when it is gone. This file proves that `Grammar.fuelFor` is enough: the
fuel given to a parse can be raised by any amount and the result stays the
same, so the fuel bound never cuts a parse short.

The argument is a measure. Each function has a rank, from 9 for a statement
list down to 0 for the forms that take their first token at once, and at a
cursor with `n` tokens left it needs `32 * n` plus its rank
(`Grammar.need`). A call either goes to a function of lower rank at a cursor
with no fewer tokens, or it comes after the caller took a token, which pays
for any rank up to 31 above its own. The loops are of the second kind by the
progress lemmas of `GameScript.Proofs.Progress`. With that, one unfolding of
every function at `fuel + 1` gives the same result as at `fuel` whenever
`fuel` covers its need (`Grammar.Enough`), by induction on the fuel, and the
top level, which takes a token at each item, follows by its own induction.
-/

set_option autoImplicit false

namespace GameScript

namespace Grammar

open Cursor

variable {fuel : Nat} {s : Cursor}

/-! ## Enough fuel -/

/-- The fuel a function of rank `r` needs at a cursor: 32 for each token left,
and its rank. -/
def need (r : Nat) (s : Cursor) : Nat := 32 * s.rest.length + r

/-- A call after a token was taken: the callee's rank may be up to 31 above. -/
theorem need_le_step {r r' : Nat} {x : Cursor} (hx : x.rest.length < s.rest.length)
    (hr : r' ≤ r + 31) (h : need r s ≤ fuel + 1) : need r' x ≤ fuel := by
  unfold need at *
  omega

/-- A call with no token taken: the callee's rank is lower. -/
theorem need_le_down {r r' : Nat} {x : Cursor} (hx : x.rest.length ≤ s.rest.length)
    (hr : r' < r) (h : need r s ≤ fuel + 1) : need r' x ≤ fuel := by
  unfold need at *
  omega

/-- Where a token is left, the need covers a few calls. -/
theorem le_of_need {r : Nat} (hr : s.rest ≠ []) (h : need r s ≤ fuel + 1) : 31 + r ≤ fuel := by
  have := List.length_pos_of_ne_nil hr
  unfold need at h
  omega

@[simp] theorem need_report (r : Nat) (s : Cursor) (p : SyntaxProblem) :
    need r (s.report p) = need r s := by
  simp only [need, report_rest]

/-- A run of moves leaves no more need than its start. -/
theorem need_le_of_reach {r : Nat} {x : Cursor} (h : Reach s x) : need r x ≤ need r s := by
  have := h.length_le
  unfold need
  omega

/-- At `fuel`, one more unit changes no function's result where `fuel`
covers its need. The statement forms, calls and lambdas are asked this only
where a token is left, which they take first. -/
structure Enough (fuel : Nat) : Prop where
  stmtList : ∀ s, need 9 s ≤ fuel → stmtList (fuel + 1) s = stmtList fuel s
  stmtListBody : ∀ s, need 8 s ≤ fuel → stmtListBody (fuel + 1) s = stmtListBody fuel s
  statement : ∀ s, need 7 s ≤ fuel → statement (fuel + 1) s = statement fuel s
  varDeclStmt : ∀ s, s.rest ≠ [] → need 0 s ≤ fuel → varDeclStmt (fuel + 1) s = varDeclStmt fuel s
  setStmt : ∀ s, s.rest ≠ [] → need 0 s ≤ fuel → setStmt (fuel + 1) s = setStmt fuel s
  letStmt : ∀ s, s.rest ≠ [] → need 0 s ≤ fuel → letStmt (fuel + 1) s = letStmt fuel s
  ifStmt : ∀ s, s.rest ≠ [] → need 0 s ≤ fuel → ifStmt (fuel + 1) s = ifStmt fuel s
  elseChain : ∀ s, need 0 s ≤ fuel → elseChain (fuel + 1) s = elseChain fuel s
  whileStmt : ∀ s, s.rest ≠ [] → need 0 s ≤ fuel → whileStmt (fuel + 1) s = whileStmt fuel s
  foreachStmt : ∀ s, s.rest ≠ [] → need 0 s ≤ fuel → foreachStmt (fuel + 1) s = foreachStmt fuel s
  beginOrNested : ∀ s, s.rest ≠ [] → need 1 s ≤ fuel →
    beginOrNested (fuel + 1) s = beginOrNested fuel s
  beginStmt : ∀ s, s.rest ≠ [] → need 0 s ≤ fuel → beginStmt (fuel + 1) s = beginStmt fuel s
  returnStmt : ∀ s, s.rest ≠ [] → need 0 s ≤ fuel → returnStmt (fuel + 1) s = returnStmt fuel s
  exprStmt : ∀ s, need 6 s ≤ fuel → exprStmt (fuel + 1) s = exprStmt fuel s
  expression : ∀ s, need 5 s ≤ fuel → expression (fuel + 1) s = expression fuel s
  exprBp : ∀ s min, need 4 s ≤ fuel → exprBp (fuel + 1) s min = exprBp fuel s min
  infixChain : ∀ s min lhs, need 0 s ≤ fuel → infixChain (fuel + 1) s min lhs = infixChain fuel s min lhs
  unary : ∀ s calls, need 3 s ≤ fuel → unary (fuel + 1) s calls = unary fuel s calls
  unaryInner : ∀ s calls, need 2 s ≤ fuel → unaryInner (fuel + 1) s calls = unaryInner fuel s calls
  accessChain : ∀ s lhs calls, need 1 s ≤ fuel →
    accessChain (fuel + 1) s lhs calls = accessChain fuel s lhs calls
  primary : ∀ s calls, need 1 s ≤ fuel → primary (fuel + 1) s calls = primary fuel s calls
  nameRefOrCall : ∀ s calls, s.rest ≠ [] → need 0 s ≤ fuel →
    nameRefOrCall (fuel + 1) s calls = nameRefOrCall fuel s calls
  parenArgs : ∀ s, need 7 s ≤ fuel → parenArgs (fuel + 1) s = parenArgs fuel s
  parenArgItems : ∀ s, need 6 s ≤ fuel → parenArgItems (fuel + 1) s = parenArgItems fuel s
  bareArgs : ∀ s, need 5 s ≤ fuel → bareArgs (fuel + 1) s = bareArgs fuel s
  argSequence : ∀ s afterComma, need 4 s ≤ fuel →
    argSequence (fuel + 1) s afterComma = argSequence fuel s afterComma
  lambda : ∀ s, s.rest ≠ [] → need 0 s ≤ fuel → lambda (fuel + 1) s = lambda fuel s

/-- Nothing needs less than one unit where a token is left, or than its rank:
at no fuel, only the ranks 0 at the end of input are asked, and there the
functions stop at once. -/
theorem enough_zero : Enough 0 := by
  have hnil : ∀ {r : Nat} {s : Cursor}, need r s ≤ 0 → s.rest = [] ∧ r = 0 := by
    intro r s h
    unfold need at h
    exact ⟨List.eq_nil_of_length_eq_zero (by omega), by omega⟩
  have hne : ∀ {r : Nat} {s : Cursor}, s.rest ≠ [] → ¬ need r s ≤ 0 := fun hr h =>
    hr (hnil h).1
  have hpos : ∀ {r : Nat} {s : Cursor}, 0 < r → ¬ need r s ≤ 0 := fun hr h => by
    have := (hnil h).2
    omega
  have heof : ∀ {s : Cursor}, s.rest = [] → s.current = .eof := fun h => by simp [current, h]
  constructor
  all_goals first
    | intro s hr h; exact absurd h (hne hr)
    | intro s _ hr h; exact absurd h (hne hr)
    | intro s h; exact absurd h (hpos (Nat.zero_lt_succ _))
    | intro s _ h; exact absurd h (hpos (Nat.zero_lt_succ _))
    | intro s _ _ h; exact absurd h (hpos (Nat.zero_lt_succ _))
    | skip
  · -- `elseChain` at the end of input
    intro s h
    rw [elseChain.eq_2, elseChain.eq_1, heof (hnil h).1]
    rfl
  · -- `infixChain` at the end of input
    intro s min lhs h
    rw [infixChain.eq_2, infixChain.eq_1, heof (hnil h).1]
    rfl

/-! ## One unfolding

Each function at `fuel + 2` against `fuel + 1`: both unfold into the same
steps, with calls at `fuel + 1` and at `fuel`, equal by `Enough fuel` where
the callee's need is covered. The bodies are split in step; after each call
the cursor it left is reached from the one before, which bounds its tokens. -/

section Step

variable (ih : Enough fuel)
include ih

theorem stmtList_enough (s : Cursor) (h : need 9 s ≤ fuel + 1) :
    stmtList (fuel + 2) s = stmtList (fuel + 1) s := by
  rw [stmtList.eq_2 s (fuel + 1), stmtList.eq_2 s fuel]
  split_ifs
  · rfl
  · rw [ih.stmtListBody { s with nesting := s.nesting + 1 } (need_le_down le_rfl (by norm_num) h)]

theorem stmtListBody_enough (s : Cursor) (h : need 8 s ≤ fuel + 1) :
    stmtListBody (fuel + 2) s = stmtListBody (fuel + 1) s := by
  rw [stmtListBody.eq_2 s (fuel + 1), stmtListBody.eq_2 s fuel]
  split_ifs with hend hnl
  · rfl
  · -- a blank line: its line break is taken
    split; rename_i item s1 e1
    have hs1 : (s.eat .newline).1.2 = s1 := congrArg Prod.snd e1
    have hlt : s1.rest.length < s.rest.length := by
      rw [← hs1]
      exact eat_lt (by simpa using hnl) (by decide)
    rw [ih.stmtListBody s1 (need_le_step hlt (by norm_num) h)]
  · -- a statement, which takes a token
    have heof : s.current ≠ .eof := fun he => by simp [atEnd, he] at hend
    rw [ih.statement s (need_le_down le_rfl (by norm_num) h)]
    split; rename_i item s1 e1
    have hlt := lt_of_eq (statement_lt_of_le (by have := le_of_need (rest_ne_nil_of_ne heof) h; omega) heof) e1
    rw [ih.stmtListBody s1 (need_le_step hlt (by norm_num) h)]

theorem statement_enough (s : Cursor) (h : need 7 s ≤ fuel + 1) :
    statement (fuel + 2) s = statement (fuel + 1) s := by
  have hr : ∀ {k : TokenKind}, (s.current == k) = true → k ≠ .eof → s.rest ≠ [] :=
    fun hk hne => rest_ne_nil (eq_of_beq hk) hne
  have hd : ∀ {r : Nat}, r < 7 → need r s ≤ fuel := fun hr => need_le_down le_rfl hr h
  rw [statement.eq_2 s (fuel + 1), statement.eq_2 s fuel]
  -- the same dispatch on both sides; each form is called where its keyword is
  refine ite_congr rfl (fun hk => ih.setStmt s (hr hk (by decide)) (hd (by norm_num))) fun _ => ?_
  refine ite_congr rfl (fun hk => ih.letStmt s (hr hk (by decide)) (hd (by norm_num))) fun _ => ?_
  refine ite_congr rfl (fun hk => ih.ifStmt s (hr hk (by decide)) (hd (by norm_num))) fun _ => ?_
  refine ite_congr rfl (fun hk => ih.whileStmt s (hr hk (by decide)) (hd (by norm_num))) fun _ => ?_
  refine ite_congr rfl (fun hk => ih.foreachStmt s (hr hk (by decide)) (hd (by norm_num)))
    fun _ => ?_
  refine ite_congr rfl (fun hk => ih.beginOrNested s (hr hk (by decide)) (hd (by norm_num)))
    fun _ => ?_
  refine ite_congr rfl (fun hk => ih.returnStmt s (hr hk (by decide)) (hd (by norm_num)))
    fun _ => ?_
  refine ite_congr rfl (fun _ => rfl) fun _ => ?_
  refine ite_congr rfl (fun _ => rfl) fun _ => ?_
  refine ite_congr rfl (fun htype => ?_) fun _ => ih.exprStmt s (hd (by norm_num))
  have heof : s.current ≠ .eof := fun he => by simp [he, TokenKind.isType] at htype
  exact ih.varDeclStmt s (rest_ne_nil_of_ne heof) (hd (by norm_num))

theorem varDeclStmt_enough (s : Cursor) (hr : s.rest ≠ []) (h : need 0 s ≤ fuel + 1) :
    varDeclStmt (fuel + 2) s = varDeclStmt (fuel + 1) s := by
  rw [varDeclStmt.eq_2 s (fuel + 1), varDeclStmt.eq_2 s fuel]
  split; rename_i decl s1 e1
  have hlt := lt_of_eq (varDecl_lt hr) e1
  split; rename_i ok op s2 e2
  have r2 := ((Reach.refl s1).eat _).of_eq e2
  rw [ih.expression s2 (need_le_step (r2.lt_of_lt hlt) (by norm_num) h)]

theorem setStmt_enough (s : Cursor) (hr : s.rest ≠ []) (h : need 0 s ≤ fuel + 1) :
    setStmt (fuel + 2) s = setStmt (fuel + 1) s := by
  rw [setStmt.eq_2 s (fuel + 1), setStmt.eq_2 s fuel]
  split; rename_i kw s1 e1
  have hlt := lt_of_eq (bumpAny_lt hr) e1
  rw [ih.expression s1 (need_le_step hlt (by norm_num) h)]
  split; rename_i target s2 e2
  have r2 := ((reaches fuel).expression (Reach.refl s1)).of_eq e2
  split; rename_i ok toKw s3 e3
  have r3 := (r2.expect _).of_eq e3
  rw [ih.expression s3 (need_le_step (r3.lt_of_lt hlt) (by norm_num) h)]

theorem letStmt_enough (s : Cursor) (hr : s.rest ≠ []) (h : need 0 s ≤ fuel + 1) :
    letStmt (fuel + 2) s = letStmt (fuel + 1) s := by
  rw [letStmt.eq_2 s (fuel + 1), letStmt.eq_2 s fuel]
  split; rename_i kw s1 e1
  have hlt := lt_of_eq (bumpAny_lt hr) e1
  rw [ih.expression s1 (need_le_step hlt (by norm_num) h)]

theorem ifStmt_enough (s : Cursor) (hr : s.rest ≠ []) (h : need 0 s ≤ fuel + 1) :
    ifStmt (fuel + 2) s = ifStmt (fuel + 1) s := by
  rw [ifStmt.eq_2 s (fuel + 1), ifStmt.eq_2 s fuel]
  split; rename_i kw s1 e1
  have hlt := lt_of_eq (bumpAny_lt hr) e1
  rw [ih.expression s1 (need_le_step hlt (by norm_num) h)]
  split; rename_i cond s2 e2
  have r2 := ((reaches fuel).expression (Reach.refl s1)).of_eq e2
  split; rename_i nl s3 e3
  have r3 := r2.expectNewline.of_eq e3
  rw [ih.stmtList s3 (need_le_step (r3.lt_of_lt hlt) (by norm_num) h)]
  split; rename_i body s4 e4
  have r4 := ((reaches fuel).stmtList r3).of_eq e4
  rw [ih.elseChain s4 (need_le_step (r4.lt_of_lt hlt) (by norm_num) h)]

theorem elseChain_enough (s : Cursor) (h : need 0 s ≤ fuel + 1) :
    elseChain (fuel + 2) s = elseChain (fuel + 1) s := by
  rw [elseChain.eq_2 s (fuel + 1), elseChain.eq_2 s fuel]
  split_ifs with helif helse
  · have hr : s.rest ≠ [] := rest_ne_nil (by simpa using helif) (by decide)
    split; rename_i kw s1 e1
    have hlt := lt_of_eq (bumpAny_lt hr) e1
    rw [ih.expression s1 (need_le_step hlt (by norm_num) h)]
    split; rename_i cond s2 e2
    have r2 := ((reaches fuel).expression (Reach.refl s1)).of_eq e2
    split; rename_i nl s3 e3
    have r3 := r2.expectNewline.of_eq e3
    rw [ih.stmtList s3 (need_le_step (r3.lt_of_lt hlt) (by norm_num) h)]
    split; rename_i body s4 e4
    have r4 := ((reaches fuel).stmtList r3).of_eq e4
    rw [ih.elseChain s4 (need_le_step (r4.lt_of_lt hlt) (by norm_num) h)]
  · have hr : s.rest ≠ [] := rest_ne_nil (by simpa using helse) (by decide)
    split; rename_i kw s1 e1
    have hlt := lt_of_eq (bumpAny_lt hr) e1
    split; rename_i nl s2 e2
    have r2 := (Reach.refl s1).expectNewline.of_eq e2
    rw [ih.stmtList s2 (need_le_step (r2.lt_of_lt hlt) (by norm_num) h)]
  · rfl


theorem whileStmt_enough (s : Cursor) (hr : s.rest ≠ []) (h : need 0 s ≤ fuel + 1) :
    whileStmt (fuel + 2) s = whileStmt (fuel + 1) s := by
  rw [whileStmt.eq_2 s (fuel + 1), whileStmt.eq_2 s fuel]
  split; rename_i kw s1 e1
  have hlt := lt_of_eq (bumpAny_lt hr) e1
  rw [ih.expression s1 (need_le_step hlt (by norm_num) h)]
  split; rename_i cond s2 e2
  have r2 := ((reaches fuel).expression (Reach.refl s1)).of_eq e2
  split; rename_i nl s3 e3
  have r3 := r2.expectNewline.of_eq e3
  rw [ih.stmtList s3 (need_le_step (r3.lt_of_lt hlt) (by norm_num) h)]

theorem foreachStmt_enough (s : Cursor) (hr : s.rest ≠ []) (h : need 0 s ≤ fuel + 1) :
    foreachStmt (fuel + 2) s = foreachStmt (fuel + 1) s := by
  rw [foreachStmt.eq_2 s (fuel + 1), foreachStmt.eq_2 s fuel]
  split; rename_i kw s1 e1
  have hlt := lt_of_eq (bumpAny_lt hr) e1
  split; rename_i var s2 e2
  have r2 := ((Reach.refl s1).varOrVarDecl _).of_eq e2
  split; rename_i ok arrow s3 e3
  have r3 := (r2.expect _).of_eq e3
  rw [ih.expression s3 (need_le_step (r3.lt_of_lt hlt) (by norm_num) h)]
  split; rename_i iter s4 e4
  have r4 := (Reach.ite (fun _ => (reaches fuel).expression r3) (fun _ => r3)).of_eq e4
  split; rename_i nl s5 e5
  have r5 := r4.expectNewline.of_eq e5
  rw [ih.stmtList s5 (need_le_step (r5.lt_of_lt hlt) (by norm_num) h)]

theorem beginOrNested_enough (s : Cursor) (hr : s.rest ≠ []) (h : need 1 s ≤ fuel + 1) :
    beginOrNested (fuel + 2) s = beginOrNested (fuel + 1) s := by
  have hd : need 0 s ≤ fuel := need_le_down le_rfl (by norm_num) h
  rw [beginOrNested.eq_2 s (fuel + 1), beginOrNested.eq_2 s fuel]
  -- a nested block is reported where it starts: the same tokens, one rank down
  split_ifs
  · exact ih.beginStmt s hr hd
  · rw [ih.beginStmt (s.report .nestedBegin) (by simpa using hr) (by simpa using hd)]

theorem beginStmt_enough (s : Cursor) (hr : s.rest ≠ []) (h : need 0 s ≤ fuel + 1) :
    beginStmt (fuel + 2) s = beginStmt (fuel + 1) s := by
  rw [beginStmt.eq_2 s (fuel + 1), beginStmt.eq_2 s fuel]
  split; rename_i kw s1 e1
  have hlt := lt_of_eq (bumpAny_lt hr) e1
  split; rename_i ty s2 e2
  have r2 := ((Reach.refl s1).name _).of_eq e2
  rw [ih.bareArgs s2 (need_le_step (r2.lt_of_lt hlt) (by norm_num) h)]
  split; rename_i extra s3 e3
  have r3 := (Reach.ite (fun _ => r2.paramList)
    (fun _ => Reach.ite (fun _ => (reaches fuel).bareArgs r2) (fun _ => r2))).of_eq e3
  split; rename_i nl s4 e4
  -- the body is one block deeper, which moves no token
  have r4 := (r3.expectNewline.of_eq e4).beginDepth (s4.beginDepth + 1)
  rw [ih.stmtList _ (need_le_step (r4.lt_of_lt hlt) (by norm_num) h)]

theorem returnStmt_enough (s : Cursor) (hr : s.rest ≠ []) (h : need 0 s ≤ fuel + 1) :
    returnStmt (fuel + 2) s = returnStmt (fuel + 1) s := by
  rw [returnStmt.eq_2 s (fuel + 1), returnStmt.eq_2 s fuel]
  split; rename_i kw s1 e1
  rw [ih.expression s1 (need_le_step (lt_of_eq (bumpAny_lt hr) e1) (by norm_num) h)]

theorem exprStmt_enough (s : Cursor) (h : need 6 s ≤ fuel + 1) :
    exprStmt (fuel + 2) s = exprStmt (fuel + 1) s := by
  rw [exprStmt.eq_2 s (fuel + 1), exprStmt.eq_2 s fuel,
    ih.expression s (need_le_down le_rfl (by norm_num) h)]

theorem expression_enough (s : Cursor) (h : need 5 s ≤ fuel + 1) :
    expression (fuel + 2) s = expression (fuel + 1) s := by
  rw [expression.eq_2 s (fuel + 1), expression.eq_2 s fuel,
    ih.exprBp s 0 (need_le_down le_rfl (by norm_num) h)]

theorem exprBp_enough (s : Cursor) (min : Nat) (h : need 4 s ≤ fuel + 1) :
    exprBp (fuel + 2) s min = exprBp (fuel + 1) s min := by
  rw [exprBp.eq_2 s min (fuel + 1), exprBp.eq_2 s min fuel,
    ih.unary s true (need_le_down le_rfl (by norm_num) h)]
  split; rename_i lhs? s1 e1
  have r1 := ((reaches fuel).unary true (Reach.refl s)).of_eq e1
  -- the operand may have taken nothing; the chain after it ranks lower either way
  split
  · rfl
  · rw [ih.infixChain s1 min _ (need_le_down r1.length_le (by norm_num) h)]

theorem infixChain_enough (s : Cursor) (min : Nat) (lhs : List BareTree) (h : need 0 s ≤ fuel + 1) :
    infixChain (fuel + 2) s min lhs = infixChain (fuel + 1) s min lhs := by
  rw [infixChain.eq_2 s min lhs (fuel + 1), infixChain.eq_2 s min lhs fuel]
  split
  · rfl
  · rename_i l r hp
    have heof : s.current ≠ .eof := fun he => by simp [he, TokenKind.infixPower] at hp
    split_ifs
    · rfl
    · rfl
    · -- an operator, then its right operand at the operator's power
      split; rename_i op s1 e1
      have hlt := lt_of_eq (bumpAny_lt (s := { s with nesting := s.nesting + 1 })
        (rest_ne_nil_of_ne heof)) e1
      rw [ih.exprBp s1 r (need_le_step hlt (by norm_num) h)]
      split; rename_i rhs s2 e2
      have r2 := ((reaches fuel).exprBp r (Reach.refl s1)).of_eq e2
      rw [ih.infixChain s2 min _ (need_le_step (r2.lt_of_lt hlt) (by norm_num) h)]

theorem unary_enough (s : Cursor) (calls : Bool) (h : need 3 s ≤ fuel + 1) :
    unary (fuel + 2) s calls = unary (fuel + 1) s calls := by
  rw [unary.eq_2 s calls (fuel + 1), unary.eq_2 s calls fuel]
  split_ifs
  · rfl
  · rw [ih.unaryInner { s with nesting := s.nesting + 1 } calls (need_le_down le_rfl (by norm_num) h)]

theorem unaryInner_enough (s : Cursor) (calls : Bool) (h : need 2 s ≤ fuel + 1) :
    unaryInner (fuel + 2) s calls = unaryInner (fuel + 1) s calls := by
  rw [unaryInner.eq_2 s calls (fuel + 1), unaryInner.eq_2 s calls fuel]
  split
  · -- a prefix operator takes its token before the operand
    rename_i bp hp
    have heof : s.current ≠ .eof := fun he => by simp [he, TokenKind.prefixPower] at hp
    split; rename_i op s1 e1
    have hlt := lt_of_eq (bumpAny_lt (rest_ne_nil_of_ne heof)) e1
    rw [ih.exprBp s1 bp (need_le_step hlt (by norm_num) h),
      ih.unary s1 false (need_le_step hlt (by norm_num) h)]
  · -- the accesses follow the primary at a lower rank, taken or not
    rw [ih.primary s calls (need_le_down le_rfl (by norm_num) h)]
    split; rename_i p? s1 e1
    have r1 := ((reaches fuel).primary calls (Reach.refl s)).of_eq e1
    split
    · rfl
    · rw [ih.accessChain s1 _ calls (need_le_down r1.length_le (by norm_num) h)]

theorem accessChain_enough (s : Cursor) (lhs : List BareTree) (calls : Bool)
    (h : need 1 s ≤ fuel + 1) :
    accessChain (fuel + 2) s lhs calls = accessChain (fuel + 1) s lhs calls := by
  rw [accessChain.eq_2 s lhs calls (fuel + 1), accessChain.eq_2 s lhs calls fuel]
  split_ifs with hdeep hdot hbr
  · rfl
  · -- a member: the name after the operator is a name or call
    have heof : s.current ≠ .eof := fun he => by simp [he] at hdot
    split; rename_i op s1 e1
    have hlt := lt_of_eq (bumpAny_lt (s := { s with nesting := s.nesting + 1 })
      (rest_ne_nil_of_ne heof)) e1
    have hm : (if s1.current == .ident then nameRefOrCall (fuel + 1) s1 calls
        else ([], s1.report .expectedMemberName)) =
        (if s1.current == .ident then nameRefOrCall fuel s1 calls
        else ([], s1.report .expectedMemberName)) :=
      ite_congr rfl (fun hid => ih.nameRefOrCall s1 calls (rest_ne_nil (eq_of_beq hid) (by decide))
        (need_le_step hlt (by norm_num) h)) fun _ => rfl
    rw [hm]
    split; rename_i m s2 e2
    have r2 := (Reach.ite (fun _ => (reaches fuel).nameRefOrCall calls (Reach.refl s1))
      (fun _ => (Reach.refl s1).report _)).of_eq e2
    rw [ih.accessChain s2 _ calls (need_le_step (r2.lt_of_lt hlt) (by norm_num) h)]
  · -- an index
    split; rename_i lb s1 e1
    have hlt := lt_of_eq (bumpAny_lt (s := { s with nesting := s.nesting + 1 })
      (rest_ne_nil (eq_of_beq hbr) (by decide))) e1
    rw [ih.expression s1 (need_le_step hlt (by norm_num) h)]
    split; rename_i idx s2 e2
    have r2 := ((reaches fuel).expression (Reach.refl s1)).of_eq e2
    split; rename_i ok rb s3 e3
    have r3 := (r2.expect _).of_eq e3
    rw [ih.accessChain s3 _ calls (need_le_step (r3.lt_of_lt hlt) (by norm_num) h)]
  · rfl

theorem primary_enough (s : Cursor) (calls : Bool) (h : need 1 s ≤ fuel + 1) :
    primary (fuel + 2) s calls = primary (fuel + 1) s calls := by
  have hd : need 0 s ≤ fuel := need_le_down le_rfl (by norm_num) h
  rw [primary.eq_2 s calls (fuel + 1), primary.eq_2 s calls fuel]
  split_ifs with hid hlp hbegin
  · rw [ih.nameRefOrCall s calls (rest_ne_nil (eq_of_beq hid) (by decide)) hd]
  · rw [ih.lambda s (rest_ne_nil (eq_of_beq hlp) (by decide)) hd]
  · split; rename_i lp s1 e1
    have hlt := lt_of_eq (bumpAny_lt (s := { s with parenDepth := s.parenDepth + 1 })
      (rest_ne_nil (eq_of_beq hlp) (by decide))) e1
    rw [ih.expression s1 (need_le_step hlt (by norm_num) h)]
  all_goals rfl

theorem nameRefOrCall_enough (s : Cursor) (calls : Bool) (hr : s.rest ≠ [])
    (h : need 0 s ≤ fuel + 1) :
    nameRefOrCall (fuel + 2) s calls = nameRefOrCall (fuel + 1) s calls := by
  rw [nameRefOrCall.eq_2 s calls (fuel + 1), nameRefOrCall.eq_2 s calls fuel]
  split; rename_i id s1 e1
  have hlt := lt_of_eq (bumpAny_lt hr) e1
  rw [ih.parenArgs s1 (need_le_step hlt (by norm_num) h),
    ih.argSequence s1 false (need_le_step hlt (by norm_num) h)]

theorem parenArgs_enough (s : Cursor) (h : need 7 s ≤ fuel + 1) :
    parenArgs (fuel + 2) s = parenArgs (fuel + 1) s := by
  rw [parenArgs.eq_2 s (fuel + 1), parenArgs.eq_2 s fuel]
  -- the parenthesis is taken when it is there; the items rank lower in any case
  split; rename_i lp s1 e1
  have r1 := ((Reach.refl s).parenDepth (s.parenDepth + 1)).bumpAny.of_eq e1
  rw [ih.parenArgItems s1 (need_le_down r1.length_le (by norm_num) h)]

theorem parenArgItems_enough (s : Cursor) (h : need 6 s ≤ fuel + 1) :
    parenArgItems (fuel + 2) s = parenArgItems (fuel + 1) s := by
  rw [parenArgItems.eq_2 s (fuel + 1), parenArgItems.eq_2 s fuel]
  refine ite_congr rfl (fun _ => rfl) fun hstop => ?_
  obtain ⟨hrp, hl⟩ : s.current ≠ .rParen ∧ s.atLineEnd = false := by simpa using hstop
  have heof : s.current ≠ .eof := fun he => by simp [atLineEnd, he] at hl
  have hf := le_of_need (rest_ne_nil_of_ne heof) h
  rw [ih.expression s (need_le_down le_rfl (by norm_num) h)]
  -- the item takes a token, so the items after it need less
  rcases e1 : (if s.current.canStartExpr then expression fuel s
    else (s.recover .expectedArgument (· == .rParen)).val) with ⟨item, s1⟩
  have hlt := lt_of_eq (parenArgItem_lt hl hrp (by omega)) e1
  dsimp only
  rw [ih.parenArgItems _ (need_le_step (((Reach.refl s1).eat .comma).lt_of_lt hlt) (by norm_num) h)]

theorem bareArgs_enough (s : Cursor) (h : need 5 s ≤ fuel + 1) :
    bareArgs (fuel + 2) s = bareArgs (fuel + 1) s := by
  rw [bareArgs.eq_2 s (fuel + 1), bareArgs.eq_2 s fuel,
    ih.argSequence s false (need_le_down le_rfl (by norm_num) h)]

theorem argSequence_enough (s : Cursor) (afterComma : Bool) (h : need 4 s ≤ fuel + 1) :
    argSequence (fuel + 2) s afterComma = argSequence (fuel + 1) s afterComma := by
  rw [argSequence.eq_2 s afterComma (fuel + 1), argSequence.eq_2 s afterComma fuel]
  split_ifs with hstart
  · have hc : s.current.canStartExpr = true := by
      rcases Bool.or_eq_true_iff.mp hstart with ha | hb
      · exact TokenKind.canStartExpr_of_canStartArgument ha
      · exact (Bool.and_eq_true_iff.mp hb).2
    have hf := le_of_need (rest_ne_nil_of_ne (TokenKind.canStartExpr_facts hc).2.1) h
    rw [ih.unary s false (need_le_down le_rfl (by norm_num) h)]
    -- the argument takes the token that starts it
    split; rename_i a s1 e1
    have hlt := lt_of_eq (unary_lt_of_le (by omega) hc false) e1
    split; rename_i comma c s2 e2
    have r2 := ((Reach.refl s1).eat _).of_eq e2
    rw [ih.argSequence s2 comma (need_le_step (r2.lt_of_lt hlt) (by norm_num) h)]
  · rfl

theorem lambda_enough (s : Cursor) (hr : s.rest ≠ []) (h : need 0 s ≤ fuel + 1) :
    lambda (fuel + 2) s = lambda (fuel + 1) s := by
  rw [lambda.eq_2 s (fuel + 1), lambda.eq_2 s fuel]
  split; rename_i lp s1 e1
  have hlt := lt_of_eq (bumpAny_lt (s := { s with parenDepth := 0 }) hr) e1
  split; rename_i kw s2 e2
  have r2 := (Reach.refl s1).bumpAny.of_eq e2
  split; rename_i ty s3 e3
  have r3 := (r2.name _).of_eq e3
  split; rename_i params s4 e4
  have r4 := (Reach.ite (fun _ => r3.paramList) (fun _ => r3)).of_eq e4
  split; rename_i nl s5 e5
  have r5 := (r4.expectNewline.of_eq e5).beginDepth (s5.beginDepth + 1)
  rw [ih.stmtList _ (need_le_step (r5.lt_of_lt hlt) (by norm_num) h)]

/-- Every function keeps its result with one more unit of fuel wherever the
fuel covers its need. -/
theorem enough_succ : Enough (fuel + 1) where
  stmtList := stmtList_enough ih
  stmtListBody := stmtListBody_enough ih
  statement := statement_enough ih
  varDeclStmt := varDeclStmt_enough ih
  setStmt := setStmt_enough ih
  letStmt := letStmt_enough ih
  ifStmt := ifStmt_enough ih
  elseChain := elseChain_enough ih
  whileStmt := whileStmt_enough ih
  foreachStmt := foreachStmt_enough ih
  beginOrNested := beginOrNested_enough ih
  beginStmt := beginStmt_enough ih
  returnStmt := returnStmt_enough ih
  exprStmt := exprStmt_enough ih
  expression := expression_enough ih
  exprBp := exprBp_enough ih
  infixChain := infixChain_enough ih
  unary := unary_enough ih
  unaryInner := unaryInner_enough ih
  accessChain := accessChain_enough ih
  primary := primary_enough ih
  nameRefOrCall := fun s calls => nameRefOrCall_enough ih s calls
  parenArgs := parenArgs_enough ih
  parenArgItems := parenArgItems_enough ih
  bareArgs := bareArgs_enough ih
  argSequence := argSequence_enough ih
  lambda := lambda_enough ih

end Step

theorem enough : ∀ fuel, Enough fuel
  | 0 => enough_zero
  | fuel + 1 => enough_succ (enough fuel)

theorem expression_add (extra : Nat) (h : need 5 s ≤ fuel) :
    expression (fuel + extra) s = expression fuel s := by
  induction extra with
  | zero => rfl
  | succ k ih =>
    rw [← Nat.add_assoc, (enough (fuel + k)).expression s (h.trans (Nat.le_add_right _ _)), ih]

/-! ## The top level -/

/-- The top level has the need of a statement list body: each item takes a
token, and a statement is called at the item's own cursor. -/
theorem topLevel_succ (fuel : Nat) (s : Cursor) (h : need 8 s ≤ fuel) :
    topLevel (fuel + 1) s = topLevel fuel s := by
  induction fuel generalizing s with
  | zero => exact absurd h (by unfold need; omega)
  | succ fuel ihf =>
    rw [topLevel.eq_2 s (fuel + 1), topLevel.eq_2 s fuel]
    refine ite_congr rfl (fun _ => rfl) fun hend => ?_
    have heof : s.current ≠ .eof := fun he => by simp [atEnd, he] at hend
    have hf := le_of_need (rest_ne_nil_of_ne heof) h
    have hd : need 7 s ≤ fuel := need_le_down le_rfl (by norm_num) h
    rw [(enough fuel).statement s hd,
      (enough fuel).statement (s.report .statementAtTopLevel) (by simpa using hd)]
    split; rename_i item s1 e1
    -- every item takes a token, so the rest of the top level needs less
    have hlt : s1.rest.length < s.rest.length := by
      refine lt_of_eq ?_ e1
      split_ifs with hnl hsn hbe
      · split; rename_i u nl s2 e2
        exact lt_of_eq (eat_lt (eq_of_beq hnl) (by decide)) e2
      · simpa using scriptNameDecl_lt (s := s.report .duplicateScriptName)
          (by simpa using rest_ne_nil_of_ne heof)
      · exact recover_lt rfl (by simpa [atLineEnd, heof] using hnl)
      · exact statement_lt_of_le (by omega) heof
      · simpa using statement_lt_of_le (s := s.report .statementAtTopLevel) (show 3 ≤ fuel by omega)
          (by rwa [current_congr (report_rest _ _)])
    rw [ihf s1 (need_le_step hlt (by norm_num) h)]

theorem topLevel_add (extra : Nat) (h : need 8 s ≤ fuel) :
    topLevel (fuel + extra) s = topLevel fuel s := by
  induction extra with
  | zero => rfl
  | succ k ih => rw [← Nat.add_assoc, topLevel_succ _ s (h.trans (Nat.le_add_right _ _)), ih]

theorem script_add (extra : Nat) (h : need 8 s ≤ fuel) :
    script (fuel + extra) s = script fuel s := by
  rw [script, script]
  split; rename_i blank s1 e1
  have r1 := (Reach.refl s).eatLineBreaks.of_eq e1
  split; rename_i decl s2 e2
  have r2 := (Reach.ite (fun _ => scriptNameDecl_reach r1) (fun _ => r1.report _)).of_eq e2
  rw [topLevel_add extra ((need_le_of_reach r2).trans h)]

theorem exprRoot_add (extra : Nat) (h : need 5 s ≤ fuel) :
    exprRoot (fuel + extra) s = exprRoot fuel s := by
  rw [exprRoot, exprRoot]
  split; rename_i blank s1 e1
  have r1 := (Reach.refl s).eatLineBreaks.of_eq e1
  rw [expression_add extra ((need_le_of_reach r1).trans h)]

/-! ## Parsing never runs out of fuel -/

/-- The fuel a parse of `ls` gets covers the need of the top level at its
start, and so that of the expression too. -/
theorem need_le_fuelFor (ls : List Lexeme) : need 8 ({ rest := ls } : Cursor) ≤ fuelFor ls.length := by
  unfold need fuelFor
  dsimp only
  omega

end Grammar

end GameScript
