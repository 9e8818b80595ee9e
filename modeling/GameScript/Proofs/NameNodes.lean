import Mathlib
import GameScript.Proofs.Hints
import GameScript.Proofs.TreeRanges
/-!
# A name node holds one identifier

The grammar builds `name` and `nameRef` nodes at three places only: a
declared name (`Cursor.name`), a variable in a `foreach` header or a
parameter list (`Cursor.varOrVarDecl`), and a name in an expression
(`Grammar.nameRefOrCall`). Each takes one token, an identifier, and inside
parentheses the line breaks right after it. Every other node the grammar
builds is of another kind and wraps what the functions it calls built, so
every name node of a bare tree the grammar returns holds one identifier and
then line breaks (`BareTree.Named`). The proof has the layout of
`GameScript.Proofs.TokenLeaves`: one lemma per step of the cursor, one
structure `Grammar.NamesKept fuel` over all the functions of the grammar,
and an induction on the fuel.

In the tree of a parse the token leaves are filled in order from the source,
so a leaf has the kind the grammar gave it (`GameScript.Proofs.Hints`), and
the trivia `attach` adds is never an identifier. So every name node of a
parse tree holds exactly one identifier token (`parseScript_name_ident`): the
text a name node stands for (`SyntaxTree.identText`) is the text of each
identifier token it holds.
-/

set_option autoImplicit false

namespace GameScript

namespace BareTree

/-- What a name node holds: one identifier, then the line breaks that go
with it inside parentheses. -/
def IsNameBody (bs : List BareTree) : Prop :=
  bs.head? = some (.token .ident) ∧ ∀ b ∈ bs.tail, b = .token .newline

mutual
/-- Every `name` and `nameRef` node of the tree holds a name body. -/
def NamesWrapped : BareTree → Prop
  | .token _ => True
  | .node k cs => ((k = .name ∨ k = .nameRef) → IsNameBody cs) ∧ Named cs

/-- Every `name` and `nameRef` node of the trees holds a name body. -/
def Named : List BareTree → Prop
  | [] => True
  | b :: bs => b.NamesWrapped ∧ Named bs
end

@[simp] theorem namesWrapped_token (k : TokenKind) : (token k).NamesWrapped := by
  simp [NamesWrapped]

@[simp] theorem namesWrapped_node (k : NodeKind) (cs : List BareTree) :
    (node k cs).NamesWrapped ↔ ((k = .name ∨ k = .nameRef) → IsNameBody cs) ∧ Named cs := by
  simp [NamesWrapped]

@[simp] theorem named_nil : Named [] := by
  simp [Named]

@[simp] theorem named_cons (b : BareTree) (bs : List BareTree) :
    Named (b :: bs) ↔ b.NamesWrapped ∧ Named bs := by
  simp [Named]

@[simp] theorem named_append (bs cs : List BareTree) : Named (bs ++ cs) ↔ Named bs ∧ Named cs := by
  induction bs with
  | nil => simp
  | cons b bs ih => simp [ih, and_assoc]

theorem named_iff (bs : List BareTree) : Named bs ↔ ∀ b ∈ bs, b.NamesWrapped := by
  induction bs with
  | nil => simp
  | cons b bs ih => simp [ih]

/-- Token leaves hold no node. -/
theorem named_of_tokens {bs : List BareTree} (h : ∀ b ∈ bs, ∃ k, b = .token k) : Named bs := by
  rw [named_iff]
  intro b hb
  obtain ⟨k, rfl⟩ := h b hb
  simp

namespace Named

variable {a b : List BareTree}

theorem append (ha : Named a) (hb : Named b) : Named (a ++ b) :=
  (named_append a b).2 ⟨ha, hb⟩

/-- A node of another kind over what was built. -/
theorem wrap (h : Named a) {k : NodeKind} (hk : (k == .name || k == .nameRef) = false) :
    Named [.node k a] := by
  have hne : ¬ (k = .name ∨ k = .nameRef) := by
    rintro (rfl | rfl) <;> simp at hk
  simp [hne, h]

/-- A name node over a name body. -/
theorem nameNode (hb : IsNameBody a) (h : Named a) (k : NodeKind) : Named [.node k a] := by
  simp [hb, h]

/-- What a step built, read through the pattern its caller binds it with. -/
theorem of_eq {p : List BareTree × Cursor} {x : List BareTree} {s' : Cursor} (h : Named p.1)
    (e : p = (x, s')) : Named x := by
  subst e
  exact h

theorem of_eq_snd {β : Type} {p : (β × List BareTree) × Cursor} {c : β} {x : List BareTree}
    {s' : Cursor} (h : Named p.1.2) (e : p = ((c, x), s')) : Named x := by
  subst e
  exact h

theorem of_eq_getD {p : Option (List BareTree) × Cursor} {x : Option (List BareTree)} {s' : Cursor}
    (h : Named (p.1.getD [])) (e : p = (x, s')) : Named (x.getD []) := by
  subst e
  exact h

theorem ite {c : Prop} [Decidable c] {p q : List BareTree × Cursor} (hp : c → Named p.1)
    (hq : ¬c → Named q.1) : Named (if c then p else q).1 := by
  split
  · exact hp ‹_›
  · exact hq ‹_›

end Named

end BareTree

open BareTree

namespace Cursor

/-! ## The steps of the cursor -/

theorem eatLineBreaks_newlines (s : Cursor) : ∀ b ∈ s.eatLineBreaks.1.1, b = .token .newline := by
  fun_induction Cursor.eatLineBreaks s with
  | case1 s t more h hk ts s1 h1 heq ih =>
    rw [heq] at ih
    intro b hb
    rcases List.mem_cons.1 hb with rfl | hb
    · rfl
    · exact ih b hb
  | case2 => simp [stay]
  | case3 => simp [stay]

/-- The next token, and inside parentheses the line breaks after it. -/
theorem bumpAt_out (s : Cursor) (hr : s.rest ≠ []) :
    ∃ more, (s.bumpAt hr).1.1 = .token s.current :: more ∧ ∀ b ∈ more, b = .token .newline := by
  obtain ⟨_ | ⟨t, more⟩, paren, depth, nesting, lastEnd, errors⟩ := s
  · exact absurd rfl hr
  dsimp only [Cursor.bumpAt]
  split
  · exact ⟨_, rfl, eatLineBreaks_newlines _⟩
  · exact ⟨[], rfl, by simp⟩

theorem bumpAt_tokens (s : Cursor) (hr : s.rest ≠ []) : ∀ b ∈ (s.bumpAt hr).1.1, ∃ k, b = .token k := by
  obtain ⟨more, hout, hnl⟩ := bumpAt_out s hr
  rw [hout]
  intro b hb
  rcases List.mem_cons.1 hb with rfl | hb
  · exact ⟨_, rfl⟩
  · exact ⟨_, hnl b hb⟩

theorem bumpAny_tokens (s : Cursor) : ∀ b ∈ s.bumpAny.1.1, ∃ k, b = .token k := by
  unfold Cursor.bumpAny
  split
  · simp [stay]
  · exact bumpAt_tokens s _

theorem named_bumpAny (s : Cursor) : Named s.bumpAny.1.1 := named_of_tokens (bumpAny_tokens s)

/-- At an identifier, what `bumpAny` takes is a name body. -/
theorem bumpAny_nameBody {s : Cursor} (h : s.current = .ident) : IsNameBody s.bumpAny.1.1 := by
  have hr : s.rest ≠ [] := rest_ne_nil h (by decide)
  unfold Cursor.bumpAny
  rw [dif_neg hr]
  obtain ⟨more, hout, hnl⟩ := bumpAt_out s hr
  rw [hout, h]
  exact ⟨rfl, hnl⟩

theorem eat_tokens (s : Cursor) (k : TokenKind) : ∀ b ∈ (s.eat k).1.1.2, ∃ k', b = .token k' := by
  unfold Cursor.eat
  split
  · exact bumpAny_tokens s
  · simp [stay]

theorem named_eat (s : Cursor) (k : TokenKind) : Named (s.eat k).1.1.2 := named_of_tokens (eat_tokens s k)

theorem named_expect (s : Cursor) (k : TokenKind) : Named (s.expect k).1.1.2 := by
  unfold Cursor.expect
  dsimp only
  split <;> exact named_eat s k

theorem named_recover (s : Cursor) (p : SyntaxProblem) (stopAt : TokenKind → Bool) :
    Named (s.recover p stopAt).1.1 := by
  by_cases hc : (stopAt s.current || s.atLineEnd) = true
  · simp [Cursor.recover, hc, stay]
  · simp only [Cursor.recover, hc, Bool.false_eq_true, ↓reduceIte]
    exact (named_bumpAny _).wrap rfl

/-- A loop that takes one token at a time builds token leaves only. -/
theorem tokens_of_bumpAt {s s1 : Cursor} {hr : s.rest ≠ []} {ts more : List BareTree}
    {h1 : s1.rest.length < s.rest.length} (heq : s.bumpAt hr = ⟨(ts, s1), h1⟩)
    (h : ∀ b ∈ more, ∃ k, b = .token k) : ∀ b ∈ ts ++ more, ∃ k, b = .token k := by
  have hts := bumpAt_tokens s hr
  rw [heq] at hts
  intro b hb
  rcases List.mem_append.1 hb with hb | hb
  · exact hts b hb
  · exact h b hb

theorem skipLine_tokens (s : Cursor) : ∀ b ∈ s.skipLine.1.1, ∃ k, b = .token k := by
  fun_induction Cursor.skipLine s with
  | case1 => simp [stay]
  | case2 s hl hne ts s1 h1 heq1 more s2 h2 heq2 ih =>
    rw [heq2] at ih
    exact tokens_of_bumpAt heq1 ih

theorem skipNested_tokens (s : Cursor) (opened : Nat) :
    ∀ b ∈ (s.skipNested opened).1.1, ∃ k, b = .token k := by
  fun_induction Cursor.skipNested s opened with
  | case1 => simp [stay]
  | case2 => simp [stay]
  | case3 s opened hl hne k hk opened2 ts s1 h1 heq1 more s2 h2 heq2 ih =>
    rw [heq2] at ih
    exact tokens_of_bumpAt heq1 ih

theorem skipBlock_tokens (s : Cursor) (opened : Nat) :
    ∀ b ∈ (s.skipBlock opened).1.1, ∃ k, b = .token k := by
  fun_induction Cursor.skipBlock s opened with
  | case1 => simp [stay]
  | case2 => simp [stay]
  | case3 s opened he hne k isOpener isCloser hk opened2 ts s1 h1 heq1 more s2 h2 heq2 ih =>
    rw [heq2] at ih
    exact tokens_of_bumpAt heq1 ih

theorem named_expressionTooDeep (s : Cursor) : Named s.expressionTooDeep.1.1 := by
  unfold Cursor.expressionTooDeep
  dsimp only
  exact (named_of_tokens (skipNested_tokens _ 0)).wrap rfl

theorem named_blockTooDeep (s : Cursor) : Named s.blockTooDeep.1.1 := by
  unfold Cursor.blockTooDeep
  dsimp only
  exact (named_of_tokens (skipBlock_tokens _ 0)).wrap rfl

theorem named_expectNewline (s : Cursor) : Named s.expectNewline.1.1 := by
  unfold Cursor.expectNewline
  dsimp only
  split
  · exact named_eat s _
  · -- the rest of the line goes into one error node, then the line break
    exact ((named_eat s _).append ((named_of_tokens (skipLine_tokens _)).wrap rfl)).append
      (named_eat _ _)

theorem named_name (s : Cursor) (role : NameRole) : Named (s.name role).1.1 := by
  unfold Cursor.name Cursor.eat
  by_cases hc : (s.current == .ident && TokenKind.ident != .eof) = true
  · simp only [hc, ↓reduceIte]
    have hid : s.current = .ident := by simpa using hc
    exact Named.nameNode (bumpAny_nameBody hid) (named_bumpAny s) _
  · simp only [hc, Bool.false_eq_true, ↓reduceIte]
    exact named_nil

theorem named_varDecl (s : Cursor) : Named s.varDecl.1.1 :=
  ((named_bumpAny s).append (named_name _ _)).wrap rfl

theorem named_varOrVarDecl (s : Cursor) (stopAt : TokenKind → Bool) :
    Named (s.varOrVarDecl stopAt).1.1 := by
  unfold Cursor.varOrVarDecl
  split
  · exact named_varDecl s
  · split
    · rename_i hid
      exact Named.nameNode (bumpAny_nameBody (by simpa using hid)) (named_bumpAny s) _
    · exact named_recover s _ _

theorem named_paramEntries (s : Cursor) : Named s.paramEntries.1.1 := by
  fun_induction Cursor.paramEntries s with
  | case1 => simp [stay]
  | case2 s hs v s1 h1 heq1 ok c s2 h2 heq2 hp more s3 h3 heq3 ih =>
    have hv := named_varOrVarDecl s (· == .rBrace)
    have hc := named_eat s1 .comma
    rw [heq1] at hv
    rw [heq2] at hc
    rw [heq3] at ih
    exact (hv.append hc).append ih
  | case3 s hs v s1 h1 heq1 ok c s2 h2 heq2 hp =>
    have hv := named_varOrVarDecl s (· == .rBrace)
    have hc := named_eat s1 .comma
    rw [heq1] at hv
    rw [heq2] at hc
    exact hv.append hc

theorem named_paramList (s : Cursor) : Named s.paramList.1.1 :=
  (((named_bumpAny s).append (named_paramEntries _)).append (named_expect _ _)).wrap rfl

end Cursor

/-! ## The grammar -/

namespace Grammar

open Cursor

theorem keywordStmt_names (s : Cursor) (kind : NodeKind) (hk : (kind == .name || kind == .nameRef) = false) :
    Named (keywordStmt s kind).1 :=
  ((named_bumpAny s).append (named_expectNewline _)).wrap hk

/-- Every function of the grammar, at a given fuel, builds name nodes that
hold a name body. The chains that extend a left operand are stated for an
operand that does; a name in an expression is read at an identifier. -/
structure NamesKept (fuel : Nat) : Prop where
  stmtList : ∀ s, Named (stmtList fuel s).1
  stmtListBody : ∀ s, Named (stmtListBody fuel s).1
  statement : ∀ s, Named (statement fuel s).1
  varDeclStmt : ∀ s, Named (varDeclStmt fuel s).1
  setStmt : ∀ s, Named (setStmt fuel s).1
  letStmt : ∀ s, Named (letStmt fuel s).1
  ifStmt : ∀ s, Named (ifStmt fuel s).1
  elseChain : ∀ s, Named (elseChain fuel s).1
  whileStmt : ∀ s, Named (whileStmt fuel s).1
  foreachStmt : ∀ s, Named (foreachStmt fuel s).1
  beginOrNested : ∀ s, Named (beginOrNested fuel s).1
  beginStmt : ∀ s, Named (beginStmt fuel s).1
  returnStmt : ∀ s, Named (returnStmt fuel s).1
  exprStmt : ∀ s, Named (exprStmt fuel s).1
  expression : ∀ s, Named (expression fuel s).1
  exprBp : ∀ s min, Named (exprBp fuel s min).1
  infixChain : ∀ (s : Cursor) (min : Nat) (lhs : List BareTree), Named lhs →
    Named (infixChain fuel s min lhs).1
  unary : ∀ s calls, Named ((unary fuel s calls).1.getD [])
  unaryInner : ∀ s calls, Named ((unaryInner fuel s calls).1.getD [])
  accessChain : ∀ (s : Cursor) (lhs : List BareTree) (calls : Bool), Named lhs →
    Named (accessChain fuel s lhs calls).1
  primary : ∀ s calls, Named ((primary fuel s calls).1.getD [])
  nameRefOrCall : ∀ (s : Cursor) calls, s.current = .ident → Named (nameRefOrCall fuel s calls).1
  parenArgs : ∀ s, Named (parenArgs fuel s).1
  parenArgItems : ∀ s, Named (parenArgItems fuel s).1
  bareArgs : ∀ s, Named (bareArgs fuel s).1
  argSequence : ∀ s afterComma, Named (argSequence fuel s afterComma).1
  lambda : ∀ s, Named (lambda fuel s).1

/-- With no fuel left every function builds nothing. -/
theorem namesKept_zero : NamesKept 0 := by
  constructor <;> intros <;>
    simp only [stmtList, stmtListBody, statement, varDeclStmt, setStmt, letStmt, ifStmt,
      elseChain, whileStmt, foreachStmt, beginOrNested, beginStmt, returnStmt, exprStmt,
      expression, exprBp, infixChain, unary, unaryInner, accessChain, primary, nameRefOrCall,
      parenArgs, parenArgItems, bareArgs, argSequence, lambda, Option.getD_none] <;>
    first | assumption | exact named_nil

section Unfold

variable {fuel : Nat} (ih : NamesKept fuel)
include ih

theorem stmtList_names (s : Cursor) : Named (stmtList (fuel + 1) s).1 := by
  rw [stmtList]
  split
  · split; rename_i err s1 e1
    exact ((named_blockTooDeep s).of_eq e1).wrap rfl
  · split; rename_i body s1 e1
    exact ((ih.stmtListBody _).of_eq e1).wrap rfl

theorem stmtListBody_names (s : Cursor) : Named (stmtListBody (fuel + 1) s).1 := by
  rw [stmtListBody]
  split
  · exact named_nil
  split; rename_i item s1 e1
  have h1 : Named item := by
    refine Named.of_eq ?_ e1
    split_ifs
    · split; rename_i u nl s1 e
      exact (named_eat s _).of_eq_snd e
    · exact ih.statement s
  split; rename_i more s2 e2
  exact h1.append ((ih.stmtListBody s1).of_eq e2)

theorem statement_names (s : Cursor) : Named (statement (fuel + 1) s).1 := by
  rw [statement]
  -- one branch per leading keyword, taken without bringing the tests into the context
  exact Named.ite (fun _ => ih.setStmt s) fun _ => Named.ite (fun _ => ih.letStmt s) fun _ =>
    Named.ite (fun _ => ih.ifStmt s) fun _ => Named.ite (fun _ => ih.whileStmt s) fun _ =>
    Named.ite (fun _ => ih.foreachStmt s) fun _ => Named.ite (fun _ => ih.beginOrNested s) fun _ =>
    Named.ite (fun _ => ih.returnStmt s) fun _ => Named.ite (fun _ => keywordStmt_names s _ rfl)
    fun _ => Named.ite (fun _ => keywordStmt_names s _ rfl) fun _ =>
    Named.ite (fun _ => ih.varDeclStmt s) fun _ => ih.exprStmt s

theorem varDeclStmt_names (s : Cursor) : Named (varDeclStmt (fuel + 1) s).1 := by
  rw [varDeclStmt]
  split; rename_i decl s1 e1
  have h1 := (named_varDecl s).of_eq e1
  split; rename_i ok op s2 e2
  have h2 := (named_eat s1 _).of_eq_snd e2
  split; rename_i init s3 e3
  have h3 := (Named.ite (fun _ => ih.expression s2) (fun _ => named_nil)).of_eq e3
  split; rename_i nl s4 e4
  exact (((h1.append h2).append h3).append ((named_expectNewline s3).of_eq e4)).wrap rfl

theorem setStmt_names (s : Cursor) : Named (setStmt (fuel + 1) s).1 := by
  rw [setStmt]
  split; rename_i kw s1 e1
  have h1 := (named_bumpAny s).of_eq e1
  split; rename_i target s2 e2
  have h2 := (ih.expression s1).of_eq e2
  split; rename_i ok toKw s3 e3
  have h3 := (named_expect s2 _).of_eq_snd e3
  split; rename_i value s4 e4
  have h4 := (Named.ite (fun _ => ih.expression s3) (fun _ => named_nil)).of_eq e4
  split; rename_i nl s5 e5
  exact ((((h1.append h2).append h3).append h4).append
    ((named_expectNewline s4).of_eq e5)).wrap rfl

theorem letStmt_names (s : Cursor) : Named (letStmt (fuel + 1) s).1 := by
  rw [letStmt]
  split; rename_i kw s1 e1
  have h1 := (named_bumpAny s).of_eq e1
  split; rename_i e s2 e2
  have h2 := (ih.expression s1).of_eq e2
  split; rename_i nl s3 e3
  exact ((h1.append h2).append ((named_expectNewline s2).of_eq e3)).wrap rfl

theorem ifStmt_names (s : Cursor) : Named (ifStmt (fuel + 1) s).1 := by
  rw [ifStmt]
  split; rename_i kw s1 e1
  have h1 := (named_bumpAny s).of_eq e1
  split; rename_i cond s2 e2
  have h2 := (ih.expression s1).of_eq e2
  split; rename_i nl s3 e3
  have h3 := (named_expectNewline s2).of_eq e3
  split; rename_i body s4 e4
  have h4 := (ih.stmtList s3).of_eq e4
  split; rename_i branch s5 e5
  have h5 := (ih.elseChain s4).of_eq e5
  split; rename_i ok endif s6 e6
  have h6 := (named_expect s5 _).of_eq_snd e6
  split; rename_i nl2 s7 e7
  have h7 := (Named.ite (fun _ => named_expectNewline s6) (fun _ => named_nil)).of_eq e7
  exact ((((((h1.append h2).append h3).append h4).append h5).append h6).append h7).wrap rfl

theorem elseChain_names (s : Cursor) : Named (elseChain (fuel + 1) s).1 := by
  rw [elseChain]
  split_ifs
  · split; rename_i kw s1 e1
    have h1 := (named_bumpAny s).of_eq e1
    split; rename_i cond s2 e2
    have h2 := (ih.expression s1).of_eq e2
    split; rename_i nl s3 e3
    have h3 := (named_expectNewline s2).of_eq e3
    split; rename_i body s4 e4
    have h4 := (ih.stmtList s3).of_eq e4
    split; rename_i next s5 e5
    exact ((((h1.append h2).append h3).append h4).append ((ih.elseChain s4).of_eq e5)).wrap rfl
  · split; rename_i kw s1 e1
    have h1 := (named_bumpAny s).of_eq e1
    split; rename_i nl s2 e2
    have h2 := (named_expectNewline s1).of_eq e2
    split; rename_i body s3 e3
    exact ((h1.append h2).append ((ih.stmtList s2).of_eq e3)).wrap rfl
  · exact named_nil

theorem whileStmt_names (s : Cursor) : Named (whileStmt (fuel + 1) s).1 := by
  rw [whileStmt]
  split; rename_i kw s1 e1
  have h1 := (named_bumpAny s).of_eq e1
  split; rename_i cond s2 e2
  have h2 := (ih.expression s1).of_eq e2
  split; rename_i nl s3 e3
  have h3 := (named_expectNewline s2).of_eq e3
  split; rename_i body s4 e4
  have h4 := (ih.stmtList s3).of_eq e4
  split; rename_i ok lp s5 e5
  have h5 := (named_expect s4 _).of_eq_snd e5
  split; rename_i nl2 s6 e6
  have h6 := (Named.ite (fun _ => named_expectNewline s5) (fun _ => named_nil)).of_eq e6
  exact (((((h1.append h2).append h3).append h4).append h5).append h6).wrap rfl

theorem foreachStmt_names (s : Cursor) : Named (foreachStmt (fuel + 1) s).1 := by
  rw [foreachStmt]
  split; rename_i kw s1 e1
  have h1 := (named_bumpAny s).of_eq e1
  split; rename_i var s2 e2
  have h2 := (named_varOrVarDecl s1 _).of_eq e2
  split; rename_i ok arrow s3 e3
  have h3 := (named_expect s2 _).of_eq_snd e3
  split; rename_i iter s4 e4
  have h4 := (Named.ite (fun _ => ih.expression s3) (fun _ => named_nil)).of_eq e4
  split; rename_i nl s5 e5
  have h5 := (named_expectNewline s4).of_eq e5
  split; rename_i body s6 e6
  have h6 := (ih.stmtList s5).of_eq e6
  split; rename_i ok2 lp s7 e7
  have h7 := (named_expect s6 _).of_eq_snd e7
  split; rename_i nl2 s8 e8
  have h8 := (Named.ite (fun _ => named_expectNewline s7) (fun _ => named_nil)).of_eq e8
  exact (((((((h1.append h2).append h3).append h4).append h5).append h6).append h7).append
    h8).wrap rfl

theorem beginOrNested_names (s : Cursor) : Named (beginOrNested (fuel + 1) s).1 := by
  rw [beginOrNested]
  split
  · exact ih.beginStmt s
  · split; rename_i blk s1 e1
    exact ((ih.beginStmt (s.report _)).of_eq e1).wrap rfl

theorem beginStmt_names (s : Cursor) : Named (beginStmt (fuel + 1) s).1 := by
  rw [beginStmt]
  split; rename_i kw s1 e1
  have h1 := (named_bumpAny s).of_eq e1
  split; rename_i ty s2 e2
  have h2 := (named_name s1 _).of_eq e2
  split; rename_i extra s3 e3
  have h3 := (Named.ite (fun _ => named_paramList s2)
    (fun _ => Named.ite (fun _ => ih.bareArgs s2) (fun _ => named_nil))).of_eq e3
  split; rename_i nl s4 e4
  have h4 := (named_expectNewline s3).of_eq e4
  split; rename_i body s5 e5
  have h5 := (ih.stmtList { s4 with beginDepth := s4.beginDepth + 1 }).of_eq e5
  split; rename_i ok e s6 e6
  have h6 := (named_expect { s5 with beginDepth := s5.beginDepth - 1 } _).of_eq_snd e6
  split; rename_i nl2 s7 e7
  have h7 := (Named.ite (fun _ => named_expectNewline s6) (fun _ => named_nil)).of_eq e7
  exact ((((((h1.append h2).append h3).append h4).append h5).append h6).append h7).wrap rfl

theorem returnStmt_names (s : Cursor) : Named (returnStmt (fuel + 1) s).1 := by
  rw [returnStmt]
  split; rename_i kw s1 e1
  have h1 := (named_bumpAny s).of_eq e1
  split; rename_i e s2 e2
  have h2 := (Named.ite (fun _ => ih.expression s1) (fun _ => named_nil)).of_eq e2
  split; rename_i nl s3 e3
  exact ((h1.append h2).append ((named_expectNewline s2).of_eq e3)).wrap rfl

theorem exprStmt_names (s : Cursor) : Named (exprStmt (fuel + 1) s).1 := by
  rw [exprStmt]
  split; rename_i e s1 e1
  have h1 := (ih.expression s).of_eq e1
  split; rename_i nl s2 e2
  exact (h1.append ((named_expectNewline s1).of_eq e2)).wrap rfl

theorem expression_names (s : Cursor) : Named (expression (fuel + 1) s).1 := by
  rw [expression]
  exact ih.exprBp s 0

theorem exprBp_names (s : Cursor) (min : Nat) : Named (exprBp (fuel + 1) s min).1 := by
  rw [exprBp]
  split; rename_i lhs? s1 e1
  have h1 := (ih.unary s true).of_eq_getD e1
  split
  · exact named_nil
  · split; rename_i e s2 e2
    exact (ih.infixChain s1 min _ h1).of_eq e2

theorem infixChain_names (s : Cursor) (min : Nat) (lhs : List BareTree) (h : Named lhs) :
    Named (infixChain (fuel + 1) s min lhs).1 := by
  rw [infixChain]
  split
  · exact h
  split_ifs
  · exact h
  · split; rename_i err s1 e1
    exact h.append ((named_expressionTooDeep s).of_eq e1)
  · -- the operator and its right operand join the left operand in one node
    split; rename_i op s1 e1
    have h1 := (named_bumpAny { s with nesting := s.nesting + 1 }).of_eq e1
    split; rename_i rhs s2 e2
    have h2 := (ih.exprBp s1 _).of_eq e2
    exact ih.infixChain _ min _ (((h.append h1).append h2).wrap rfl)

theorem unary_names (s : Cursor) (calls : Bool) : Named ((unary (fuel + 1) s calls).1.getD []) := by
  rw [unary]
  split
  · split; rename_i err s1 e1
    exact (named_expressionTooDeep s).of_eq e1
  · split; rename_i e s1 e1
    exact (ih.unaryInner { s with nesting := s.nesting + 1 } calls).of_eq_getD e1

theorem unaryInner_names (s : Cursor) (calls : Bool) :
    Named ((unaryInner (fuel + 1) s calls).1.getD []) := by
  rw [unaryInner]
  split
  · split; rename_i op s1 e1
    have h1 := (named_bumpAny s).of_eq e1
    split; rename_i inner s2 e2
    have h2 : Named inner := by
      refine (Named.ite (fun _ => ih.exprBp s1 _) (fun _ => ?_)).of_eq e2
      split; rename_i e s3 e3
      exact (ih.unary s1 false).of_eq_getD e3
    exact (h1.append h2).wrap rfl
  · split; rename_i p? s1 e1
    have h1 := (ih.primary s calls).of_eq_getD e1
    split
    · exact named_nil
    · split; rename_i e s2 e2
      exact (ih.accessChain s1 _ calls h1).of_eq e2

theorem accessChain_names (s : Cursor) (lhs : List BareTree) (calls : Bool) (h : Named lhs) :
    Named (accessChain (fuel + 1) s lhs calls).1 := by
  rw [accessChain]
  split_ifs
  · split; rename_i err s1 e1
    exact h.append ((named_expressionTooDeep s).of_eq e1)
  · -- a member: the name after the operator is read at an identifier
    split; rename_i op s1 e1
    have h1 := (named_bumpAny { s with nesting := s.nesting + 1 }).of_eq e1
    split; rename_i m s2 e2
    have h2 : Named m := by
      refine Named.of_eq ?_ e2
      split
      · rename_i hid
        exact ih.nameRefOrCall s1 calls (by simpa using hid)
      · exact named_nil
    exact ih.accessChain _ _ calls (((h.append h1).append h2).wrap rfl)
  · -- an index
    split; rename_i lb s1 e1
    have h1 := (named_bumpAny { s with nesting := s.nesting + 1 }).of_eq e1
    split; rename_i idx s2 e2
    have h2 := (ih.expression s1).of_eq e2
    split; rename_i ok rb s3 e3
    have h3 := (named_expect s2 _).of_eq_snd e3
    exact ih.accessChain _ _ calls ((((h.append h1).append h2).append h3).wrap rfl)
  · exact h

theorem primary_names (s : Cursor) (calls : Bool) : Named ((primary (fuel + 1) s calls).1.getD []) := by
  rw [primary]
  split_ifs with hid
  · split; rename_i e s1 e1
    exact (ih.nameRefOrCall s calls (by simpa using hid)).of_eq e1
  · split; rename_i e s1 e1
    exact (ih.lambda s).of_eq e1
  · split; rename_i lp s1 e1
    have h1 := (named_bumpAny { s with parenDepth := s.parenDepth + 1 }).of_eq e1
    split; rename_i e s2 e2
    have h2 := (ih.expression s1).of_eq e2
    split; rename_i ok rp s3 e3
    have h3 := (named_expect { s2 with parenDepth := s2.parenDepth - 1 } _).of_eq_snd e3
    exact ((h1.append h2).append h3).wrap rfl
  · split; rename_i t s1 e1
    exact ((named_bumpAny s).of_eq e1).wrap rfl
  · exact named_nil
  · split; rename_i t s1 e1
    exact ((named_bumpAny (s.report _)).of_eq e1).wrap rfl

/-- The name of a call, or the name alone, is the identifier taken. -/
theorem nameRefOrCall_names (s : Cursor) (calls : Bool) (hid : s.current = .ident) :
    Named (nameRefOrCall (fuel + 1) s calls).1 := by
  rw [nameRefOrCall]
  split; rename_i id s1 e1
  have hname : Named [.node .nameRef id] := by
    have hb := bumpAny_nameBody hid
    have hn := named_bumpAny s
    rw [e1] at hb hn
    exact Named.nameNode hb hn _
  dsimp only
  split_ifs
  · exact hname
  · exact (hname.append ((ih.parenArgs s1).wrap rfl)).wrap rfl
  · exact (hname.append ((ih.argSequence s1 false).wrap rfl)).wrap rfl

theorem parenArgs_names (s : Cursor) : Named (parenArgs (fuel + 1) s).1 := by
  rw [parenArgs]
  split; rename_i lp s1 e1
  have h1 := (named_bumpAny { s with parenDepth := s.parenDepth + 1 }).of_eq e1
  split; rename_i items s2 e2
  have h2 := (ih.parenArgItems s1).of_eq e2
  split; rename_i ok rp s3 e3
  exact (h1.append h2).append ((named_expect { s2 with parenDepth := s2.parenDepth - 1 } _).of_eq_snd e3)

theorem parenArgItems_names (s : Cursor) : Named (parenArgItems (fuel + 1) s).1 := by
  rw [parenArgItems]
  split
  · exact named_nil
  split; rename_i item s1 e1
  have h1 := (Named.ite (fun _ => ih.expression s) (fun _ => named_recover s _ _)).of_eq e1
  split; rename_i ok c s2 e2
  have h2 := (named_eat s1 _).of_eq_snd e2
  split; rename_i more s3 e3
  exact (h1.append h2).append ((ih.parenArgItems s2).of_eq e3)

theorem bareArgs_names (s : Cursor) : Named (bareArgs (fuel + 1) s).1 := by
  rw [bareArgs]
  split; rename_i args s1 e1
  exact ((ih.argSequence s false).of_eq e1).wrap rfl

theorem argSequence_names (s : Cursor) (afterComma : Bool) :
    Named (argSequence (fuel + 1) s afterComma).1 := by
  rw [argSequence]
  split
  · split; rename_i a s1 e1
    have h1 := (ih.unary s false).of_eq_getD e1
    split; rename_i comma c s2 e2
    have h2 := (named_eat s1 _).of_eq_snd e2
    split; rename_i more s3 e3
    exact (h1.append h2).append ((ih.argSequence s2 comma).of_eq e3)
  · exact named_nil

theorem lambda_names (s : Cursor) : Named (lambda (fuel + 1) s).1 := by
  rw [lambda]
  split; rename_i lp s1 e1
  have h1 := (named_bumpAny { s with parenDepth := 0 }).of_eq e1
  split; rename_i kw s2 e2
  have h2 := (named_bumpAny s1).of_eq e2
  split; rename_i ty s3 e3
  have h3 := (named_name s2 _).of_eq e3
  split; rename_i params s4 e4
  have h4 := (Named.ite (fun _ => named_paramList s3) (fun _ => named_nil)).of_eq e4
  split; rename_i nl s5 e5
  have h5 := (named_expectNewline s4).of_eq e5
  split; rename_i body s6 e6
  have h6 := (ih.stmtList { s5 with beginDepth := s5.beginDepth + 1 }).of_eq e6
  split; rename_i ok e s7 e7
  have h7 := (named_expect { s6 with beginDepth := s6.beginDepth - 1 } _).of_eq_snd e7
  split; rename_i ok2 rp s8 e8
  have h8 := (named_expect { s7 with parenDepth := s.parenDepth } _).of_eq_snd e8
  exact (((((((h1.append h2).append h3).append h4).append h5).append h6).append h7).append
    h8).wrap rfl

/-- The functions at `fuel + 1` build name nodes that hold a name body when
the ones at `fuel` do. -/
theorem namesKept_succ : NamesKept (fuel + 1) where
  stmtList := stmtList_names ih
  stmtListBody := stmtListBody_names ih
  statement := statement_names ih
  varDeclStmt := varDeclStmt_names ih
  setStmt := setStmt_names ih
  letStmt := letStmt_names ih
  ifStmt := ifStmt_names ih
  elseChain := elseChain_names ih
  whileStmt := whileStmt_names ih
  foreachStmt := foreachStmt_names ih
  beginOrNested := beginOrNested_names ih
  beginStmt := beginStmt_names ih
  returnStmt := returnStmt_names ih
  exprStmt := exprStmt_names ih
  expression := expression_names ih
  exprBp := exprBp_names ih
  infixChain := infixChain_names ih
  unary := unary_names ih
  unaryInner := unaryInner_names ih
  accessChain := accessChain_names ih
  primary := primary_names ih
  nameRefOrCall := nameRefOrCall_names ih
  parenArgs := parenArgs_names ih
  parenArgItems := parenArgItems_names ih
  bareArgs := bareArgs_names ih
  argSequence := argSequence_names ih
  lambda := lambda_names ih

end Unfold

/-- Every function of the grammar, at every fuel, builds name nodes that
hold a name body. -/
theorem namesKept : ∀ fuel, NamesKept fuel
  | 0 => namesKept_zero
  | fuel + 1 => namesKept_succ (namesKept fuel)

theorem scriptNameDecl_names (s : Cursor) : Named (scriptNameDecl s).1 :=
  (((named_bumpAny s).append (named_name _ _)).append (named_expectNewline _)).wrap rfl

theorem topLevel_names (fuel : Nat) (s : Cursor) : Named (topLevel fuel s).1 := by
  induction fuel generalizing s with
  | zero =>
    rw [topLevel]
    exact named_nil
  | succ fuel ihf =>
    rw [topLevel]
    split
    · exact named_nil
    split; rename_i item s1 e1
    have h1 : Named item := by
      refine Named.of_eq ?_ e1
      split_ifs
      · split; rename_i u nl s1 e
        exact (named_eat s _).of_eq_snd e
      · exact scriptNameDecl_names (s.report _)
      · exact named_recover s _ _
      · exact (namesKept fuel).statement s
      · exact (namesKept fuel).statement (s.report _)
    split; rename_i more s2 e2
    exact h1.append ((ihf s1).of_eq e2)

/-- Every name node of a script's bare tree holds a name body. -/
theorem script_names (fuel : Nat) (s : Cursor) : (script fuel s).1.NamesWrapped := by
  rw [script]
  split; rename_i blank s1 e1
  have h1 := (named_of_tokens (fun b hb => ⟨_, eatLineBreaks_newlines s b hb⟩)).of_eq e1
  split; rename_i decl s2 e2
  have h2 := (Named.ite (fun _ => scriptNameDecl_names s1) (fun _ => named_nil)).of_eq e2
  split; rename_i items s3 e3
  have h := ((h1.append h2).append ((topLevel_names fuel s2).of_eq e3)).wrap (k := .script) rfl
  simpa using h

end Grammar

/-! ## Name nodes of a parse tree -/

namespace TokenTree

theorem bareList_eq_map (ts : List TokenTree) : bareList ts = ts.map bare := by
  induction ts with
  | nil => simp
  | cons t ts ih => simp [ih]

theorem named_bareList_of_subset {ts us : List TokenTree} (h : ts ⊆ us)
    (hus : Named (bareList us)) : Named (bareList ts) := by
  rw [bareList_eq_map, named_iff] at hus ⊢
  intro b hb
  obtain ⟨t, ht, rfl⟩ := List.mem_map.1 hb
  exact hus _ (List.mem_map_of_mem (h ht))

end TokenTree

namespace SyntaxTree

theorem shape_subset_shapeOf {c : SyntaxTree} {cs : List SyntaxTree} (hc : c ∈ cs) :
    c.shape ⊆ shapeOf cs := by
  obtain ⟨xs, ys, rfl⟩ := List.mem_iff_append.1 hc
  simp only [shapeOf_append, shapeOf_cons]
  exact List.subset_append_of_subset_right _ (List.subset_append_left _ _)

theorem token_mem_shapeOf {t : Token} {cs : List SyntaxTree} (ht : token t ∈ cs)
    (hk : t.kind.isTrivia = false) : TokenTree.token t ∈ shapeOf cs :=
  shape_subset_shapeOf ht (by simp [hk])

/-- A name node under a tree whose grammar view is named holds a name body. -/
theorem nameBody_of_within {T P : SyntaxTree} (hT : Named (TokenTree.bareList T.shape))
    (hw : P.Within T) {k : NodeKind} {a b : Nat} {cs : List SyntaxTree} (hP : P = node k a b cs)
    (hk : k = .name ∨ k = .nameRef) : IsNameBody (TokenTree.bareList (shapeOf cs)) := by
  induction hw with
  | refl =>
    subst hP
    simp only [shape_node, TokenTree.bareList_cons, TokenTree.bare_node, TokenTree.bareList_nil,
      named_cons, namesWrapped_node, named_nil, and_true] at hT
    exact hT.1 hk
  | child hc _ ih =>
    simp only [shape_node, TokenTree.bareList_cons, TokenTree.bare_node, TokenTree.bareList_nil,
      named_cons, namesWrapped_node, named_nil, and_true] at hT
    exact ih (TokenTree.named_bareList_of_subset (shape_subset_shapeOf hc) hT.2)

/-- A node whose grammar view is a name body holds one identifier token. -/
theorem eq_of_nameBody {cs : List SyntaxTree} (h : IsNameBody (TokenTree.bareList (shapeOf cs)))
    {t u : Token} (ht : token t ∈ cs) (hu : token u ∈ cs) (htk : t.kind = .ident)
    (huk : u.kind = .ident) : t = u := by
  obtain ⟨hhead, htail⟩ := h
  -- an identifier is significant, so it stands in the grammar's view; there it is the head
  have hfirst : ∀ v : Token, token v ∈ cs → v.kind = .ident → shapeOf cs = TokenTree.token v ::
      (shapeOf cs).tail := by
    intro v hv hvk
    have hmem := token_mem_shapeOf hv (by rw [hvk]; rfl)
    cases hx : shapeOf cs with
    | nil => rw [hx] at hmem; cases hmem
    | cons x xs =>
      rw [hx] at hmem
      rcases List.mem_cons.1 hmem with rfl | hmem
      · rfl
      · have := htail (TokenTree.token v).bare (by
          rw [hx, TokenTree.bareList_eq_map]
          exact List.mem_map_of_mem hmem)
        simp [hvk] at this
  have h1 := hfirst t ht htk
  have h2 := hfirst u hu huk
  rw [h1] at h2
  simpa using h2

/-- The text a name node stands for is the text of an identifier token it holds. -/
theorem identText_of_nameBody {P : SyntaxTree} (h : IsNameBody (TokenTree.bareList (shapeOf P.children)))
    {t : Token} (ht : token t ∈ P.children) (htk : t.kind = .ident) : P.identText = t.text := by
  have hsome : (P.tokenOf? .ident).isSome := by
    simp only [tokenOf?, childTokens, List.find?_isSome, List.mem_filterMap]
    exact ⟨t, ⟨_, ht, rfl⟩, by simp [htk]⟩
  obtain ⟨u, hu⟩ := Option.isSome_iff_exists.1 hsome
  have humem : u ∈ P.childTokens := List.mem_of_find?_eq_some hu
  have huk : u.kind = .ident := by simpa using List.find?_some hu
  obtain ⟨c, hc, hcu⟩ := List.mem_filterMap.1 humem
  cases c with
  | node => simp [token?] at hcu
  | token v =>
    cases hcu
    simp [identText, hu, eq_of_nameBody h hc ht huk htk]

end SyntaxTree

/-- The grammar's view of a script parse: the bare script filled in order from
the significant tokens of the source, then the significant tokens the grammar
left before the end of input. -/
theorem parseScript_shape (source : String) (isFunction : String → Bool) :
    ∃ (cs : List BareTree) (ts : List TokenTree) (rest : List Token),
      (Grammar.script (Grammar.fuelFor (Lexeme.ofTokens (lex source) isFunction).length)
        { rest := Lexeme.ofTokens (lex source) isFunction }).1 = .node .script cs ∧
      TokenTree.bareList ts = cs ∧
      (parseScript source isFunction).root.shape = [.node .script (ts ++ rest.map .token)] := by
  set ls := Lexeme.ofTokens (lex source) isFunction with hls
  obtain ⟨cs, hcs⟩ := Grammar.script_root (Grammar.fuelFor ls.length) { rest := ls }
  have hkeeps := Grammar.script_keeps (Grammar.fuelFor ls.length) { rest := ls }
  rw [hcs] at hkeeps
  -- the leaves of the script are spelled by the first significant tokens of the source
  set sig := (lex source).filter fun t => !t.kind.isTrivia && t.kind != .eof
  set n := (BareTree.kindsOf cs).length
  have hk : (sig.take n).map (·.kind) = BareTree.kindsOf cs := by
    rw [List.map_take, ← ofTokens_kinds (lex source) isFunction, ← hls]
    simp only [BareTree.kinds_node] at hkeeps
    rw [← hkeeps]
    exact List.take_left' rfl
  have he : ∀ u ∈ sig.take n, u.kind ≠ .eof := by
    intro u hu
    have hp := (List.mem_filter.mp (List.mem_of_mem_take hu)).2
    simp only [Bool.and_eq_true, bne_iff_ne] at hp
    exact hp.2
  obtain ⟨ts, hts, htok⟩ := TokenTree.existsList_of_kinds cs (sig.take n) hk
  have hfill := TokenTree.fillList_bare ts (sig.drop n ++ [⟨.eof, source.utf8ByteSize, ""⟩])
    (by rw [htok]; exact he)
  rw [htok, hts, ← List.append_assoc, List.take_append_drop, ← significant_lex] at hfill
  refine ⟨cs, ts, (sig.drop n ++ [(⟨.eof, source.utf8ByteSize, ""⟩ : Token)]).takeWhile
    (·.kind != TokenKind.eof), hcs, hts, ?_⟩
  rw [parseScript_eq, ← hls, hcs, attach_shape, hfill]

/-- Every name node of a script parse holds one identifier token, whose text
is the text the node stands for. -/
theorem parseScript_identText (source : String) (isFunction : String → Bool) {P : SyntaxTree}
    (hw : P.Within (parseScript source isFunction).root)
    (hk : P.isNode .name = true ∨ P.isNode .nameRef = true) {t : Token}
    (ht : SyntaxTree.token t ∈ P.children) (htk : t.kind = .ident) : P.identText = t.text := by
  obtain ⟨cs, ts, rest, hcs, hts, hshape⟩ := parseScript_shape source isFunction
  -- the grammar's view of the whole parse is named
  have hroot : Named (TokenTree.bareList (parseScript source isFunction).root.shape) := by
    have hnames := Grammar.script_names (Grammar.fuelFor (Lexeme.ofTokens (lex source) isFunction).length)
      { rest := Lexeme.ofTokens (lex source) isFunction }
    rw [hcs, namesWrapped_node] at hnames
    -- the tokens the grammar left are leaves of the root
    have htail : Named (TokenTree.bareList (rest.map TokenTree.token)) := named_of_tokens fun b hb => by
      rw [TokenTree.bareList_eq_map, List.map_map] at hb
      obtain ⟨u, -, rfl⟩ := List.mem_map.1 hb
      exact ⟨_, rfl⟩
    have hne : ¬ (NodeKind.script = .name ∨ NodeKind.script = .nameRef) := by decide
    rw [hshape]
    simp only [TokenTree.bareList_cons, TokenTree.bare_node, TokenTree.bareList_nil, named_cons,
      namesWrapped_node, named_nil, and_true, hne, false_implies, true_and]
    rw [TokenTree.bareList_eq_map, List.map_append, ← TokenTree.bareList_eq_map,
      ← TokenTree.bareList_eq_map, hts]
    exact hnames.2.append htail
  cases P with
  | token => simp [SyntaxTree.isNode, SyntaxTree.isNodeWith, SyntaxTree.nodeKind?] at hk
  | node k a b cs' =>
    have hk' : k = .name ∨ k = .nameRef := by
      simpa [SyntaxTree.isNode, SyntaxTree.isNodeWith, SyntaxTree.nodeKind?] using hk
    exact SyntaxTree.identText_of_nameBody (SyntaxTree.nameBody_of_within hroot hw rfl hk') ht htk

end GameScript
