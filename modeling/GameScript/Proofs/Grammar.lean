import Mathlib
import GameScript.Proofs.Cursor
import GameScript.Syntax.Parse
/-!
# The grammar only moves its cursor

Every function of the grammar leaves a cursor that a run of the three moves of
`GameScript.Proofs.Cursor` leads to from the cursor it was given, whatever the
fuel, the input and the counters. The functions call one another, so this is
one statement about all of them, `Grammar.Reaches fuel`, proved by induction on
the fuel: at `fuel + 1` each function unfolds once into steps of the cursor and
calls at `fuel`. Its proof follows the body: each `let` pattern is split in
turn, and the cursor it binds is reached from the one before (`Reach.of_eq`).
The top level, a plain recursion of its own, and the two entry points come
last.

Nothing here looks at which tokens are taken or which problems are reported:
that is left to the properties proved against the moves.
-/

set_option autoImplicit false

namespace GameScript

namespace Grammar

open Cursor

variable {s₀ s : Cursor}

theorem keywordStmt_reach (h : Reach s₀ s) (kind : NodeKind) :
    Reach s₀ (keywordStmt s kind).2 :=
  h.bumpAny.expectNewline

/-- Every function of the grammar, at a given fuel, leaves a cursor reachable
from the one it was given. Each field is stated after any run that led to its
argument, so that the calls of a function body compose by applying the
fields from the last call back. -/
structure Reaches (fuel : Nat) : Prop where
  stmtList : ∀ {s₀ s : Cursor}, Reach s₀ s → Reach s₀ (stmtList fuel s).2
  stmtListBody : ∀ {s₀ s : Cursor}, Reach s₀ s → Reach s₀ (stmtListBody fuel s).2
  statement : ∀ {s₀ s : Cursor}, Reach s₀ s → Reach s₀ (statement fuel s).2
  varDeclStmt : ∀ {s₀ s : Cursor}, Reach s₀ s → Reach s₀ (varDeclStmt fuel s).2
  setStmt : ∀ {s₀ s : Cursor}, Reach s₀ s → Reach s₀ (setStmt fuel s).2
  letStmt : ∀ {s₀ s : Cursor}, Reach s₀ s → Reach s₀ (letStmt fuel s).2
  ifStmt : ∀ {s₀ s : Cursor}, Reach s₀ s → Reach s₀ (ifStmt fuel s).2
  elseChain : ∀ {s₀ s : Cursor}, Reach s₀ s → Reach s₀ (elseChain fuel s).2
  whileStmt : ∀ {s₀ s : Cursor}, Reach s₀ s → Reach s₀ (whileStmt fuel s).2
  foreachStmt : ∀ {s₀ s : Cursor}, Reach s₀ s → Reach s₀ (foreachStmt fuel s).2
  beginOrNested : ∀ {s₀ s : Cursor}, Reach s₀ s → Reach s₀ (beginOrNested fuel s).2
  beginStmt : ∀ {s₀ s : Cursor}, Reach s₀ s → Reach s₀ (beginStmt fuel s).2
  returnStmt : ∀ {s₀ s : Cursor}, Reach s₀ s → Reach s₀ (returnStmt fuel s).2
  exprStmt : ∀ {s₀ s : Cursor}, Reach s₀ s → Reach s₀ (exprStmt fuel s).2
  expression : ∀ {s₀ s : Cursor}, Reach s₀ s → Reach s₀ (expression fuel s).2
  exprBp : ∀ {s₀ s : Cursor} (min : Nat), Reach s₀ s → Reach s₀ (exprBp fuel s min).2
  infixChain : ∀ {s₀ s : Cursor} (min : Nat) (lhs : List BareTree),
    Reach s₀ s → Reach s₀ (infixChain fuel s min lhs).2
  unary : ∀ {s₀ s : Cursor} (calls : Bool), Reach s₀ s → Reach s₀ (unary fuel s calls).2
  unaryInner : ∀ {s₀ s : Cursor} (calls : Bool), Reach s₀ s → Reach s₀ (unaryInner fuel s calls).2
  accessChain : ∀ {s₀ s : Cursor} (lhs : List BareTree) (calls : Bool),
    Reach s₀ s → Reach s₀ (accessChain fuel s lhs calls).2
  primary : ∀ {s₀ s : Cursor} (calls : Bool), Reach s₀ s → Reach s₀ (primary fuel s calls).2
  nameRefOrCall : ∀ {s₀ s : Cursor} (calls : Bool),
    Reach s₀ s → Reach s₀ (nameRefOrCall fuel s calls).2
  parenArgs : ∀ {s₀ s : Cursor}, Reach s₀ s → Reach s₀ (parenArgs fuel s).2
  parenArgItems : ∀ {s₀ s : Cursor}, Reach s₀ s → Reach s₀ (parenArgItems fuel s).2
  bareArgs : ∀ {s₀ s : Cursor}, Reach s₀ s → Reach s₀ (bareArgs fuel s).2
  argSequence : ∀ {s₀ s : Cursor} (afterComma : Bool),
    Reach s₀ s → Reach s₀ (argSequence fuel s afterComma).2
  lambda : ∀ {s₀ s : Cursor}, Reach s₀ s → Reach s₀ (lambda fuel s).2

/-- With no fuel left every function stops where it is. -/
theorem reaches_zero : Reaches 0 := by
  constructor <;> intros <;>
    simp only [stmtList, stmtListBody, statement, varDeclStmt, setStmt, letStmt, ifStmt,
      elseChain, whileStmt, foreachStmt, beginOrNested, beginStmt, returnStmt, exprStmt,
      expression, exprBp, infixChain, unary, unaryInner, accessChain, primary, nameRefOrCall,
      parenArgs, parenArgItems, bareArgs, argSequence, lambda] <;>
    assumption

/-! ## One unfolding

Each function at `fuel + 1`, given what the functions at `fuel` do. The steps
are taken in the order of the body: every `let` pattern is split, and the
cursor it binds is reached from the one before. The statement forms, calls
and lambdas begin by taking a token; their lemmas start from the cursor after
it, which is what shows that they consume one. -/

section Unfold

variable {fuel : Nat} (ih : Reaches fuel)
include ih

theorem stmtList_reach (h : Reach s₀ s) : Reach s₀ (stmtList (fuel + 1) s).2 := by
  rw [stmtList]
  split
  · split; rename_i err s1 e1
    exact h.blockTooDeep.of_eq e1
  · split; rename_i body s1 e1
    exact ((ih.stmtListBody (h.nesting _)).of_eq e1).nesting _

theorem stmtListBody_reach (h : Reach s₀ s) : Reach s₀ (stmtListBody (fuel + 1) s).2 := by
  rw [stmtListBody]
  split
  · exact h
  split; rename_i item s1 e1
  have h1 : Reach s₀ s1 := by
    refine Reach.of_eq ?_ e1
    split_ifs
    · split; rename_i u nl s1 e
      exact (h.eat _).of_eq e
    · exact ih.statement h
  split; rename_i more s2 e2
  exact (ih.stmtListBody h1).of_eq e2

theorem statement_reach (h : Reach s₀ s) : Reach s₀ (statement (fuel + 1) s).2 := by
  rw [statement]
  -- one branch per leading keyword, taken without bringing the tests into the context
  exact Reach.ite (fun _ => ih.setStmt h) fun _ => Reach.ite (fun _ => ih.letStmt h) fun _ =>
    Reach.ite (fun _ => ih.ifStmt h) fun _ => Reach.ite (fun _ => ih.whileStmt h) fun _ =>
    Reach.ite (fun _ => ih.foreachStmt h) fun _ => Reach.ite (fun _ => ih.beginOrNested h) fun _ =>
    Reach.ite (fun _ => ih.returnStmt h) fun _ => Reach.ite (fun _ => keywordStmt_reach h _)
    fun _ => Reach.ite (fun _ => keywordStmt_reach h _) fun _ =>
    Reach.ite (fun _ => ih.varDeclStmt h) fun _ => ih.exprStmt h

theorem varDeclStmt_reach (h : Reach s₀ s.varDecl.1.2) : Reach s₀ (varDeclStmt (fuel + 1) s).2 := by
  rw [varDeclStmt]
  split; rename_i decl s1 e1
  have h1 := h.of_eq e1
  split; rename_i ok op s2 e2
  have h2 := (h1.eat _).of_eq e2
  split; rename_i init s3 e3
  have h3 := (Reach.ite (fun _ => ih.expression h2) (fun _ => h2)).of_eq e3
  split; rename_i nl s4 e4
  exact h3.expectNewline.of_eq e4

theorem setStmt_reach (h : Reach s₀ s.bumpAny.1.2) : Reach s₀ (setStmt (fuel + 1) s).2 := by
  rw [setStmt]
  split; rename_i kw s1 e1
  have h1 := h.of_eq e1
  split; rename_i target s2 e2
  have h2 := (ih.expression h1).of_eq e2
  split; rename_i ok toKw s3 e3
  have h3 := (h2.expect _).of_eq e3
  split; rename_i value s4 e4
  have h4 := (Reach.ite (fun _ => ih.expression h3) (fun _ => h3)).of_eq e4
  split; rename_i nl s5 e5
  exact h4.expectNewline.of_eq e5

theorem letStmt_reach (h : Reach s₀ s.bumpAny.1.2) : Reach s₀ (letStmt (fuel + 1) s).2 := by
  rw [letStmt]
  split; rename_i kw s1 e1
  have h1 := h.of_eq e1
  split; rename_i e s2 e2
  have h2 := (ih.expression h1).of_eq e2
  split; rename_i nl s3 e3
  exact h2.expectNewline.of_eq e3

theorem ifStmt_reach (h : Reach s₀ s.bumpAny.1.2) : Reach s₀ (ifStmt (fuel + 1) s).2 := by
  rw [ifStmt]
  split; rename_i kw s1 e1
  have h1 := h.of_eq e1
  split; rename_i cond s2 e2
  have h2 := (ih.expression h1).of_eq e2
  split; rename_i nl s3 e3
  have h3 := h2.expectNewline.of_eq e3
  split; rename_i body s4 e4
  have h4 := (ih.stmtList h3).of_eq e4
  split; rename_i branch s5 e5
  have h5 := (ih.elseChain h4).of_eq e5
  split; rename_i ok endif s6 e6
  have h6 := (h5.expect _).of_eq e6
  split; rename_i nl2 s7 e7
  exact (Reach.ite (fun _ => h6.expectNewline) (fun _ => h6)).of_eq e7

theorem elseChain_reach (h : Reach s₀ s) : Reach s₀ (elseChain (fuel + 1) s).2 := by
  rw [elseChain]
  split_ifs
  · -- `elseif`: the rest of the chain is its own
    split; rename_i kw s1 e1
    have h1 := h.bumpAny.of_eq e1
    split; rename_i cond s2 e2
    have h2 := (ih.expression h1).of_eq e2
    split; rename_i nl s3 e3
    have h3 := h2.expectNewline.of_eq e3
    split; rename_i body s4 e4
    have h4 := (ih.stmtList h3).of_eq e4
    split; rename_i next s5 e5
    exact (ih.elseChain h4).of_eq e5
  · split; rename_i kw s1 e1
    have h1 := h.bumpAny.of_eq e1
    split; rename_i nl s2 e2
    have h2 := h1.expectNewline.of_eq e2
    split; rename_i body s3 e3
    exact (ih.stmtList h2).of_eq e3
  · exact h

theorem whileStmt_reach (h : Reach s₀ s.bumpAny.1.2) : Reach s₀ (whileStmt (fuel + 1) s).2 := by
  rw [whileStmt]
  split; rename_i kw s1 e1
  have h1 := h.of_eq e1
  split; rename_i cond s2 e2
  have h2 := (ih.expression h1).of_eq e2
  split; rename_i nl s3 e3
  have h3 := h2.expectNewline.of_eq e3
  split; rename_i body s4 e4
  have h4 := (ih.stmtList h3).of_eq e4
  split; rename_i ok lp s5 e5
  have h5 := (h4.expect _).of_eq e5
  split; rename_i nl2 s6 e6
  exact (Reach.ite (fun _ => h5.expectNewline) (fun _ => h5)).of_eq e6

theorem foreachStmt_reach (h : Reach s₀ s.bumpAny.1.2) : Reach s₀ (foreachStmt (fuel + 1) s).2 := by
  rw [foreachStmt]
  split; rename_i kw s1 e1
  have h1 := h.of_eq e1
  split; rename_i var s2 e2
  have h2 := (h1.varOrVarDecl _).of_eq e2
  split; rename_i ok arrow s3 e3
  have h3 := (h2.expect _).of_eq e3
  split; rename_i iter s4 e4
  have h4 := (Reach.ite (fun _ => ih.expression h3) (fun _ => h3)).of_eq e4
  split; rename_i nl s5 e5
  have h5 := h4.expectNewline.of_eq e5
  split; rename_i body s6 e6
  have h6 := (ih.stmtList h5).of_eq e6
  split; rename_i ok2 lp s7 e7
  have h7 := (h6.expect _).of_eq e7
  split; rename_i nl2 s8 e8
  exact (Reach.ite (fun _ => h7.expectNewline) (fun _ => h7)).of_eq e8

theorem beginOrNested_reach (h : Reach s₀ s) : Reach s₀ (beginOrNested (fuel + 1) s).2 := by
  rw [beginOrNested]
  split
  · exact ih.beginStmt h
  · split; rename_i blk s1 e1
    exact (ih.beginStmt (h.report _)).of_eq e1

theorem beginStmt_reach (h : Reach s₀ s.bumpAny.1.2) : Reach s₀ (beginStmt (fuel + 1) s).2 := by
  rw [beginStmt]
  split; rename_i kw s1 e1
  have h1 := h.of_eq e1
  split; rename_i ty s2 e2
  have h2 := (h1.name _).of_eq e2
  split; rename_i extra s3 e3
  have h3 := (Reach.ite (fun _ => h2.paramList)
    (fun _ => Reach.ite (fun _ => ih.bareArgs h2) (fun _ => h2))).of_eq e3
  split; rename_i nl s4 e4
  have h4 := h3.expectNewline.of_eq e4
  split; rename_i body s5 e5
  have h5 := (ih.stmtList (h4.beginDepth _)).of_eq e5
  split; rename_i ok e s6 e6
  have h6 := ((h5.beginDepth _).expect _).of_eq e6
  split; rename_i nl2 s7 e7
  exact (Reach.ite (fun _ => h6.expectNewline) (fun _ => h6)).of_eq e7

theorem returnStmt_reach (h : Reach s₀ s.bumpAny.1.2) : Reach s₀ (returnStmt (fuel + 1) s).2 := by
  rw [returnStmt]
  split; rename_i kw s1 e1
  have h1 := h.of_eq e1
  split; rename_i e s2 e2
  have h2 := (Reach.ite (fun _ => ih.expression h1) (fun _ => h1)).of_eq e2
  split; rename_i nl s3 e3
  exact h2.expectNewline.of_eq e3

theorem exprStmt_reach (h : Reach s₀ s) : Reach s₀ (exprStmt (fuel + 1) s).2 := by
  rw [exprStmt]
  split; rename_i e s1 e1
  have h1 := (ih.expression h).of_eq e1
  split; rename_i nl s2 e2
  exact h1.expectNewline.of_eq e2

theorem expression_reach (h : Reach s₀ s) : Reach s₀ (expression (fuel + 1) s).2 := by
  rw [expression]
  exact ih.exprBp 0 h

theorem exprBp_reach (min : Nat) (h : Reach s₀ s) : Reach s₀ (exprBp (fuel + 1) s min).2 := by
  rw [exprBp]
  split; rename_i lhs? s1 e1
  have h1 := (ih.unary true h).of_eq e1
  split
  · exact h1
  · split; rename_i e s2 e2
    exact ((ih.infixChain _ _ h1).of_eq e2).nesting _

theorem infixChain_reach (min : Nat) (lhs : List BareTree) (h : Reach s₀ s) :
    Reach s₀ (infixChain (fuel + 1) s min lhs).2 := by
  rw [infixChain]
  split
  · exact h
  split_ifs
  · exact h
  · split; rename_i err s1 e1
    exact h.expressionTooDeep.of_eq e1
  · split; rename_i op s1 e1
    have h1 := (h.nesting _).bumpAny.of_eq e1
    split; rename_i rhs s2 e2
    exact ih.infixChain _ _ ((ih.exprBp _ h1).of_eq e2)

theorem unary_reach (calls : Bool) (h : Reach s₀ s) : Reach s₀ (unary (fuel + 1) s calls).2 := by
  rw [unary]
  split
  · split; rename_i err s1 e1
    exact h.expressionTooDeep.of_eq e1
  · split; rename_i e s1 e1
    exact ((ih.unaryInner calls (h.nesting _)).of_eq e1).nesting _

theorem unaryInner_reach (calls : Bool) (h : Reach s₀ s) :
    Reach s₀ (unaryInner (fuel + 1) s calls).2 := by
  rw [unaryInner]
  split
  · -- a prefix operator; without calls its operand is read at prefix level
    split; rename_i op s1 e1
    have h1 := h.bumpAny.of_eq e1
    split; rename_i inner s2 e2
    refine (Reach.ite (fun _ => ih.exprBp _ h1) (fun _ => ?_)).of_eq e2
    split; rename_i e s3 e3
    exact (ih.unary false h1).of_eq e3
  · split; rename_i p? s1 e1
    have h1 := (ih.primary calls h).of_eq e1
    split
    · exact h1
    · split; rename_i e s2 e2
      exact ((ih.accessChain _ calls h1).of_eq e2).nesting _

theorem accessChain_reach (lhs : List BareTree) (calls : Bool) (h : Reach s₀ s) :
    Reach s₀ (accessChain (fuel + 1) s lhs calls).2 := by
  rw [accessChain]
  split_ifs
  · split; rename_i err s1 e1
    exact h.expressionTooDeep.of_eq e1
  · -- a member: a name, or a report where the name should be
    split; rename_i op s1 e1
    have h1 := (h.nesting _).bumpAny.of_eq e1
    split; rename_i m s2 e2
    have h2 := (Reach.ite (fun _ => ih.nameRefOrCall calls h1) (fun _ => h1.report _)).of_eq e2
    exact ih.accessChain _ calls h2
  · -- an index
    split; rename_i lb s1 e1
    have h1 := (h.nesting _).bumpAny.of_eq e1
    split; rename_i idx s2 e2
    have h2 := (ih.expression h1).of_eq e2
    split; rename_i ok rb s3 e3
    exact ih.accessChain _ calls ((h2.expect _).of_eq e3)
  · exact h.nesting _

theorem primary_reach (calls : Bool) (h : Reach s₀ s) : Reach s₀ (primary (fuel + 1) s calls).2 := by
  rw [primary]
  split_ifs
  · split; rename_i e s1 e1
    exact (ih.nameRefOrCall calls h).of_eq e1
  · split; rename_i e s1 e1
    exact (ih.lambda h).of_eq e1
  · split; rename_i lp s1 e1
    have h1 := (h.parenDepth _).bumpAny.of_eq e1
    split; rename_i e s2 e2
    have h2 := (ih.expression h1).of_eq e2
    split; rename_i ok rp s3 e3
    exact ((h2.parenDepth _).expect _).of_eq e3
  · split; rename_i t s1 e1
    exact h.bumpAny.of_eq e1
  · exact h.report _
  · split; rename_i t s1 e1
    exact (h.report _).bumpAny.of_eq e1

theorem nameRefOrCall_reach (calls : Bool) (h : Reach s₀ s.bumpAny.1.2) :
    Reach s₀ (nameRefOrCall (fuel + 1) s calls).2 := by
  rw [nameRefOrCall]
  split; rename_i id s1 e1
  have h1 := h.of_eq e1
  dsimp only
  split_ifs
  · exact h1
  · exact ih.parenArgs h1
  · exact ih.argSequence false h1

theorem parenArgs_reach (h : Reach s₀ s) : Reach s₀ (parenArgs (fuel + 1) s).2 := by
  rw [parenArgs]
  split; rename_i lp s1 e1
  have h1 := (h.parenDepth _).bumpAny.of_eq e1
  split; rename_i items s2 e2
  have h2 := (ih.parenArgItems h1).of_eq e2
  split; rename_i ok rp s3 e3
  exact ((h2.parenDepth _).expect _).of_eq e3

theorem parenArgItems_reach (h : Reach s₀ s) : Reach s₀ (parenArgItems (fuel + 1) s).2 := by
  rw [parenArgItems]
  split
  · exact h
  split; rename_i item s1 e1
  have h1 := (Reach.ite (fun _ => ih.expression h) (fun _ => h.recover _ _)).of_eq e1
  split; rename_i ok c s2 e2
  have h2 := (h1.eat _).of_eq e2
  split; rename_i more s3 e3
  exact (ih.parenArgItems h2).of_eq e3

theorem bareArgs_reach (h : Reach s₀ s) : Reach s₀ (bareArgs (fuel + 1) s).2 := by
  rw [bareArgs]
  split; rename_i args s1 e1
  exact (ih.argSequence false h).of_eq e1

theorem argSequence_reach (afterComma : Bool) (h : Reach s₀ s) :
    Reach s₀ (argSequence (fuel + 1) s afterComma).2 := by
  rw [argSequence]
  split
  · split; rename_i a s1 e1
    have h1 := (ih.unary false h).of_eq e1
    split; rename_i comma c s2 e2
    have h2 := (h1.eat _).of_eq e2
    split; rename_i more s3 e3
    exact (ih.argSequence comma h2).of_eq e3
  · exact h

theorem lambda_reach (h : Reach s₀ (bumpAny { s with parenDepth := 0 }).1.2) :
    Reach s₀ (lambda (fuel + 1) s).2 := by
  rw [lambda]
  split; rename_i lp s1 e1
  have h1 := h.of_eq e1
  split; rename_i kw s2 e2
  have h2 := h1.bumpAny.of_eq e2
  split; rename_i ty s3 e3
  have h3 := (h2.name _).of_eq e3
  split; rename_i params s4 e4
  have h4 := (Reach.ite (fun _ => h3.paramList) (fun _ => h3)).of_eq e4
  split; rename_i nl s5 e5
  have h5 := h4.expectNewline.of_eq e5
  split; rename_i body s6 e6
  have h6 := (ih.stmtList (h5.beginDepth _)).of_eq e6
  split; rename_i ok e s7 e7
  have h7 := ((h6.beginDepth _).expect _).of_eq e7
  split; rename_i ok2 rp s8 e8
  exact ((h7.parenDepth _).expect _).of_eq e8

/-- The functions at `fuel + 1` do what the ones at `fuel` do. -/
theorem reaches_succ : Reaches (fuel + 1) where
  stmtList := stmtList_reach ih
  stmtListBody := stmtListBody_reach ih
  statement := statement_reach ih
  varDeclStmt := fun h => varDeclStmt_reach ih h.varDecl
  setStmt := fun h => setStmt_reach ih h.bumpAny
  letStmt := fun h => letStmt_reach ih h.bumpAny
  ifStmt := fun h => ifStmt_reach ih h.bumpAny
  elseChain := elseChain_reach ih
  whileStmt := fun h => whileStmt_reach ih h.bumpAny
  foreachStmt := fun h => foreachStmt_reach ih h.bumpAny
  beginOrNested := beginOrNested_reach ih
  beginStmt := fun h => beginStmt_reach ih h.bumpAny
  returnStmt := fun h => returnStmt_reach ih h.bumpAny
  exprStmt := exprStmt_reach ih
  expression := expression_reach ih
  exprBp := exprBp_reach ih
  infixChain := infixChain_reach ih
  unary := unary_reach ih
  unaryInner := unaryInner_reach ih
  accessChain := accessChain_reach ih
  primary := primary_reach ih
  nameRefOrCall := fun calls h => nameRefOrCall_reach ih calls h.bumpAny
  parenArgs := parenArgs_reach ih
  parenArgItems := parenArgItems_reach ih
  bareArgs := bareArgs_reach ih
  argSequence := argSequence_reach ih
  lambda := fun h => lambda_reach ih (h.parenDepth _).bumpAny

end Unfold

/-- Every function of the grammar, at every fuel, only moves the cursor. -/
theorem reaches : ∀ fuel, Reaches fuel
  | 0 => reaches_zero
  | fuel + 1 => reaches_succ (reaches fuel)

/-! ## The top level -/

theorem scriptNameDecl_reach (h : Reach s₀ s) : Reach s₀ (scriptNameDecl s).2 :=
  (h.bumpAny.name _).expectNewline

theorem topLevel_reach (fuel : Nat) (h : Reach s₀ s) : Reach s₀ (topLevel fuel s).2 := by
  induction fuel generalizing s with
  | zero =>
    rw [topLevel]
    exact h
  | succ fuel ihf =>
    rw [topLevel]
    split
    · exact h
    split; rename_i item s1 e1
    have h1 : Reach s₀ s1 := by
      refine Reach.of_eq ?_ e1
      split_ifs
      · split; rename_i u nl s1 e
        exact (h.eat _).of_eq e
      · exact scriptNameDecl_reach (h.report _)
      · exact h.recover _ _
      · exact (reaches fuel).statement h
      · exact (reaches fuel).statement (h.report _)
    split; rename_i more s2 e2
    exact (ihf h1).of_eq e2

theorem script_reach (fuel : Nat) (h : Reach s₀ s) : Reach s₀ (script fuel s).2 := by
  rw [script]
  split; rename_i blank s1 e1
  have h1 := h.eatLineBreaks.of_eq e1
  split; rename_i decl s2 e2
  have h2 := (Reach.ite (fun _ => scriptNameDecl_reach h1) (fun _ => h1.report _)).of_eq e2
  split; rename_i items s3 e3
  exact (topLevel_reach fuel h2).of_eq e3

theorem exprRoot_reach (fuel : Nat) (h : Reach s₀ s) : Reach s₀ (exprRoot fuel s).2 := by
  rw [exprRoot]
  split; rename_i blank s1 e1
  have h1 := h.eatLineBreaks.of_eq e1
  split; rename_i e s2 e2
  have h2 := ((reaches fuel).expression h1).of_eq e2
  split; rename_i blank2 s3 e3
  have h3 := h2.eatLineBreaks.of_eq e3
  split; rename_i junk s4 e4
  refine (Reach.ite (fun _ => h3) (fun _ => ?_)).of_eq e4
  split; rename_i ts s5 e5
  exact (h3.report _).skipAll.of_eq e5

end Grammar

end GameScript
