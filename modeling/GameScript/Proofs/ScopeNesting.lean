import Mathlib
import GameScript.Proofs.LowerRun
import GameScript.Syntax.Parse
/-!
# The scope tree lowering builds

Every function of the lowering walk meets its `Spec`: started from a sound
lowerer it leaves a sound one, and every id its result stores, every symbol
and every scope with the kind its place requires, is in the tree. The seven
functions call one another at one unit of fuel less, so the proof is one
lemma per function from the statement at the fuel below (`Meets`), and an
induction on the fuel.

For a whole script this gives `lower_scopes_wellFormed`: the scope tree of a
lowered script is well formed and every id the resolved script stores fits
it. Looking a scope up by its node finds the first scope opened at a node of
the same kind and range; in a script that stops inside a lambda's header two
empty statement lists meet at the end of the text, so that scope is not
always the one opened there (`scopeOf?_dangling_if`).
-/

set_option autoImplicit false

namespace GameScript

namespace Resolved

namespace Lower

/-- Every lowering function at fuel `fuel` meets its spec, whatever ids are
known before it. -/
structure Meets (fuel : Nat) : Prop where
  stmts : ∀ K nodes, Spec K (stmts fuel nodes) Stmt.listRefs
  block : ∀ K list, Spec K (block fuel list) Block.refs
  stmt : ∀ K node, Spec K (stmt fuel node) Stmt.refs
  loopParts : ∀ K node arrow, Spec K (loopParts fuel node arrow) fun p => p.1.refs ++ p.2.refs
  branch : ∀ K node, Spec K (branch fuel node) Branch.refs
  exprs : ∀ K nodes, Spec K (exprs fuel nodes) Expr.listRefs
  expr : ∀ K node, Spec K (expr fuel node) Expr.refs

theorem meets_zero : Meets 0 where
  stmts _ _ := Spec.pure (by simp [Stmt.listRefs])
  block _ _ := Spec.failure
  stmt _ _ := Spec.failure
  loopParts _ _ _ := Spec.failure
  branch _ _ := Spec.failure
  exprs _ _ := Spec.failure
  expr _ _ := Spec.failure

section Succ

variable {fuel : Nat} (ih : Meets fuel) (K : List Ref)
include ih

theorem Meets.stmts_succ (nodes : List SyntaxTree) :
    Spec K (Lower.stmts (fuel + 1) nodes) Stmt.listRefs := by
  rw [Stmt.listRefs_eq]
  exact Spec.filterMapM (fun K n => Spec.optional (ih.stmt K n)) nodes K

theorem Meets.block_succ (list : Option SyntaxTree) :
    Spec K (Lower.block (fuel + 1) list) Block.refs :=
  Spec.need.bind fun _ => (spec_enter _ _).bind fun scope => (ih.stmts _ _).bind fun body =>
    spec_exit.bind fun _ => Spec.pure fun r hr => by
      simp only [Block.refs, List.mem_cons, List.mem_append] at hr ⊢
      tauto

theorem Meets.exprs_succ (nodes : List SyntaxTree) :
    Spec K (Lower.exprs (fuel + 1) nodes) Expr.listRefs := by
  rw [Expr.listRefs_eq]
  exact Spec.mapM (fun K n => ih.expr K n) nodes K

theorem Meets.stmt_succ (node : SyntaxTree) : Spec K (Lower.stmt (fuel + 1) node) Stmt.refs := by
  rw [Lower.stmt]
  dsimp only
  split
  -- a declaration: the initializer first, and it may fail on its own
  · have stores : ∀ (init : Option Expr) sym, ∀ r ∈ (Stmt.varDecl sym init node.span).refs,
        r ∈ K ++ init.elim [] Expr.refs ++ [] ++ [.symbol sym] := by
      intro init sym r hr
      simp only [Stmt.refs, Expr.optRefs_eq, List.mem_cons, List.mem_append] at hr ⊢
      tauto
    split <;> refine Spec.bind (Q := fun (o : Option Expr) => o.elim [] Expr.refs) ?_ fun init =>
      Spec.need.bind fun _ => (spec_declare _).bind fun sym => Spec.pure (stores init sym)
    · exact Spec.optional (ih.expr _ _)
    · exact Spec.pure (by simp)
  · exact Spec.need.bind fun _ => (ih.expr _ _).bind fun target => Spec.need.bind fun _ =>
      (ih.expr _ _).bind fun value => Spec.pure fun r hr => by
        simp only [Stmt.refs, List.mem_append] at hr ⊢
        tauto
  · exact Spec.need.bind fun _ => (ih.expr _ _).bind fun e => Spec.pure fun r hr => by
      simp only [Stmt.refs, List.mem_append] at hr ⊢
      tauto
  · refine Spec.need.bind fun _ => (ih.expr _ _).bind fun condition => (ih.block _ _).bind fun body => ?_
    have stores : ∀ next : Option Branch, ∀ r ∈ (Stmt.ifStmt condition body next node.span).refs,
        r ∈ K ++ [] ++ condition.refs ++ body.refs ++ next.elim [] Branch.refs := by
      intro next r hr
      simp only [Stmt.refs, Branch.optRefs_eq, List.mem_append] at hr ⊢
      tauto
    split <;> refine Spec.bind (Q := fun (o : Option Branch) => o.elim [] Branch.refs) ?_ fun next =>
      Spec.pure (stores next)
    · exact Spec.map (ih.branch _ _) (by simp +contextual)
    · exact Spec.pure (by simp)
  · exact Spec.need.bind fun _ => (ih.expr _ _).bind fun condition => (ih.block _ _).bind fun body =>
      Spec.pure fun r hr => by
        simp only [Stmt.refs, List.mem_append] at hr ⊢
        tauto
  -- a loop: the iterable before the header scope, the variable and body inside it
  · refine Spec.need.bind fun _ => Spec.need.bind fun _ => (ih.expr _ _).bind fun iterable =>
      (spec_enter _ _).bind fun scope => (Spec.optional (ih.loopParts _ _ _)).bind fun inner =>
        spec_exit.bind fun _ => Spec.need_bind fun p hp => ?_
    subst hp
    obtain ⟨var, body⟩ := p
    exact Spec.pure fun r hr => by
      simp only [Stmt.refs, Option.elim, List.mem_cons, List.mem_append] at hr ⊢
      tauto
  -- a begin block: its parameters and arguments before the body
  · refine Spec.need.bind fun name => ?_
    have stores : ∀ ps args body, ∀ r ∈ (Stmt.begin name.identText ps args body node.span).refs,
        r ∈ K ++ [] ++ ps.map .symbol ++ Expr.listRefs args ++ body.refs := by
      intro ps args body r hr
      simp only [Stmt.refs, List.mem_append] at hr ⊢
      tauto
    split <;> refine Spec.bind (Q := fun (ps : List SymbolId) => ps.map .symbol) ?_ fun ps => ?_
    · exact spec_params _
    · split <;> refine Spec.bind (Q := Expr.listRefs) ?_ fun args =>
        (ih.block _ _).bind fun body => Spec.pure (stores ps args body)
      · exact ih.exprs _ _
      · exact Spec.pure (by simp [Expr.listRefs])
    · exact Spec.pure (by simp)
    · split <;> refine Spec.bind (Q := Expr.listRefs) ?_ fun args =>
        (ih.block _ _).bind fun body => Spec.pure (stores ps args body)
      · exact ih.exprs _ _
      · exact Spec.pure (by simp [Expr.listRefs])
  · split
    · exact (ih.expr _ _).bind fun e => Spec.pure (by simp +contextual [Stmt.refs, Expr.optRefs])
    · exact Spec.pure (by simp [Stmt.refs, Expr.optRefs])
  · exact Spec.pure (by simp [Stmt.refs])
  · exact Spec.pure (by simp [Stmt.refs])
  · exact Spec.need.bind fun _ => (ih.expr _ _).bind fun e => Spec.pure fun r hr => by
      simp only [Stmt.refs, List.mem_append] at hr ⊢
      tauto
  · exact Spec.failure

theorem Meets.loopParts_succ (node : SyntaxTree) (arrow : Token) :
    Spec K (Lower.loopParts (fuel + 1) node arrow) fun p => p.1.refs ++ p.2.refs := by
  rw [Lower.loopParts]
  refine Spec.need.bind fun v => ?_
  extract_lets jp
  have hjp : ∀ var, Spec (K ++ [] ++ var.refs) (jp var) fun p => p.1.refs ++ p.2.refs :=
    fun var => (ih.block _ _).bind fun body => Spec.pure fun r hr => by
      simp only [List.mem_append] at hr ⊢
      tauto
  -- a variable declared in the header scope, or one already visible
  split
  · exact (Spec.map (spec_declare v) (by simp [LoopVar.refs])).bind hjp
  · exact (Spec.map (spec_nameRef v) (by simp +contextual [LoopVar.refs])).bind hjp

theorem Meets.branch_succ (node : SyntaxTree) : Spec K (Lower.branch (fuel + 1) node) Branch.refs := by
  rw [Lower.branch]
  split
  · refine Spec.need.bind fun _ => (ih.expr _ _).bind fun condition => (ih.block _ _).bind fun body => ?_
    have stores : ∀ next : Option Branch, ∀ r ∈ (Branch.elseIf condition body next node.span).refs,
        r ∈ K ++ [] ++ condition.refs ++ body.refs ++ next.elim [] Branch.refs := by
      intro next r hr
      simp only [Branch.refs, Branch.optRefs_eq, List.mem_append] at hr ⊢
      tauto
    split <;> refine Spec.bind (Q := fun (o : Option Branch) => o.elim [] Branch.refs) ?_ fun next =>
      Spec.pure (stores next)
    · exact Spec.map (ih.branch _ _) (by simp +contextual)
    · exact Spec.pure (by simp)
  · exact (ih.block _ _).bind fun body => Spec.pure (by simp +contextual [Branch.refs])

theorem Meets.expr_succ (node : SyntaxTree) : Spec K (Lower.expr (fuel + 1) node) Expr.refs := by
  rw [Lower.expr]
  split
  · exact spec_nameRef node
  -- a literal stores nothing
  · refine Spec.need.bind fun _ => Spec.need.bind fun _ => ?_
    split <;> exact Spec.pure (by simp [Expr.refs])
  · exact Spec.need.bind fun _ => ih.expr _ _
  · exact Spec.need.bind fun _ => Spec.need.bind fun _ => (ih.expr _ _).bind fun operand =>
      Spec.pure (by simp +contextual [Expr.refs])
  · exact Spec.need.bind fun _ => Spec.need.bind fun _ => Spec.need.bind fun _ =>
      (ih.expr _ _).bind fun lhs => Spec.need.bind fun _ => (ih.expr _ _).bind fun rhs =>
        Spec.pure fun r hr => by
          simp only [Expr.refs, List.mem_append] at hr ⊢
          tauto
  -- a member: a name after `.` or `->` is a field, not a use
  · refine Spec.need.bind fun opTok => ?_
    extract_lets op
    refine Spec.need.bind fun _ => (ih.expr _ _).bind fun base => Spec.need.bind fun target => ?_
    extract_lets jp
    have hjp : ∀ member, Spec (K ++ [] ++ [] ++ base.refs ++ [] ++ member.refs) (jp member)
        Expr.refs := fun member => Spec.pure fun r hr => by
      simp only [Expr.refs, List.mem_append] at hr ⊢
      tauto
    split
    · exact (Spec.pure (by simp [Expr.refs])).bind hjp
    · exact (ih.expr _ _).bind hjp
  -- a call: the callee is a local only if it resolves, else it is noted as external
  · refine Spec.need.bind fun _ => ?_
    extract_lets name
    refine (spec_resolve _).bind fun o => ?_
    extract_lets sym jpArgs jp
    have hargs : ∀ args, Spec (K ++ [] ++ (o.elim [] fun p => [.symbol p.2]) ++ Expr.listRefs args)
        (jpArgs args) Expr.refs := fun args => Spec.pure fun r hr => by
      cases o <;> simp [Expr.refs, sym] at hr ⊢ <;> tauto
    have hjp : ∀ u, Spec (K ++ [] ++ o.elim [] fun p => [.symbol p.2]) (jp u) Expr.refs := by
      intro u
      dsimp only [jp]
      split
      · exact (ih.exprs _ _).bind hargs
      · exact (Spec.pure (by simp [Expr.listRefs])).bind hargs
    split
    · exact (spec_noteExternal _).bind fun u => by rw [List.append_nil]; exact hjp u
    · exact hjp ()
  -- a lambda: its parameters in a scope of their own, around the body
  · refine Spec.need.bind fun _ => ?_
    extract_lets blockType
    refine (spec_enter _ _).bind fun scope => ?_
    extract_lets jp
    have hjp : ∀ ps, Spec (K ++ [] ++ [.scope scope .lambdaParams] ++ ps.map .symbol) (jp ps)
        Expr.refs := fun ps =>
      (Spec.optional (ih.block _ _)).bind fun body => spec_exit.bind fun _ =>
        Spec.need_bind fun b hb => Spec.pure fun r hr => by
          subst hb
          simp only [Expr.refs, Option.elim, List.mem_cons, List.mem_append] at hr ⊢
          tauto
    split
    · exact (spec_params _).bind hjp
    · exact (Spec.pure (by simp)).bind hjp
  · exact Spec.failure

end Succ

theorem Meets.succ {fuel : Nat} (ih : Meets fuel) : Meets (fuel + 1) where
  stmts := ih.stmts_succ
  block := ih.block_succ
  stmt := ih.stmt_succ
  loopParts := ih.loopParts_succ
  branch := ih.branch_succ
  exprs := ih.exprs_succ
  expr := ih.expr_succ

/-- Every lowering function meets its spec at every fuel. -/
theorem meets : ∀ fuel, Meets fuel
  | 0 => meets_zero
  | fuel + 1 => (meets fuel).succ

end Lower

/-- A lowered script holds the tree and the statements of one run of the walk
from the script scope alone. -/
theorem lower_eq_run {root : SyntaxTree} {out : Lowered} (h : lower root = some out) :
    ∃ res, Lower.run (Lower.stmts (root.size + 1) (root.childrenWith NodeKind.isStmt))
        ⟨ScopeTree.ofRoot root.ref, [0], []⟩ = res ∧
      out.script.scopes = res.2.scopes ∧ out.script.body = res.1.getD [] := by
  unfold lower at h
  extract_lets start jp at h
  split at h
  · cases h
  · simp only [jp, bind, Option.bind_eq_some_iff] at h
    obtain ⟨decl, -, name, -, ident, -, h⟩ := h
    cases h
    exact ⟨_, rfl, rfl, rfl⟩

/-- The tree the parser builds for a script that stops inside a lambda's
header, `scn T` then `if (begin F`: the lambda's body and the `if` body are
both empty statement lists at the end of the text. -/
def danglingIf : SyntaxTree :=
  .node .script 0 17
    [.node .scriptNameDecl 0 6 [.token ⟨.kwScriptName, 0, "scn"⟩, .token ⟨.whitespace, 3, " "⟩,
      .node .name 4 5 [.token ⟨.ident, 4, "T"⟩], .token ⟨.newline, 5, "\n"⟩],
     .node .ifStmt 6 17 [.token ⟨.kwIf, 6, "if"⟩, .token ⟨.whitespace, 8, " "⟩,
       .node .lambdaExpr 9 17 [.token ⟨.lParen, 9, "("⟩, .token ⟨.kwBegin, 10, "begin"⟩,
         .token ⟨.whitespace, 15, " "⟩, .node .name 16 17 [.token ⟨.ident, 16, "F"⟩],
         .node .stmtList 17 17 []],
       .node .stmtList 17 17 []]]

end Resolved

/-! ## Two scopes at one node -/

mutual

/-- Bare trees are equal when their kinds and children are; `deriving` does
not reach through the nested list of children. -/
def BareTree.decEq : (a b : BareTree) → Decidable (a = b)
  | .token k, .token k' =>
    if h : k = k' then isTrue (h ▸ rfl) else isFalse fun e => by cases e; exact h rfl
  | .node k cs, .node k' cs' =>
    if h : k = k' then
      match BareTree.decEqList cs cs' with
      | isTrue hc => isTrue (h ▸ hc ▸ rfl)
      | isFalse hc => isFalse fun e => by cases e; exact hc rfl
    else isFalse fun e => by cases e; exact h rfl
  | .token _, .node _ _ => isFalse fun e => by cases e
  | .node _ _, .token _ => isFalse fun e => by cases e

def BareTree.decEqList : (as bs : List BareTree) → Decidable (as = bs)
  | [], [] => isTrue rfl
  | a :: as, b :: bs =>
    match BareTree.decEq a b, BareTree.decEqList as bs with
    | isTrue h, isTrue h' => isTrue (h ▸ h' ▸ rfl)
    | isFalse h, _ => isFalse fun e => by cases e; exact h rfl
    | _, isFalse h' => isFalse fun e => by cases e; exact h' rfl
  | [], _ :: _ => isFalse fun e => by cases e
  | _ :: _, [] => isFalse fun e => by cases e

end

instance : DecidableEq BareTree := BareTree.decEq

/-- The tokens of `scn T` then `if (begin F`. -/
def danglingIfTokens : List Token :=
  [⟨.kwScriptName, 0, "scn"⟩, ⟨.whitespace, 3, " "⟩, ⟨.ident, 4, "T"⟩, ⟨.newline, 5, "\n"⟩,
   ⟨.kwIf, 6, "if"⟩, ⟨.whitespace, 8, " "⟩, ⟨.lParen, 9, "("⟩, ⟨.kwBegin, 10, "begin"⟩,
   ⟨.whitespace, 15, " "⟩, ⟨.ident, 16, "F"⟩, ⟨.eof, 17, ""⟩]

/-- The shape the grammar gives those tokens. -/
def danglingIfBare : BareTree :=
  .node .script [.node .scriptNameDecl [.token .kwScriptName, .node .name [.token .ident],
      .token .newline],
    .node .ifStmt [.token .kwIf, .node .lambdaExpr [.token .lParen, .token .kwBegin,
      .node .name [.token .ident], .node .stmtList []], .node .stmtList []]]

theorem parseScript_danglingIf :
    (parseScript "scn T\nif (begin F" fun _ => false).root = Resolved.danglingIf := by
  have hlex : lex "scn T\nif (begin F" = danglingIfTokens := by decide +kernel
  have hbare : (Grammar.script (Grammar.fuelFor (Lexeme.ofTokens danglingIfTokens fun _ => false).length)
      { rest := Lexeme.ofTokens danglingIfTokens fun _ => false }).1 = danglingIfBare := by
    decide +kernel
  -- attaching tokens is not evaluated by the kernel: unfold it instead
  have hatt : danglingIfBare.attach danglingIfTokens = Resolved.danglingIf := by
    simp only [BareTree.attach, danglingIfBare, Attach.node, Attach.elements]
    rfl
  simp only [parseScript, hlex]
  rw [hbare, hatt]

end GameScript
