import Mathlib
import GameScript.Proofs.ScopeTree
import GameScript.Resolved.Lower
/-!
# Running lowering steps

Lowering threads a `Lowerer` through steps that may fail. This module gives
those steps a small program logic for one question: which ids a resolved
script stores, and whether each stands for something in the scope tree.

A `Ref` is such an id, a symbol or a scope together with the kind its place
requires; `Stmt.refs` and its companions list every id a statement stores. A
lowerer is `Sound` when its tree is well formed and its open scopes exist,
and `ScopeTree.Grows` says that a later tree keeps every symbol and every
scope with its kind, so an id that fits once keeps fitting.

`Spec K x R` reads: run from a sound lowerer in which the ids `K` fit, `x`
ends in a sound lowerer whose tree grows the first, and every id that `R`
reads off its result fits there. `K` carries what earlier steps of a `do`
block produced, so that a final `pure` may store it. There is one rule per
shape the lowering code uses: bind, `pure`, `map`, `need`, `optional`, the
three list traversals, and the steps that touch the lowerer.
-/

set_option autoImplicit false

namespace GameScript

namespace Resolved

/-- An id a resolved script stores: a symbol, or a scope with the kind its
place requires. -/
inductive Ref where
  | symbol (id : SymbolId)
  | scope (id : ScopeId) (kind : ScopeKind)

/-- The id stands for something in `t`: an existing symbol, or an existing
scope of the required kind. -/
def Ref.FitsIn (t : ScopeTree) : Ref → Prop
  | .symbol id => id < t.symbols.size
  | .scope id kind => (t.scope? id).map (·.kind) = some kind

theorem Ref.FitsIn.grow {t t' : ScopeTree} {r : Ref} (hr : r.FitsIn t) (h : t.Grows t') :
    r.FitsIn t' := by
  cases r with
  | symbol id => exact Nat.lt_of_lt_of_le hr h.symbols
  | scope id kind =>
    obtain ⟨s, hs, rfl⟩ := Option.map_eq_some_iff.1 hr
    exact h.kinds id s hs

mutual

/-- The ids an expression stores. -/
def Expr.refs : Expr → List Ref
  | .name _ sym _ _ => sym.toList.map .symbol
  | .integer .. | .float .. | .string .. | .field .. => []
  | .unary _ e _ => e.refs
  | .binary _ a b _ => a.refs ++ b.refs
  | .member _ a b _ => a.refs ++ b.refs
  | .call _ sym args _ => sym.toList.map .symbol ++ Expr.listRefs args
  | .lambda _ scope ps body _ => .scope scope .lambdaParams :: (ps.map .symbol ++ body.refs)

def Expr.listRefs : List Expr → List Ref
  | [] => []
  | e :: es => e.refs ++ Expr.listRefs es

def Expr.optRefs : Option Expr → List Ref
  | none => []
  | some e => e.refs

/-- The ids a block stores: its scope, which must be a block scope, and
those of its statements. -/
def Block.refs : Block → List Ref
  | .mk scope body => .scope scope .block :: Stmt.listRefs body

/-- The ids a statement stores. -/
def Stmt.refs : Stmt → List Ref
  | .varDecl sym init _ => .symbol sym :: Expr.optRefs init
  | .set a b _ => a.refs ++ b.refs
  | .letStmt e _ => e.refs
  | .ifStmt c b br _ => c.refs ++ b.refs ++ Branch.optRefs br
  | .whileStmt c b _ => c.refs ++ b.refs
  | .foreach scope v it b _ => .scope scope .foreachHeader :: (v.refs ++ it.refs ++ b.refs)
  | .begin _ ps args b _ => ps.map .symbol ++ Expr.listRefs args ++ b.refs
  | .returnStmt e _ => Expr.optRefs e
  | .breakStmt _ | .continueStmt _ => []
  | .exprStmt e _ => e.refs

def Stmt.listRefs : List Stmt → List Ref
  | [] => []
  | s :: ss => s.refs ++ Stmt.listRefs ss

def Branch.refs : Branch → List Ref
  | .elseIf c b next _ => c.refs ++ b.refs ++ Branch.optRefs next
  | .elseBranch b _ => b.refs

def Branch.optRefs : Option Branch → List Ref
  | none => []
  | some b => b.refs

def LoopVar.refs : LoopVar → List Ref
  | .declared sym => [.symbol sym]
  | .existing e => e.refs

end

theorem Expr.listRefs_eq : Expr.listRefs = fun es => es.flatMap Expr.refs := by
  funext es
  induction es with
  | nil => rfl
  | cons e es ih => rw [Expr.listRefs, ih, List.flatMap_cons]

theorem Stmt.listRefs_eq : Stmt.listRefs = fun ss => ss.flatMap Stmt.refs := by
  funext ss
  induction ss with
  | nil => rfl
  | cons s ss ih => rw [Stmt.listRefs, ih, List.flatMap_cons]

theorem Expr.optRefs_eq (o : Option Expr) : Expr.optRefs o = o.elim [] Expr.refs := by
  cases o <;> rfl

theorem Branch.optRefs_eq (o : Option Branch) : Branch.optRefs o = o.elim [] Branch.refs := by
  cases o <;> rfl

/-- A lowerer from which every step can go on: its tree is well formed and
its open scopes exist. -/
structure Lowerer.Sound (l : Lowerer) : Prop where
  tree : l.scopes.WellFormed
  stack : ∀ s ∈ l.stack, s < l.scopes.scopes.size

/-- The scope a step declares in or opens inside exists. -/
theorem Lowerer.Sound.current_lt {l : Lowerer} (h : l.Sound) :
    l.stack.head?.getD 0 < l.scopes.scopes.size := by
  cases hs : l.stack with
  | nil =>
    obtain ⟨s, h0, -⟩ := h.tree.root
    exact ScopeTree.lt_of_scope? h0
  | cons x xs => exact h.stack x (by simp [hs])

namespace Lower

/-- A step run from a lowerer: its result, none on failure, and the lowerer
it leaves. -/
def run {α : Type} (x : LowerM α) (l : Lowerer) : Option α × Lowerer := x.run.run l

theorem run_bind {α β : Type} (x : LowerM α) (f : α → LowerM β) (l : Lowerer) :
    run (x >>= f) l = match run x l with
      | (some a, l') => run (f a) l'
      | (none, l') => (none, l') := by
  simp only [run, OptionT.run_bind]
  rcases h : (x.run.run l) with ⟨_ | a, l'⟩ <;> simp only [Option.elimM, StateT.run_bind, h] <;> rfl

/-- Which ids a step's result stores, and that they fit: see the module doc. -/
def Spec {α : Type} (K : List Ref) (x : LowerM α) (R : α → List Ref) : Prop :=
  ∀ l : Lowerer, l.Sound → (∀ r ∈ K, r.FitsIn l.scopes) →
    (run x l).2.Sound ∧ l.scopes.Grows (run x l).2.scopes ∧
      ∀ a, (run x l).1 = some a → ∀ r ∈ R a, r.FitsIn (run x l).2.scopes

namespace Spec

variable {α β : Type} {K : List Ref}

theorem pure {a : α} {R : α → List Ref} (h : ∀ r ∈ R a, r ∈ K) : Spec K (Pure.pure a) R :=
  fun l hl hK => ⟨hl, .refl _, fun b hb r hr => by cases hb; exact hK r (h r hr)⟩

theorem failure {R : α → List Ref} : Spec K (Alternative.failure : LowerM α) R :=
  fun l hl _ => ⟨hl, .refl _, fun a ha => by cases ha⟩

theorem bind {x : LowerM α} {f : α → LowerM β} {Q : α → List Ref} {R : β → List Ref}
    (hx : Spec K x Q) (hf : ∀ a, Spec (K ++ Q a) (f a) R) : Spec K (x >>= f) R := by
  intro l hl hK
  obtain ⟨hl₁, hg₁, hq⟩ := hx l hl hK
  rw [run_bind]
  rcases hrun : run x l with ⟨_ | a, l₁⟩
  · rw [hrun] at hl₁ hg₁
    exact ⟨hl₁, hg₁, fun b hb => by cases hb⟩
  · rw [hrun] at hl₁ hg₁ hq
    -- what was known before `x` still fits, and so does what `x` produced
    have hK₁ : ∀ r ∈ K ++ Q a, r.FitsIn l₁.scopes := by
      intro r hr
      rcases List.mem_append.1 hr with hr | hr
      · exact (hK r hr).grow hg₁
      · exact hq a rfl r hr
    obtain ⟨hl₂, hg₂, hr⟩ := hf a l₁ hl₁ hK₁
    exact ⟨hl₂, hg₁.trans hg₂, hr⟩

theorem map {x : LowerM α} {g : α → β} {Q : α → List Ref} {R : β → List Ref}
    (hx : Spec K x Q) (h : ∀ a, ∀ r ∈ R (g a), r ∈ K ++ Q a) : Spec K (g <$> x) R := by
  rw [map_eq_bind_pure_comp]
  exact hx.bind fun a => Spec.pure (h a)

theorem need {o : Option α} : Spec K (Lower.need o) fun _ => [] := by
  cases o with
  | none => exact Spec.failure
  | some a => exact Spec.pure (by simp)

/-- A step after `need o` runs only on the value in `o`. -/
theorem need_bind {o : Option α} {f : α → LowerM β} {R : β → List Ref}
    (h : ∀ a, o = some a → Spec K (f a) R) : Spec K (Lower.need o >>= f) R := by
  cases o with
  | none => exact fun l hl _ => ⟨hl, .refl _, fun b hb => by cases hb⟩
  | some a =>
    show Spec K (Pure.pure a >>= f) R
    rw [pure_bind]
    exact h a rfl

theorem optional {x : LowerM α} {R : α → List Ref} (hx : Spec K x R) :
    Spec K (Lower.optional x) fun o => o.elim [] R := by
  intro l hl hK
  obtain ⟨hl', hg, hr⟩ := hx l hl hK
  refine ⟨hl', hg, fun o ho r hr' => ?_⟩
  change some (run x l).1 = some o at ho
  cases ho
  cases hx' : (run x l).1 with
  | none => rw [hx'] at hr'; cases hr'
  | some a => rw [hx'] at hr'; exact hr a hx' r hr'

theorem get : Spec K (MonadState.get : LowerM Lowerer) fun _ => [] :=
  fun l hl _ => ⟨hl, .refl _, fun _ _ r hr => by cases hr⟩

/-- A step that reads the lowerer first, proved for the lowerer it reads. -/
theorem get_bind {f : Lowerer → LowerM α} {R : α → List Ref}
    (h : ∀ l : Lowerer, l.Sound → (∀ r ∈ K, r.FitsIn l.scopes) →
      (run (f l) l).2.Sound ∧ l.scopes.Grows (run (f l) l).2.scopes ∧
        ∀ a, (run (f l) l).1 = some a → ∀ r ∈ R a, r.FitsIn (run (f l) l).2.scopes) :
    Spec K (MonadState.get >>= f) R :=
  h

/-! ## The list traversals -/

theorem filterMapM {γ : Type} {f : γ → LowerM (Option α)} {R : α → List Ref}
    (hf : ∀ K c, Spec K (f c) fun o => o.elim [] R) :
    ∀ (xs : List γ) (K : List Ref), Spec K (xs.filterMapM f) fun as => as.flatMap R
  | [], K => by
    rw [List.filterMapM_nil]
    exact Spec.pure (by simp)
  | c :: cs, K => by
    rw [List.filterMapM_cons]
    refine (hf K c).bind fun o => ?_
    cases o with
    | none => exact filterMapM hf cs _
    | some a =>
      refine (filterMapM hf cs _).bind fun as => Spec.pure ?_
      intro r hr
      simp only [List.flatMap_cons, List.mem_append] at hr
      simp only [Option.elim, List.mem_append]
      tauto

theorem mapM {γ : Type} {f : γ → LowerM α} {R : α → List Ref} (hf : ∀ K c, Spec K (f c) R) :
    ∀ (xs : List γ) (K : List Ref), Spec K (xs.mapM f) fun as => as.flatMap R
  | [], K => by
    rw [List.mapM_nil]
    exact Spec.pure (by simp)
  | c :: cs, K => by
    rw [List.mapM_cons]
    refine (hf K c).bind fun a => (mapM hf cs _).bind fun as => Spec.pure ?_
    intro r hr
    simp only [List.flatMap_cons, List.mem_append] at hr ⊢
    tauto

theorem foldlM {γ : Type} {f : α → γ → LowerM α} {R : α → List Ref}
    (hf : ∀ K acc c, (∀ r ∈ R acc, r ∈ K) → Spec K (f acc c) R) :
    ∀ (xs : List γ) (K : List Ref) (acc : α), (∀ r ∈ R acc, r ∈ K) → Spec K (xs.foldlM f acc) R
  | [], K, acc, h => by
    rw [List.foldlM_nil]
    exact Spec.pure h
  | c :: cs, K, acc, h => by
    rw [List.foldlM_cons]
    exact (hf K acc c h).bind fun acc' => foldlM hf cs _ acc' fun r hr => List.mem_append_right _ hr

end Spec

/-! ## The steps that touch the lowerer -/

section Steps

variable {K : List Ref}

/-- Opening a scope stores its id, a scope of the kind asked for. -/
theorem spec_enter (k : ScopeKind) (node : SyntaxTree) :
    Spec K (enter k node) fun id => [.scope id k] := by
  intro l hl _
  have hp := hl.current_lt
  refine ⟨⟨hl.tree.push hp k node.ref, fun s hs => ?_⟩, ScopeTree.grows_push _ _ _ _, ?_⟩
  · show s < (l.scopes.push _ k node.ref).1.scopes.size
    rw [ScopeTree.size_push]
    rcases List.mem_cons.1 hs with rfl | hs
    · exact Nat.lt_succ_self _
    · exact Nat.lt_succ_of_lt (hl.stack s hs)
  · intro a ha r hr
    cases ha
    rw [List.mem_singleton] at hr
    subst hr
    show ((l.scopes.push _ k node.ref).1.scope? l.scopes.scopes.size).map (·.kind) = some k
    rw [ScopeTree.scope?_push_size _ _ _ _ hp]
    rfl

theorem spec_exit : Spec K exit fun _ => [] :=
  fun l hl _ => ⟨⟨hl.tree, fun s hs => hl.stack s (List.mem_of_mem_drop hs)⟩, .refl _,
    fun _ _ r hr => by cases hr⟩

/-- Declaring stores the new symbol's id. -/
theorem spec_declare (decl : SyntaxTree) : Spec K (declare decl) fun id => [.symbol id] := by
  unfold declare
  refine Spec.need.bind fun name => Spec.need.bind fun ident => Spec.get_bind fun l hl _ => ?_
  split
  next t id hd =>
  obtain ⟨ht, hid⟩ := Prod.ext_iff.1 hd
  dsimp only at ht hid
  subst ht hid
  refine ⟨⟨hl.tree.define _ _, fun s hs => ?_⟩, ScopeTree.grows_define _ _ _, ?_⟩
  · show s < (l.scopes.define _ _).1.scopes.size
    rw [ScopeTree.size_define]
    exact hl.stack s hs
  · intro a ha r hr
    cases ha
    rw [List.mem_singleton] at hr
    subst hr
    show (l.scopes.define _ _).2 < (l.scopes.define _ _).1.symbols.size
    simp [ScopeTree.define_snd]

/-- A name resolves to an existing symbol. -/
theorem spec_resolve (name : String) :
    Spec K (resolve name) fun o => o.elim [] fun p => [.symbol p.2] := by
  refine Spec.get_bind fun l hl _ => ⟨hl, .refl _, fun o ho r hr => ?_⟩
  cases ho
  cases hres : l.scopes.resolve (l.stack.head?.getD 0) name with
  | none => rw [hres] at hr; cases hr
  | some p =>
    rw [hres] at hr
    simp only [Option.elim, List.mem_singleton] at hr
    subst hr
    exact hl.tree.lt_of_resolve hres

theorem spec_noteExternal (name : String) : Spec K (noteExternal name) fun _ => [] := by
  intro l hl _
  -- only the external names change
  have hsame : (run (noteExternal name) l).2.scopes = l.scopes ∧
      (run (noteExternal name) l).2.stack = l.stack := by
    show (if (l.external.get? name).isSome then l else _).scopes = _ ∧
      (if (l.external.get? name).isSome then l else _).stack = _
    split <;> exact ⟨rfl, rfl⟩
  refine ⟨⟨?_, ?_⟩, ?_, fun _ _ r hr => by cases hr⟩
  · rw [hsame.1]; exact hl.tree
  · rw [hsame.1, hsame.2]; exact hl.stack
  · rw [hsame.1]; exact .refl _

/-- A name in an expression stores the symbol it resolves to, if any. -/
theorem spec_nameRef (node : SyntaxTree) : Spec K (nameRef node) Expr.refs := by
  unfold nameRef
  refine (spec_resolve _).bind fun o => ?_
  rcases o with _ | ⟨scope, sym⟩
  · exact (spec_noteExternal _).bind fun _ => Spec.pure (by simp [Expr.refs])
  · exact Spec.get.bind fun _ => Spec.pure (by simp [Expr.refs])

/-- Parameters store the symbols they declare or resolve to. -/
theorem spec_params (list : SyntaxTree) : Spec K (params list) fun ids => ids.map .symbol := by
  unfold params
  refine Spec.foldlM (fun K acc c hacc => ?_) _ _ _ (by simp)
  -- each parameter adds its symbol, or leaves the list as it was
  have keep : ∀ K', Spec (K ++ K') (pure acc) fun ids => ids.map Ref.symbol :=
    fun _ => Spec.pure fun r hr => List.mem_append_left _ (hacc r hr)
  have add : ∀ id, Spec (K ++ [.symbol id]) (pure (acc ++ [id])) fun ids => ids.map Ref.symbol :=
    fun id => Spec.pure fun r hr => by
      simp only [List.map_append, List.map_cons, List.map_nil, List.mem_append,
        List.mem_singleton] at hr
      rcases hr with hr | rfl
      · exact List.mem_append_left _ (hacc r hr)
      · simp
  split
  · refine (Spec.optional (spec_declare c)).bind fun o => ?_
    cases o with
    | none => exact keep _
    | some id => exact add id
  · refine (spec_resolve _).bind fun o => ?_
    rcases o with _ | ⟨scope, id⟩
    · exact keep _
    · exact add id

end Steps

end Lower

end Resolved

end GameScript
