import Mathlib
import GameScript.Proofs.ScopeNesting
import GameScript.Proofs.TreeRanges
/-!
# Scopes open inside the nodes of their parents

Lowering walks the tree from the root down and opens a scope only at the node
it is lowering: a statement list, a `foreach` statement, a lambda. That node
lies inside the node of the scope open around it, because the walk reaches it
through that node's children. So in a placed tree every scope of a lowered
script is opened at a node of the tree, inside the node of its parent
(`ScopeTree.OpenedIn`, `lower_openedIn`), and so the node of a scope holds
the nodes of all the scopes it encloses (`OpenedIn.covers_of_mem_ancestors`).

The proof is a small program logic over `LowerM`, beside the one of
`GameScript.Proofs.LowerRun`. `Stays root a x` reads: run from a lowerer whose
scopes are opened in `root` and whose innermost open scope holds the range
`a`, `x` keeps its scopes opened in `root`, leaves the same scopes open and
keeps the node of every scope. After opening a scope, the rest of a block
`Closes` it: what runs before the `exit` cannot fail (`Succeeds`), and what
runs after it does not touch the lowerer (`Quiet`). The lowering functions
meet it by induction on the fuel (`Lower.StaysIn`), as in
`GameScript.Proofs.ScopeNesting`.
-/

set_option autoImplicit false

namespace GameScript

/-- `a` holds `b`: `b` starts at or after the start of `a` and stops at or
before its end. -/
def Span.Covers (a b : Span) : Prop := a.start ≤ b.start ∧ b.stop ≤ a.stop

theorem Span.Covers.refl (a : Span) : a.Covers a := ⟨le_rfl, le_rfl⟩

theorem Span.Covers.trans {a b c : Span} (h₁ : a.Covers b) (h₂ : b.Covers c) : a.Covers c :=
  ⟨le_trans h₁.1 h₂.1, le_trans h₂.2 h₁.2⟩

/-- A child of a placed node lies inside it. -/
theorem SyntaxTree.Placed.covers_child {t c : SyntaxTree} (h : t.Placed) (hc : c ∈ t.children) :
    t.span.Covers c.span := by
  cases t with
  | token => simp [SyntaxTree.children] at hc
  | node k a b cs =>
    obtain ⟨-, ha, hb⟩ := h.children.1 c hc
    exact ⟨ha, hb⟩

namespace ScopeTree

/-- The scopes of `t` are opened at nodes within `root`, and the parent of
each exists and is opened at a node that holds the scope's node. -/
structure OpenedIn (root : SyntaxTree) (t : ScopeTree) : Prop where
  node : ∀ (i : Nat) s, t.scope? i = some s →
    ∃ n : SyntaxTree, n.Within root ∧ n.nodeKind?.isSome ∧ n.ref = s.node
  nested : ∀ (i p : Nat) s, t.scope? i = some s → s.parent = some p →
    ∃ ps, t.scope? p = some ps ∧ ps.node.span.Covers s.node.span

/-- `t'` keeps the node of every scope of `t`. -/
def KeepsNodes (t t' : ScopeTree) : Prop :=
  ∀ (i : Nat) s, t.scope? i = some s → ∃ s', t'.scope? i = some s' ∧ s'.node = s.node

theorem KeepsNodes.refl (t : ScopeTree) : t.KeepsNodes t := fun _ s h => ⟨s, h, rfl⟩

theorem KeepsNodes.trans {t₁ t₂ t₃ : ScopeTree} (h₁ : t₁.KeepsNodes t₂) (h₂ : t₂.KeepsNodes t₃) :
    t₁.KeepsNodes t₃ := by
  intro i s hs
  obtain ⟨s', hs', hn⟩ := h₁ i s hs
  obtain ⟨s'', hs'', hn'⟩ := h₂ i s' hs'
  exact ⟨s'', hs'', hn'.trans hn⟩

section Root

variable {root : SyntaxTree}

theorem openedIn_ofRoot (h : root.nodeKind?.isSome) : (ofRoot root.ref).OpenedIn root := by
  -- the only scope is the script scope, opened at the root, with no parent
  have only : ∀ {i : Nat} {s : Scope}, (ofRoot root.ref).scope? i = some s →
      s = { parent := none, children := [], kind := .script, node := root.ref, symbols := [] } := by
    intro i s hs
    have hi : i < 1 := lt_of_scope? hs
    obtain rfl : i = 0 := by omega
    exact (Option.some.inj hs).symm
  refine ⟨fun i s hs => ?_, fun i p s hs hp => ?_⟩
  · rw [only hs]
    exact ⟨root, .refl _, h, rfl⟩
  · rw [only hs] at hp
    cases hp

/-- Declaring a symbol changes no scope's node or parent. -/
theorem OpenedIn.define {t : ScopeTree} (h : t.OpenedIn root) (i : Nat) (sym : Symbol) :
    (t.define i sym).1.OpenedIn root ∧ t.KeepsNodes (t.define i sym).1 := by
  have keep : ∀ (j : Nat) s, t.scope? j = some s →
      ∃ s', (t.define i sym).1.scope? j = some s' ∧ s'.node = s.node :=
    fun j s hs => ⟨_, by rw [scope?_define, hs]; rfl, by split <;> rfl⟩
  have back : ∀ (j : Nat) s', (t.define i sym).1.scope? j = some s' →
      ∃ s, t.scope? j = some s ∧ s'.node = s.node ∧ s'.parent = s.parent := by
    intro j s' hs'
    rw [scope?_define] at hs'
    obtain ⟨s, hs, rfl⟩ := Option.map_eq_some_iff.1 hs'
    exact ⟨s, hs, by split <;> rfl, by split <;> rfl⟩
  refine ⟨⟨fun j s' hs' => ?_, fun j p s' hs' hp => ?_⟩, keep⟩
  · obtain ⟨s, hs, hn, -⟩ := back j s' hs'
    rw [hn]
    exact h.node j s hs
  · obtain ⟨s, hs, hn, hpar⟩ := back j s' hs'
    obtain ⟨ps, hps, hcov⟩ := h.nested j p s hs (hpar ▸ hp)
    obtain ⟨ps', hps', hpn⟩ := keep p ps hps
    exact ⟨ps', hps', by rw [hn, hpn]; exact hcov⟩

/-- Opening a scope at a node within the root, inside the node of its
parent, keeps the scopes opened in the root. -/
theorem OpenedIn.push {t : ScopeTree} (h : t.OpenedIn root) {p : Nat} {ps : Scope}
    (hp : t.scope? p = some ps) (k : ScopeKind) {n : SyntaxTree} (hn : n.Within root)
    (hk : n.nodeKind?.isSome) (hc : ps.node.span.Covers n.span) :
    (t.push p k n.ref).1.OpenedIn root ∧ t.KeepsNodes (t.push p k n.ref).1 := by
  have hplt := lt_of_scope? hp
  have keep : ∀ (j : Nat) s, t.scope? j = some s →
      ∃ s', (t.push p k n.ref).1.scope? j = some s' ∧ s'.node = s.node :=
    fun j s hs => ⟨_, by rw [scope?_push_of_ne t p k n.ref (Nat.ne_of_lt (lt_of_scope? hs)), hs]; rfl,
      by split <;> rfl⟩
  refine ⟨⟨fun i s hs => ?_, fun i q s hs hq => ?_⟩, keep⟩
  · rcases scope?_push_eq_some t p k n.ref hplt hs with ⟨-, rfl⟩ | ⟨s0, h0, -, -, hn0, -⟩
    · exact ⟨n, hn, hk, rfl⟩
    · rw [hn0]
      exact h.node i s0 h0
  · rcases scope?_push_eq_some t p k n.ref hplt hs with ⟨-, rfl⟩ | ⟨s0, h0, hpar, -, hn0, -⟩
    · -- the new scope's parent is `p`, whose node holds `n`
      obtain rfl : p = q := Option.some.inj hq
      obtain ⟨ps', hps', hpn⟩ := keep p ps hp
      exact ⟨ps', hps', by rw [hpn]; exact hc⟩
    · obtain ⟨qs, hqs, hcov⟩ := h.nested i q s0 h0 (hpar ▸ hq)
      obtain ⟨qs', hqs', hqn⟩ := keep q qs hqs
      exact ⟨qs', hqs', by rw [hqn, hn0]; exact hcov⟩

/-- The node of a scope holds the nodes of all the scopes it encloses. -/
theorem OpenedIn.covers_of_mem_ancestors {t : ScopeTree} (h : t.OpenedIn root) {i j : Nat}
    {s : Scope} (hs : t.scope? i = some s) (hj : j ∈ t.ancestors i) :
    ∃ sj, t.scope? j = some sj ∧ sj.node.span.Covers s.node.span := by
  unfold ancestors at hj
  generalize t.scopes.size = n at hj
  -- each step of the walk goes up to a parent, whose node holds the last one
  induction n generalizing i s with
  | zero => simp [ancestors.go] at hj
  | succ n ih =>
    simp only [ancestors.go, hs] at hj
    cases hpar : s.parent with
    | none =>
      rw [hpar, List.mem_singleton] at hj
      subst hj
      exact ⟨s, hs, .refl _⟩
    | some p =>
      rw [hpar, List.mem_cons] at hj
      rcases hj with rfl | hj
      · exact ⟨s, hs, .refl _⟩
      · obtain ⟨ps, hps, hcov⟩ := h.nested i p s hs hpar
        obtain ⟨sj, hsj, hcov'⟩ := ih hps hj
        exact ⟨sj, hsj, hcov'.trans hcov⟩

end Root

end ScopeTree

namespace Resolved

/-- The innermost open scope exists and its node holds `a`. -/
def Lowerer.Around (l : Lowerer) (a : Span) : Prop :=
  ∃ s, l.scopes.scope? (l.stack.head?.getD 0) = some s ∧ s.node.span.Covers a

/-- `l'` has the same scopes open as `l`, and keeps the node of each of its
scopes. -/
def Lowerer.Keeps (l l' : Lowerer) : Prop := l'.stack = l.stack ∧ l.scopes.KeepsNodes l'.scopes

theorem Lowerer.Keeps.trans {l₁ l₂ l₃ : Lowerer} (h₁ : l₁.Keeps l₂) (h₂ : l₂.Keeps l₃) :
    l₁.Keeps l₃ :=
  ⟨h₂.1.trans h₁.1, h₁.2.trans h₂.2⟩

theorem Lowerer.Around.keep {l l' : Lowerer} {a : Span} (h : l.Around a) (hk : l.Keeps l') :
    l'.Around a := by
  obtain ⟨s, hs, hcov⟩ := h
  obtain ⟨s', hs', hn⟩ := hk.2 _ s hs
  exact ⟨s', by rw [hk.1]; exact hs', by rw [hn]; exact hcov⟩

namespace Lower

variable {α β : Type} {root : SyntaxTree} {a : Span}

/-- Run from a lowerer whose scopes are opened in `root` and whose innermost
open scope holds `a`, `x` keeps the scopes opened in `root`, the same scopes
open and the node of every scope. -/
def Stays (root : SyntaxTree) (a : Span) (x : LowerM α) : Prop :=
  ∀ l : Lowerer, l.scopes.OpenedIn root → l.Around a →
    (run x l).2.scopes.OpenedIn root ∧ l.Keeps (run x l).2

/-- As `Stays`, for the rest of a block that closes the scope it starts in. -/
def Closes (root : SyntaxTree) (a : Span) (x : LowerM α) : Prop :=
  ∀ l : Lowerer, l.scopes.OpenedIn root → l.Around a →
    (run x l).2.scopes.OpenedIn root ∧ (run x l).2.stack = l.stack.drop 1 ∧
      l.scopes.KeepsNodes (run x l).2.scopes

/-- A step that leaves the lowerer as it was. -/
def Quiet (x : LowerM α) : Prop := ∀ l, (run x l).2 = l

/-- A step that never fails. -/
def Succeeds (x : LowerM α) : Prop := ∀ l, (run x l).1.isSome

theorem run_optional (x : LowerM α) (l : Lowerer) :
    run (optional x) l = (some (run x l).1, (run x l).2) := rfl

theorem run_enter (k : ScopeKind) (n : SyntaxTree) (l : Lowerer) :
    run (enter k n) l = (some l.scopes.scopes.size,
      { l with scopes := (l.scopes.push (l.stack.head?.getD 0) k n.ref).1,
               stack := l.scopes.scopes.size :: l.stack }) := rfl

theorem run_exit (l : Lowerer) : run exit l = (some (), { l with stack := l.stack.drop 1 }) := rfl

/-- A step that succeeds is the run of its continuation from where it ends. -/
theorem run_bind_of_isSome {x : LowerM α} {f : α → LowerM β} {l : Lowerer} {v : α}
    (hv : (run x l).1 = some v) : run (x >>= f) l = run (f v) (run x l).2 := by
  rw [run_bind, show run x l = (some v, (run x l).2) from Prod.ext hv rfl]

/-! ## Quiet steps and steps that succeed -/

theorem Quiet.pure {a : α} : Quiet (Pure.pure a : LowerM α) := fun _ => rfl

theorem Quiet.need_bind {o : Option α} {f : α → LowerM β} (hf : ∀ v, Quiet (f v)) :
    Quiet (need o >>= f) := by
  cases o with
  | none => exact fun _ => rfl
  | some v =>
    show Quiet (Pure.pure v >>= f)
    rw [pure_bind]
    exact hf v

theorem Succeeds.pure {a : α} : Succeeds (Pure.pure a : LowerM α) := fun _ => rfl

theorem succeeds_optional (x : LowerM α) : Succeeds (optional x) := fun _ => rfl

theorem Succeeds.bind {x : LowerM α} {f : α → LowerM β} (hx : Succeeds x) (hf : ∀ v, Succeeds (f v)) :
    Succeeds (x >>= f) := by
  intro l
  obtain ⟨v, hv⟩ := Option.isSome_iff_exists.1 (hx l)
  rw [run_bind_of_isSome hv]
  exact hf v _

theorem Succeeds.filterMapM {γ : Type} {f : γ → LowerM (Option α)} (hf : ∀ c, Succeeds (f c)) :
    ∀ xs : List γ, Succeeds (xs.filterMapM f)
  | [] => by
    rw [List.filterMapM_nil]
    exact Succeeds.pure
  | c :: cs => by
    rw [List.filterMapM_cons]
    refine (hf c).bind fun o => ?_
    cases o with
    | none => exact filterMapM hf cs
    | some v => exact (filterMapM hf cs).bind fun _ => Succeeds.pure

theorem Succeeds.foldlM {γ : Type} {f : α → γ → LowerM α} (hf : ∀ acc c, Succeeds (f acc c)) :
    ∀ (xs : List γ) (acc : α), Succeeds (xs.foldlM f acc)
  | [], acc => by
    rw [List.foldlM_nil]
    exact Succeeds.pure
  | c :: cs, acc => by
    rw [List.foldlM_cons]
    exact (hf acc c).bind fun acc' => foldlM hf cs acc'

/-- Lowering a list of statements never fails: each statement that fails is
left out. -/
theorem succeeds_stmts : ∀ (fuel : Nat) (nodes : List SyntaxTree), Succeeds (stmts fuel nodes)
  | 0, _ => Succeeds.pure
  | _ + 1, nodes => Succeeds.filterMapM (fun _ => succeeds_optional _) nodes

/-- Lowering parameters never fails: a parameter that cannot be declared or
resolved is skipped. -/
theorem succeeds_params (list : SyntaxTree) : Succeeds (params list) := by
  unfold params
  refine Succeeds.foldlM (fun acc c => ?_) _ _
  split
  · refine (succeeds_optional _).bind fun o => ?_
    cases o <;> exact Succeeds.pure
  · refine Succeeds.bind (fun _ => rfl) fun o => ?_
    rcases o with _ | ⟨_, _⟩ <;> exact Succeeds.pure

/-! ## Steps that keep the scopes in place -/

theorem Quiet.stays {x : LowerM α} (hx : Quiet x) : Stays root a x := by
  intro l hO _
  rw [hx l]
  exact ⟨hO, rfl, .refl _⟩

theorem Stays.pure {v : α} : Stays root a (Pure.pure v : LowerM α) := Quiet.pure.stays

theorem Stays.failure : Stays root a (Alternative.failure : LowerM α) := fun _ hO _ =>
  ⟨hO, rfl, .refl _⟩

theorem Stays.bind {x : LowerM α} {f : α → LowerM β} (hx : Stays root a x)
    (hf : ∀ v, Stays root a (f v)) : Stays root a (x >>= f) := by
  intro l hO hA
  obtain ⟨hO₁, hk₁⟩ := hx l hO hA
  rw [run_bind]
  rcases hrun : run x l with ⟨_ | v, l₁⟩
  · rw [hrun] at hO₁ hk₁
    exact ⟨hO₁, hk₁⟩
  · rw [hrun] at hO₁ hk₁
    obtain ⟨hO₂, hk₂⟩ := hf v l₁ hO₁ (hA.keep hk₁)
    exact ⟨hO₂, hk₁.trans hk₂⟩

theorem Stays.map {x : LowerM α} {g : α → β} (hx : Stays root a x) : Stays root a (g <$> x) := by
  rw [map_eq_bind_pure_comp]
  exact hx.bind fun _ => Stays.pure

/-- A step after `need o` runs only on the value in `o`. -/
theorem Stays.need_bind {o : Option α} {f : α → LowerM β}
    (h : ∀ v, o = some v → Stays root a (f v)) : Stays root a (need o >>= f) := by
  cases o with
  | none => exact fun _ hO _ => ⟨hO, rfl, .refl _⟩
  | some v =>
    show Stays root a (Pure.pure v >>= f)
    rw [pure_bind]
    exact h v rfl

theorem Stays.optional {x : LowerM α} (hx : Stays root a x) : Stays root a (optional x) := by
  intro l hO hA
  rw [run_optional]
  exact hx l hO hA

/-- A step that reads the lowerer first, proved for the lowerer it reads. -/
theorem Stays.get_bind {f : Lowerer → LowerM α}
    (h : ∀ l : Lowerer, l.scopes.OpenedIn root → l.Around a →
      (run (f l) l).2.scopes.OpenedIn root ∧ l.Keeps (run (f l) l).2) :
    Stays root a (MonadState.get >>= f) :=
  h

theorem Stays.filterMapM {γ : Type} {f : γ → LowerM (Option α)} :
    ∀ xs : List γ, (∀ c ∈ xs, Stays root a (f c)) → Stays root a (xs.filterMapM f)
  | [], _ => by
    rw [List.filterMapM_nil]
    exact Stays.pure
  | c :: cs, h => by
    have hcs : ∀ c' ∈ cs, Stays root a (f c') := fun c' hc' => h c' (List.mem_cons_of_mem c hc')
    rw [List.filterMapM_cons]
    refine (h c List.mem_cons_self).bind fun o => ?_
    cases o with
    | none => exact filterMapM cs hcs
    | some v => exact (filterMapM cs hcs).bind fun _ => Stays.pure

theorem Stays.mapM {γ : Type} {f : γ → LowerM α} :
    ∀ xs : List γ, (∀ c ∈ xs, Stays root a (f c)) → Stays root a (xs.mapM f)
  | [], _ => by
    rw [List.mapM_nil]
    exact Stays.pure
  | c :: cs, h => by
    rw [List.mapM_cons]
    exact (h c List.mem_cons_self).bind fun _ =>
      (mapM cs fun c' hc' => h c' (List.mem_cons_of_mem c hc')).bind fun _ => Stays.pure

theorem Stays.foldlM {γ : Type} {f : α → γ → LowerM α} (hf : ∀ acc c, Stays root a (f acc c)) :
    ∀ (xs : List γ) (acc : α), Stays root a (xs.foldlM f acc)
  | [], acc => by
    rw [List.foldlM_nil]
    exact Stays.pure
  | c :: cs, acc => by
    rw [List.foldlM_cons]
    exact (hf acc c).bind fun acc' => foldlM hf cs acc'

/-- Declaring adds a symbol to a table and changes no scope's node. -/
theorem stays_declare (decl : SyntaxTree) : Stays root a (declare decl) := by
  unfold declare
  refine Stays.need_bind fun name _ => Stays.need_bind fun ident _ =>
    Stays.get_bind fun l hO _ => ?_
  split
  next t id hd =>
  obtain ⟨ht, hid⟩ := Prod.ext_iff.1 hd
  dsimp only at ht hid
  subst ht hid
  obtain ⟨hO', hk⟩ := hO.define _ _
  exact ⟨hO', rfl, hk⟩

theorem quiet_resolve (name : String) : Quiet (resolve name) := fun _ => rfl

/-- Noting an external name changes neither the scopes nor the open ones. -/
theorem run_noteExternal (name : String) (l : Lowerer) :
    (run (noteExternal name) l).2.scopes = l.scopes ∧
      (run (noteExternal name) l).2.stack = l.stack := by
  show (if (l.external.get? name).isSome then l else _).scopes = _ ∧
    (if (l.external.get? name).isSome then l else _).stack = _
  split <;> exact ⟨rfl, rfl⟩

theorem stays_noteExternal (name : String) : Stays root a (noteExternal name) := by
  intro l hO _
  obtain ⟨hscopes, hstack⟩ := run_noteExternal name l
  rw [Lowerer.Keeps, hscopes, hstack]
  exact ⟨hO, rfl, .refl _⟩

theorem stays_nameRef (node : SyntaxTree) : Stays root a (nameRef node) := by
  unfold nameRef
  refine (quiet_resolve _).stays.bind fun o => ?_
  rcases o with _ | ⟨scope, sym⟩
  · exact (stays_noteExternal _).bind fun _ => Stays.pure
  · exact Stays.get_bind fun l hO _ => ⟨hO, rfl, .refl _⟩

theorem stays_params (list : SyntaxTree) : Stays root a (params list) := by
  unfold params
  refine Stays.foldlM (fun acc c => ?_) _ _
  split
  · refine (stays_declare c).optional.bind fun o => ?_
    cases o <;> exact Stays.pure
  · refine (quiet_resolve _).stays.bind fun o => ?_
    rcases o with _ | ⟨_, _⟩ <;> exact Stays.pure

/-! ## Opening and closing a scope -/

/-- Opening a scope at a node within the root that the innermost open scope
holds, and closing it again, keeps the scopes in place. -/
theorem Stays.enter_bind {k : ScopeKind} {n : SyntaxTree} {y : ScopeId → LowerM α}
    (hn : n.Within root) (hk : n.nodeKind?.isSome) (ha : a.Covers n.span)
    (hy : ∀ id, Closes root n.span (y id)) : Stays root a (enter k n >>= y) := by
  intro l hO hA
  obtain ⟨ps, hps, hcov⟩ := hA
  obtain ⟨hO₁, hk₁⟩ := hO.push hps k hn hk (hcov.trans ha)
  rw [run_bind, run_enter]
  -- inside, the new scope is the innermost one, opened at `n`
  have hA₁ : Lowerer.Around
      { l with scopes := (l.scopes.push (l.stack.head?.getD 0) k n.ref).1
               stack := l.scopes.scopes.size :: l.stack } n.span :=
    ⟨_, ScopeTree.scope?_push_size _ _ _ _ (ScopeTree.lt_of_scope? hps), .refl _⟩
  obtain ⟨hO₂, hs₂, hk₂⟩ := hy _ _ hO₁ hA₁
  exact ⟨hO₂, hs₂, hk₁.trans hk₂⟩

/-- A step that keeps the scopes in place and cannot fail, then the rest of
the block. -/
theorem Closes.stays_bind {x : LowerM β} {f : β → LowerM α} (hx : Stays root a x)
    (hs : Succeeds x) (hf : ∀ v, Closes root a (f v)) : Closes root a (x >>= f) := by
  intro l hO hA
  obtain ⟨hO₁, hk₁⟩ := hx l hO hA
  obtain ⟨v, hv⟩ := Option.isSome_iff_exists.1 (hs l)
  rw [run_bind_of_isSome hv]
  obtain ⟨hO₂, hs₂, hk₂⟩ := hf v _ hO₁ (hA.keep hk₁)
  exact ⟨hO₂, by rw [hs₂, hk₁.1], hk₁.2.trans hk₂⟩

/-- Closing the innermost scope, then steps that do not touch the lowerer. -/
theorem closes_exit_bind {z : Unit → LowerM α} (hz : ∀ u, Quiet (z u)) :
    Closes root a (exit >>= z) := by
  intro l hO _
  rw [run_bind, run_exit]
  dsimp only
  rw [hz]
  exact ⟨hO, rfl, .refl _⟩

/-! ## The lowering functions -/

/-- `n` is a node within `root` that `a` holds. -/
def Inside (root : SyntaxTree) (a : Span) (n : SyntaxTree) : Prop :=
  n.Within root ∧ n.nodeKind?.isSome ∧ a.Covers n.span

section Inside

variable (hR : root.Placed)
include hR

theorem Inside.child {n c : SyntaxTree} (h : Inside root a n) (hc : c ∈ n.childNodes) :
    Inside root a c := by
  obtain ⟨hw, -, hcov⟩ := h
  rw [SyntaxTree.childNodes, List.mem_filter] at hc
  have hn := (hR.within hw).1
  exact ⟨(SyntaxTree.Within.of_mem_children hc.1).trans hw, hc.2, hcov.trans (hn.covers_child hc.1)⟩

/-- What a search among the child nodes finds. -/
theorem Inside.find? {n c : SyntaxTree} {p : SyntaxTree → Bool} (h : Inside root a n)
    (hc : n.childNodes.find? p = some c) : Inside root a c :=
  h.child hR (List.mem_of_find?_eq_some hc)

theorem Inside.childrenWith {n : SyntaxTree} {p : NodeKind → Bool} (h : Inside root a n) :
    ∀ c ∈ n.childrenWith p, Inside root a c :=
  fun _ hc => h.child hR (List.mem_of_mem_filter hc)

end Inside

theorem Inside.self {n : SyntaxTree} (h : Inside root a n) : Inside root n.span n :=
  ⟨h.1, h.2.1, .refl _⟩

/-- Every lowering function at fuel `fuel`, on nodes within `root` that `a`
holds, keeps the scopes in place. -/
structure StaysIn (root : SyntaxTree) (fuel : Nat) : Prop where
  stmts : ∀ a nodes, (∀ n ∈ nodes, Inside root a n) → Stays root a (stmts fuel nodes)
  block : ∀ a list, (∀ n ∈ list, Inside root a n) → Stays root a (block fuel list)
  stmt : ∀ a node, Inside root a node → Stays root a (stmt fuel node)
  loopParts : ∀ a node arrow, Inside root a node → Stays root a (loopParts fuel node arrow)
  branch : ∀ a node, Inside root a node → Stays root a (branch fuel node)
  exprs : ∀ a nodes, (∀ n ∈ nodes, Inside root a n) → Stays root a (exprs fuel nodes)
  expr : ∀ a node, Inside root a node → Stays root a (expr fuel node)

theorem staysIn_zero : StaysIn root 0 where
  stmts _ _ _ := Stays.pure
  block _ _ _ := Stays.failure
  stmt _ _ _ := Stays.failure
  loopParts _ _ _ _ := Stays.failure
  branch _ _ _ := Stays.failure
  exprs _ _ _ := Stays.failure
  expr _ _ _ := Stays.failure

section Succ

variable {fuel : Nat} (hR : root.Placed) (ih : StaysIn root fuel)
include hR ih

omit hR in
theorem StaysIn.stmts_succ (nodes : List SyntaxTree) (h : ∀ n ∈ nodes, Inside root a n) :
    Stays root a (Lower.stmts (fuel + 1) nodes) :=
  Stays.filterMapM nodes fun n hn => (ih.stmt a n (h n hn)).optional

/-- A block opens its scope at the statement list, inside the node it
belongs to, and closes it after the statements. -/
theorem StaysIn.block_succ (list : Option SyntaxTree) (h : ∀ n ∈ list, Inside root a n) :
    Stays root a (Lower.block (fuel + 1) list) := by
  refine Stays.need_bind fun n hn => ?_
  obtain ⟨hw, hk, hcov⟩ := h n hn
  exact Stays.enter_bind hw hk hcov fun _ =>
    Closes.stays_bind (ih.stmts _ _ (Inside.childrenWith hR (⟨hw, hk, .refl _⟩ : Inside root n.span n)))
      (succeeds_stmts _ _) fun _ => closes_exit_bind fun _ => Quiet.pure

omit hR in
theorem StaysIn.exprs_succ (nodes : List SyntaxTree) (h : ∀ n ∈ nodes, Inside root a n) :
    Stays root a (Lower.exprs (fuel + 1) nodes) :=
  Stays.mapM nodes fun n hn => ih.expr a n (h n hn)

theorem StaysIn.stmt_succ (node : SyntaxTree) (hI : Inside root a node) :
    Stays root a (Lower.stmt (fuel + 1) node) := by
  rw [Lower.stmt]
  dsimp only
  split
  -- a declaration: the initializer first, and it may fail on its own
  · split <;> refine Stays.bind ?_ fun _ => Stays.need_bind fun _ _ =>
      (stays_declare _).bind fun _ => Stays.pure
    · exact (ih.expr _ _ (hI.find? hR ‹_›)).optional
    · exact Stays.pure
  · refine Stays.need_bind fun t ht => (ih.expr _ _ (hI.find? hR ht)).bind fun _ =>
      Stays.need_bind fun v hv => ?_
    obtain ⟨_, -, hv⟩ := Option.bind_eq_some_iff.1 hv
    exact (ih.expr _ _ (hI.find? hR hv)).bind fun _ => Stays.pure
  · exact Stays.need_bind fun e he => (ih.expr _ _ (hI.find? hR he)).bind fun _ => Stays.pure
  · refine Stays.need_bind fun e he => (ih.expr _ _ (hI.find? hR he)).bind fun _ =>
      (ih.block _ _ fun n hn => hI.find? hR hn).bind fun _ => ?_
    split <;> refine Stays.bind ?_ fun _ => Stays.pure
    · exact (ih.branch _ _ (hI.find? hR ‹_›)).map
    · exact Stays.pure
  · exact Stays.need_bind fun e he => (ih.expr _ _ (hI.find? hR he)).bind fun _ =>
      (ih.block _ _ fun n hn => hI.find? hR hn).bind fun _ => Stays.pure
  -- a loop: the iterable before the header scope, the variable and body inside it
  · exact Stays.need_bind fun arrow _ => Stays.need_bind fun it hit =>
      (ih.expr _ _ (hI.find? hR hit)).bind fun _ => Stays.enter_bind hI.1 hI.2.1 hI.2.2 fun _ =>
        Closes.stays_bind (ih.loopParts _ _ _ hI.self).optional (succeeds_optional _) fun _ =>
          closes_exit_bind fun _ => Quiet.need_bind fun p => by
            obtain ⟨var, body⟩ := p
            exact Quiet.pure
  -- a begin block: its parameters in the scope around it, then its body
  · refine Stays.need_bind fun _ _ => ?_
    have hargs : ∀ list, node.child? .argList = some list →
        Stays root a (Lower.exprs fuel (list.childrenWith NodeKind.isExpr)) :=
      fun _ hl => ih.exprs _ _ ((hI.find? hR hl).childrenWith hR)
    have hbody := ih.block a (node.child? .stmtList) fun n hn => hI.find? hR hn
    split <;> refine Stays.bind ?_ fun _ => ?_
    · exact stays_params _
    · split <;> refine Stays.bind ?_ fun _ => hbody.bind fun _ => Stays.pure
      · exact hargs _ ‹_›
      · exact Stays.pure
    · exact Stays.pure
    · split <;> refine Stays.bind ?_ fun _ => hbody.bind fun _ => Stays.pure
      · exact hargs _ ‹_›
      · exact Stays.pure
  · split
    next e he => exact (ih.expr _ _ (hI.find? hR he)).bind fun _ => Stays.pure
    · exact Stays.pure
  · exact Stays.pure
  · exact Stays.pure
  · exact Stays.need_bind fun e he => (ih.expr _ _ (hI.find? hR he)).bind fun _ => Stays.pure
  · exact Stays.failure

theorem StaysIn.loopParts_succ (node : SyntaxTree) (arrow : Token) (hI : Inside root a node) :
    Stays root a (Lower.loopParts (fuel + 1) node arrow) := by
  rw [Lower.loopParts]
  refine Stays.need_bind fun v _ => ?_
  extract_lets jp
  have hjp : ∀ var, Stays root a (jp var) := fun _ =>
    (ih.block _ _ fun n hn => hI.find? hR hn).bind fun _ => Stays.pure
  split
  · exact (stays_declare v).map.bind hjp
  · exact (stays_nameRef v).map.bind hjp

theorem StaysIn.branch_succ (node : SyntaxTree) (hI : Inside root a node) :
    Stays root a (Lower.branch (fuel + 1) node) := by
  rw [Lower.branch]
  split
  · refine Stays.need_bind fun e he => (ih.expr _ _ (hI.find? hR he)).bind fun _ =>
      (ih.block _ _ fun n hn => hI.find? hR hn).bind fun _ => ?_
    extract_lets jp
    split <;> refine Stays.bind ?_ fun _ => Stays.pure
    · exact (ih.branch _ _ (hI.find? hR ‹_›)).map
    · exact Stays.pure
  · exact (ih.block _ _ fun n hn => hI.find? hR hn).bind fun _ => Stays.pure

theorem StaysIn.expr_succ (node : SyntaxTree) (hI : Inside root a node) :
    Stays root a (Lower.expr (fuel + 1) node) := by
  rw [Lower.expr]
  split
  · exact stays_nameRef node
  · refine Stays.need_bind fun _ _ => Stays.need_bind fun _ _ => ?_
    split <;> exact Stays.pure
  · exact Stays.need_bind fun e he => ih.expr _ _ (hI.find? hR he)
  · exact Stays.need_bind fun _ _ => Stays.need_bind fun e he =>
      (ih.expr _ _ (hI.find? hR he)).bind fun _ => Stays.pure
  · exact Stays.need_bind fun _ _ => Stays.need_bind fun _ _ => Stays.need_bind fun l hl =>
      (ih.expr _ _ (hI.find? hR hl)).bind fun _ => Stays.need_bind fun r hr =>
        (ih.expr _ _ (hI.find? hR hr)).bind fun _ => Stays.pure
  · refine Stays.need_bind fun opTok _ => ?_
    extract_lets op
    refine Stays.need_bind fun b hb => (ih.expr _ _ (hI.find? hR hb)).bind fun _ =>
      Stays.need_bind fun target ht => ?_
    extract_lets jp
    have hjp : ∀ member, Stays root a (jp member) := fun _ => Stays.pure
    split
    · exact Stays.pure.bind hjp
    · exact (ih.expr _ _ (hI.find? hR ht)).bind hjp
  · refine Stays.need_bind fun _ _ => ?_
    extract_lets name
    refine (quiet_resolve _).stays.bind fun o => ?_
    extract_lets sym jpArgs jp
    have hjp : ∀ u, Stays root a (jp u) := by
      intro u
      dsimp only [jp]
      split
      next list hl =>
        exact (ih.exprs _ _ ((hI.find? hR hl).childrenWith hR)).bind fun _ => Stays.pure
      · exact Stays.pure.bind fun _ => Stays.pure
    split
    · exact (stays_noteExternal _).bind hjp
    · exact hjp ()
  -- a lambda: its parameters in a scope of their own, around the body
  · refine Stays.need_bind fun _ _ => ?_
    extract_lets blockType
    refine Stays.enter_bind hI.1 hI.2.1 hI.2.2 fun _ => ?_
    extract_lets jp
    have hjp : ∀ ps, Closes root node.span (jp ps) := fun _ =>
      Closes.stays_bind (ih.block _ _ fun n hn => hI.self.find? hR hn).optional (succeeds_optional _)
        fun _ => closes_exit_bind fun _ => Quiet.need_bind fun _ => Quiet.pure
    split
    · exact Closes.stays_bind (stays_params _) (succeeds_params _) hjp
    · exact Closes.stays_bind Stays.pure Succeeds.pure hjp
  · exact Stays.failure

end Succ

theorem StaysIn.succ {fuel : Nat} (hR : root.Placed) (ih : StaysIn root fuel) :
    StaysIn root (fuel + 1) where
  stmts := fun _ => ih.stmts_succ
  block := fun _ => ih.block_succ hR
  stmt := fun _ => ih.stmt_succ hR
  loopParts := fun _ => ih.loopParts_succ hR
  branch := fun _ => ih.branch_succ hR
  exprs := fun _ => ih.exprs_succ
  expr := fun _ => ih.expr_succ hR

theorem staysIn (hR : root.Placed) : ∀ fuel, StaysIn root fuel
  | 0 => staysIn_zero
  | fuel + 1 => (staysIn hR fuel).succ hR

end Lower

/-- Lowering succeeds only on a script node. -/
theorem isNode_of_lower {root : SyntaxTree} {out : Lowered} (h : lower root = some out) :
    root.isNode .script = true := by
  unfold lower at h
  extract_lets start jp at h
  split at h
  · cases h
  · simpa using (by assumption : ¬(!root.isNode .script) = true)

/-- The scope tree of a lowered script is well formed. -/
theorem lower_wellFormed {root : SyntaxTree} {out : Lowered} (h : lower root = some out) :
    out.script.scopes.WellFormed := by
  obtain ⟨⟨o, l⟩, hrun, hscopes, -⟩ := lower_eq_run h
  have hstart : Lowerer.Sound ⟨ScopeTree.ofRoot root.ref, [0], []⟩ :=
    ⟨ScopeTree.wellFormed_ofRoot _, by simp [ScopeTree.ofRoot]⟩
  obtain ⟨hsound, -⟩ :=
    (Lower.meets (root.size + 1)).stmts [] (root.childrenWith NodeKind.isStmt) _ hstart (by simp)
  rw [hrun] at hsound
  rw [hscopes]
  exact hsound.tree

/-- In a placed tree, every scope of the lowered script is opened at a node of
the tree, inside the node of its parent scope. -/
theorem lower_openedIn {root : SyntaxTree} {out : Lowered} (hR : root.Placed)
    (h : lower root = some out) : out.script.scopes.OpenedIn root := by
  obtain ⟨res, hres, hscopes, -⟩ := lower_eq_run h
  have hk : root.nodeKind?.isSome := by
    have := isNode_of_lower h
    unfold SyntaxTree.isNode SyntaxTree.isNodeWith at this
    split at this
    · simp [*]
    · cases this
  have hroot : Lower.Inside root root.span root := ⟨.refl _, hk, .refl _⟩
  -- the walk starts from the script scope alone, opened at the root
  obtain ⟨hO, -⟩ := (Lower.staysIn hR (root.size + 1)).stmts root.span _
    (Lower.Inside.childrenWith hR hroot) ⟨ScopeTree.ofRoot root.ref, [0], []⟩
    (ScopeTree.openedIn_ofRoot hk) ⟨_, rfl, .refl _⟩
  rw [hscopes, ← hres]
  exact hO

end Resolved

end GameScript
