import Mathlib
import GameScript.Proofs.NameTable
import GameScript.Scope.Basic
/-!
# Well-formed scope trees

Lowering builds a script's scope tree with two operations only: `push`
opens a scope inside an existing one and `define` enters a symbol in one
scope's table. `ScopeTree.WellFormed` is what that leaves: the script scope
first and without a parent, every other scope opened after its parent, the
children of each scope exactly the scopes that name it as their parent, in
the order they were opened, and every table entry an existing symbol under
its folded name, with no symbol in two tables. Both operations keep it
(`WellFormed.push`, `WellFormed.define`).

A scope is looked up from its node by the first scope opened at a node of
the same kind and range (`scopeOf?_node`). Nodes are named by kind and range
only, so two scopes opened at equal names share the first one's number.

Scope and symbol numbers are bound as `Nat` in the statements below, so that
`omega` reads them.
-/

set_option autoImplicit false

namespace GameScript

namespace ScopeTree

/-- The parent of a scope; none for the script scope and past the last scope. -/
def parentOf (t : ScopeTree) (i : ScopeId) : Option ScopeId := (t.scope? i).bind (·.parent)

/-- The scopes that name `p` as their parent, in the order they were opened. -/
def childrenOf (t : ScopeTree) (p : ScopeId) : List ScopeId :=
  (List.range t.scopes.size).filter fun i => t.parentOf i == some p

/-- What opening scopes and declaring symbols leave in a scope tree. -/
structure WellFormed (t : ScopeTree) : Prop where
  /-- Scope `0` is the script scope and has no parent. -/
  root : ∃ s, t.scope? 0 = some s ∧ s.parent = none ∧ s.kind = .script
  /-- Every other scope was opened after its parent. -/
  parent_lt : ∀ (i : Nat) s, t.scope? i = some s → 0 < i → ∃ p : Nat, s.parent = some p ∧ p < i
  /-- The children of a scope are the scopes opened inside it, in order. -/
  children : ∀ (p : Nat) s, t.scope? p = some s → s.children = t.childrenOf p
  /-- Every table entry is an existing symbol under its folded name. -/
  entries : ∀ (i : Nat) s, t.scope? i = some s → ∀ e ∈ s.symbols,
    ∃ sym, t.symbol? e.2 = some sym ∧ e.1 = Text.foldCase sym.name
  /-- No symbol stands in the tables of two scopes. -/
  separate : ∀ (i j : Nat) s s' e e', t.scope? i = some s → t.scope? j = some s' →
    e ∈ s.symbols → e' ∈ s'.symbols → e.2 = e'.2 → i = j

theorem lt_of_scope? {t : ScopeTree} {i : Nat} {s : Scope} (h : t.scope? i = some s) :
    i < t.scopes.size :=
  (Array.getElem?_eq_some_iff.1 h).1

theorem lt_of_symbol? {t : ScopeTree} {i : Nat} {sym : Symbol} (h : t.symbol? i = some sym) :
    i < t.symbols.size :=
  (Array.getElem?_eq_some_iff.1 h).1

/-! ## Opening a scope -/

section Push

variable (t : ScopeTree) (p : Nat) (k : ScopeKind) (n : NodeRef)

/-- The scope `push` opens. -/
def opened : Scope := { parent := some p, children := [], kind := k, node := n, symbols := [] }

theorem push_snd : (t.push p k n).2 = t.scopes.size := rfl

@[simp] theorem size_push : (t.push p k n).1.scopes.size = t.scopes.size + 1 := by
  simp [push]

@[simp] theorem symbols_push : (t.push p k n).1.symbols = t.symbols := rfl

theorem symbol?_push (i : Nat) : (t.push p k n).1.symbol? i = t.symbol? i := rfl

/-- The scope `push` opens is the last one. -/
theorem scope?_push_size (hp : p < t.scopes.size) :
    (t.push p k n).1.scope? t.scopes.size = some (opened p k n) := by
  simp only [push, scope?, Array.getElem?_modify, Array.getElem?_push, Nat.ne_of_lt hp,
    ↓reduceIte, opened]

/-- Before the new scope, `push` only lists it last among its parent's children. -/
theorem scope?_push_of_ne {i : Nat} (hi : i ≠ t.scopes.size) :
    (t.push p k n).1.scope? i = (t.scope? i).map fun s =>
      if i = p then { s with children := s.children ++ [t.scopes.size] } else s := by
  simp only [push, scope?, Array.getElem?_modify, Array.getElem?_push, hi, ↓reduceIte]
  by_cases hpi : p = i
  · simp [hpi]
  · simp [hpi, Ne.symm hpi]

/-- A scope after `push` is the new one, or an old one with its parent and
table as they were. -/
theorem scope?_push_eq_some (hp : p < t.scopes.size) {i : Nat} {s : Scope}
    (h : (t.push p k n).1.scope? i = some s) :
    (i = t.scopes.size ∧ s = opened p k n) ∨
      ∃ s0, t.scope? i = some s0 ∧ s.parent = s0.parent ∧ s.kind = s0.kind ∧
        s.node = s0.node ∧ s.symbols = s0.symbols := by
  by_cases hi : i = t.scopes.size
  · subst hi
    rw [scope?_push_size t p k n hp] at h
    exact Or.inl ⟨rfl, (Option.some.inj h).symm⟩
  · rw [scope?_push_of_ne t p k n hi] at h
    obtain ⟨s0, h0, rfl⟩ := Option.map_eq_some_iff.1 h
    exact Or.inr ⟨s0, h0, by split <;> simp⟩

theorem parentOf_push (hp : p < t.scopes.size) (i : Nat) :
    (t.push p k n).1.parentOf i = if i = t.scopes.size then some p else t.parentOf i := by
  unfold parentOf
  by_cases hi : i = t.scopes.size
  · rw [if_pos hi, hi, scope?_push_size t p k n hp]
    rfl
  · rw [if_neg hi, scope?_push_of_ne t p k n hi]
    cases t.scope? i with
    | none => rfl
    | some s => simp only [Option.map_some, Option.bind_some]; split <;> rfl

/-- Opening a scope adds it last to its parent's children. -/
theorem childrenOf_push (hp : p < t.scopes.size) (q : Nat) :
    (t.push p k n).1.childrenOf q = t.childrenOf q ++ if p = q then [t.scopes.size] else [] := by
  unfold childrenOf
  rw [size_push, List.range_succ, List.filter_append]
  congr 1
  · refine List.filter_congr fun i hi => ?_
    rw [parentOf_push t p k n hp, if_neg (Nat.ne_of_lt (List.mem_range.1 hi))]
  · by_cases hpq : p = q
    · subst hpq
      simp [parentOf_push t p k n hp]
    · simp [parentOf_push t p k n hp, hpq]

end Push

/-! ## Declaring a symbol -/

section Define

variable (t : ScopeTree) (i : Nat) (sym : Symbol)

theorem define_snd : (t.define i sym).2 = t.symbols.size := rfl

@[simp] theorem size_define : (t.define i sym).1.scopes.size = t.scopes.size := by
  simp [define]

@[simp] theorem symbols_define : (t.define i sym).1.symbols = t.symbols.push sym := rfl

/-- `define` changes the table of one scope and nothing else of the scopes. -/
theorem scope?_define (j : Nat) :
    (t.define i sym).1.scope? j = (t.scope? j).map fun s =>
      if j = i then { s with symbols := s.symbols.insert sym.name t.symbols.size } else s := by
  simp only [define, scope?, Array.getElem?_modify]
  by_cases hj : i = j
  · simp [hj]
  · simp [hj, Ne.symm hj]

theorem symbol?_define (j : Nat) :
    (t.define i sym).1.symbol? j = if j = t.symbols.size then some sym else t.symbol? j := by
  simp [symbol?, Array.getElem?_push]

theorem parentOf_define (j : Nat) : (t.define i sym).1.parentOf j = t.parentOf j := by
  unfold parentOf
  rw [scope?_define]
  cases t.scope? j with
  | none => rfl
  | some s => simp only [Option.map_some, Option.bind_some]; split <;> rfl

theorem childrenOf_define (q : Nat) : (t.define i sym).1.childrenOf q = t.childrenOf q := by
  simp only [childrenOf, size_define, parentOf_define]

end Define

/-! ## Both operations keep a tree well formed -/

theorem wellFormed_ofRoot (root : NodeRef) : (ofRoot root).WellFormed := by
  -- the only scope is the script scope, with no children and an empty table
  have only : ∀ {i : Nat} {s : Scope}, (ofRoot root).scope? i = some s →
      i = 0 ∧ s = { parent := none, children := [], kind := .script, node := root, symbols := [] } := by
    intro i s h
    have hi : i < 1 := lt_of_scope? h
    obtain rfl : i = 0 := by omega
    exact ⟨rfl, (Option.some.inj h).symm⟩
  refine ⟨⟨_, rfl, rfl, rfl⟩, fun i s h hi => ?_, fun p s h => ?_, fun i s h e he => ?_,
    fun i j s s' e e' h _ he => ?_⟩
  · obtain ⟨rfl, -⟩ := only h
    omega
  · obtain ⟨rfl, rfl⟩ := only h
    rfl
  · obtain ⟨-, rfl⟩ := only h
    cases he
  · obtain ⟨-, rfl⟩ := only h
    cases he

/-- No scope names a scope past the last one as its parent. -/
theorem WellFormed.childrenOf_size {t : ScopeTree} (h : t.WellFormed) :
    t.childrenOf t.scopes.size = [] := by
  unfold childrenOf
  rw [List.filter_eq_nil_iff]
  intro i hi
  have hi : i < t.scopes.size := List.mem_range.1 hi
  unfold parentOf
  cases hs : t.scope? i with
  | none => simp
  | some s =>
    rcases Nat.eq_zero_or_pos i with rfl | hpos
    · obtain ⟨s0, h0, hnone, -⟩ := h.root
      rw [hs] at h0
      cases h0
      simp [hnone]
    · obtain ⟨q, hq, hlt⟩ := h.parent_lt i s hs hpos
      simp only [Option.bind_some, hq, beq_iff_eq, Option.some.injEq]
      exact Nat.ne_of_lt (Nat.lt_trans hlt hi)

theorem WellFormed.push {t : ScopeTree} (h : t.WellFormed) {p : Nat} (hp : p < t.scopes.size)
    (k : ScopeKind) (n : NodeRef) : (t.push p k n).1.WellFormed where
  root := by
    obtain ⟨s, h0, hnone, hkind⟩ := h.root
    have hsize : 0 ≠ t.scopes.size := Nat.ne_of_lt (lt_of_scope? h0)
    refine ⟨_, by rw [scope?_push_of_ne t p k n hsize, h0]; rfl, ?_, ?_⟩ <;> split <;> assumption
  parent_lt i s hs hi := by
    rcases scope?_push_eq_some t p k n hp hs with ⟨rfl, rfl⟩ | ⟨s0, h0, hparent, -⟩
    · exact ⟨p, rfl, hp⟩
    · rw [hparent]
      exact h.parent_lt i s0 h0 hi
  children q s hs := by
    rw [childrenOf_push t p k n hp]
    by_cases hq : q = t.scopes.size
    · subst hq
      rw [scope?_push_size t p k n hp] at hs
      cases hs
      rw [h.childrenOf_size, if_neg (Nat.ne_of_lt hp)]
      rfl
    · rw [scope?_push_of_ne t p k n hq] at hs
      obtain ⟨s0, h0, rfl⟩ := Option.map_eq_some_iff.1 hs
      rw [← h.children q s0 h0]
      by_cases hqp : q = p
      · simp [hqp]
      · simp [hqp, Ne.symm hqp]
  entries i s hs e he := by
    rcases scope?_push_eq_some t p k n hp hs with ⟨-, rfl⟩ | ⟨s0, h0, -, -, -, hsym⟩
    · cases he
    · rw [hsym] at he
      exact h.entries i s0 h0 e he
  separate i j s s' e e' hs hs' he he' hid := by
    -- the new scope has an empty table, so both entries are old ones
    rcases scope?_push_eq_some t p k n hp hs with ⟨-, rfl⟩ | ⟨s0, h0, -, -, -, hsym⟩
    · cases he
    rcases scope?_push_eq_some t p k n hp hs' with ⟨-, rfl⟩ | ⟨s1, h1, -, -, -, hsym'⟩
    · cases he'
    rw [hsym] at he
    rw [hsym'] at he'
    exact h.separate i j s0 s1 e e' h0 h1 he he' hid

theorem WellFormed.define {t : ScopeTree} (h : t.WellFormed) (i : Nat) (sym : Symbol) :
    (t.define i sym).1.WellFormed := by
  -- an entry of the new tables is an old one, below the new symbol, or the new symbol in `i`
  have entry : ∀ {j : Nat} {s : Scope} {e : String × SymbolId}, t.scope? j = some s →
      e ∈ (if j = i then { s with symbols := s.symbols.insert sym.name t.symbols.size }
        else s).symbols →
      (e ∈ s.symbols ∧ e.2 < t.symbols.size) ∨ (j = i ∧ e = (Text.foldCase sym.name, t.symbols.size)) := by
    intro j s e hj he
    have old : e ∈ s.symbols → e ∈ s.symbols ∧ e.2 < t.symbols.size := fun hm => by
      obtain ⟨sym', hsym, -⟩ := h.entries j s hj e hm
      exact ⟨hm, lt_of_symbol? hsym⟩
    split at he
    · rcases NameTable.mem_insert he with hm | rfl
      · exact Or.inl (old hm)
      · exact Or.inr ⟨by assumption, rfl⟩
    · exact Or.inl (old he)
  refine ⟨?_, fun j s hs hj => ?_, fun q s hs => ?_, fun j s hs e he => ?_,
    fun j j' s s' e e' hs hs' he he' hid => ?_⟩
  · obtain ⟨s, h0, hnone, hkind⟩ := h.root
    refine ⟨_, by rw [scope?_define, h0]; rfl, ?_, ?_⟩ <;> split <;> assumption
  · rw [scope?_define] at hs
    obtain ⟨s0, h0, rfl⟩ := Option.map_eq_some_iff.1 hs
    obtain ⟨q, hq, hlt⟩ := h.parent_lt j s0 h0 hj
    exact ⟨q, by split <;> exact hq, hlt⟩
  · rw [childrenOf_define]
    rw [scope?_define] at hs
    obtain ⟨s0, h0, rfl⟩ := Option.map_eq_some_iff.1 hs
    rw [← h.children q s0 h0]
    split <;> rfl
  · rw [scope?_define] at hs
    obtain ⟨s0, h0, rfl⟩ := Option.map_eq_some_iff.1 hs
    rcases entry h0 he with ⟨he0, hlt⟩ | ⟨-, rfl⟩
    · obtain ⟨sym', hsym, hkey⟩ := h.entries j s0 h0 e he0
      refine ⟨sym', ?_, hkey⟩
      rw [symbol?_define, if_neg (Nat.ne_of_lt hlt), hsym]
    · exact ⟨sym, by rw [symbol?_define, if_pos rfl], rfl⟩
  · rw [scope?_define] at hs hs'
    obtain ⟨s0, h0, rfl⟩ := Option.map_eq_some_iff.1 hs
    obtain ⟨s1, h1, rfl⟩ := Option.map_eq_some_iff.1 hs'
    rcases entry h0 he with ⟨he0, hlt⟩ | ⟨rfl, rfl⟩ <;>
      rcases entry h1 he' with ⟨he1, hlt'⟩ | ⟨rfl, rfl⟩
    · exact h.separate j j' s0 s1 e e' h0 h1 he0 he1 hid
    · exact absurd hid (Nat.ne_of_lt hlt)
    · exact absurd hid.symm (Nat.ne_of_lt hlt')
    · rfl

/-! ## Children, symbols and growth -/

/-- A scope's children are listed in increasing order, each once. -/
theorem WellFormed.children_lt {t : ScopeTree} (h : t.WellFormed) {p : Nat} {s : Scope}
    (hs : t.scope? p = some s) : s.children.Pairwise (· < ·) := by
  rw [h.children p s hs]
  exact List.pairwise_lt_range.filter _

/-- The children of `p` are exactly the scopes whose parent is `p`. -/
theorem WellFormed.mem_children {t : ScopeTree} (h : t.WellFormed) {p : Nat} {s : Scope}
    (hs : t.scope? p = some s) (i : Nat) : i ∈ s.children ↔ t.parentOf i = some p := by
  rw [h.children p s hs, childrenOf, List.mem_filter, List.mem_range, beq_iff_eq]
  refine ⟨fun hi => hi.2, fun hi => ⟨?_, hi⟩⟩
  -- only an existing scope has a parent
  obtain ⟨s', hs', -⟩ := Option.bind_eq_some_iff.1 hi
  exact lt_of_scope? hs'

/-- A name resolves to an entry of an existing scope's table. -/
theorem mem_of_resolve {t : ScopeTree} {scope : ScopeId} {name : String} {i v : Nat}
    (h : t.resolve scope name = some (i, v)) :
    ∃ s, t.scope? i = some s ∧ ∃ e ∈ s.symbols, e.2 = v := by
  obtain ⟨j, -, hj⟩ := List.exists_of_findSome?_eq_some h
  obtain ⟨s, hs, hget⟩ := Option.bind_eq_some_iff.1 hj
  obtain ⟨v', hv', he⟩ := Option.map_eq_some_iff.1 hget
  cases he
  obtain ⟨e, he, rfl⟩ := Option.map_eq_some_iff.1 hv'
  exact ⟨s, hs, e, List.mem_of_find?_eq_some he, rfl⟩

/-- In a well-formed tree a name resolves to an existing symbol. -/
theorem WellFormed.lt_of_resolve {t : ScopeTree} (h : t.WellFormed) {scope : ScopeId}
    {name : String} {i v : Nat} (hr : t.resolve scope name = some (i, v)) : v < t.symbols.size := by
  obtain ⟨s, hs, e, he, rfl⟩ := mem_of_resolve hr
  obtain ⟨sym, hsym, -⟩ := h.entries i s hs e he
  exact lt_of_symbol? hsym

/-- `t'` keeps every symbol of `t` and every scope of `t` with its kind. -/
structure Grows (t t' : ScopeTree) : Prop where
  symbols : t.symbols.size ≤ t'.symbols.size
  kinds : ∀ (i : Nat) s, t.scope? i = some s → (t'.scope? i).map (·.kind) = some s.kind

theorem Grows.refl (t : ScopeTree) : t.Grows t := ⟨le_refl _, fun _ _ h => by rw [h]; rfl⟩

theorem Grows.trans {t₁ t₂ t₃ : ScopeTree} (h₁ : t₁.Grows t₂) (h₂ : t₂.Grows t₃) :
    t₁.Grows t₃ where
  symbols := le_trans h₁.symbols h₂.symbols
  kinds i s hs := by
    obtain ⟨s', hs', hk⟩ := Option.map_eq_some_iff.1 (h₁.kinds i s hs)
    rw [h₂.kinds i s' hs', hk]

theorem grows_push (t : ScopeTree) (p : Nat) (k : ScopeKind) (n : NodeRef) :
    t.Grows (t.push p k n).1 where
  symbols := le_refl _
  kinds i s hs := by
    rw [scope?_push_of_ne t p k n (Nat.ne_of_lt (lt_of_scope? hs)), hs, Option.map_some,
      Option.map_some]
    split <;> rfl

theorem grows_define (t : ScopeTree) (i : Nat) (sym : Symbol) : t.Grows (t.define i sym).1 where
  symbols := by simp
  kinds j s hs := by
    rw [scope?_define, hs, Option.map_some, Option.map_some]
    split <;> rfl

/-! ## Finding a scope from its node -/

/-- The scope found from the node of scope `i` is the first one opened at a
node of the same kind and range: `i` itself unless an earlier scope was. -/
theorem scopeOf?_node {t : ScopeTree} {i : Nat} {s : Scope} (h : t.scope? i = some s) :
    ∃ j : Nat, j ≤ i ∧ t.scopeOf? s.node = some j ∧ (t.scope? j).map (·.node) = some s.node ∧
      ∀ j' : Nat, j' < j → (t.scope? j').map (·.node) ≠ some s.node := by
  obtain ⟨hi, hget⟩ := Array.getElem?_eq_some_iff.1 h
  have hsome : (t.scopes.toList.findIdx? fun x => x.node == s.node).isSome := by
    rw [List.findIdx?_isSome, List.any_eq_true]
    exact ⟨s, Array.mem_toList_iff.2 (Array.mem_of_getElem? h), by simp⟩
  obtain ⟨j, hj⟩ := Option.isSome_iff_exists.1 hsome
  obtain ⟨hjlen, hjnode, hbefore⟩ := List.findIdx?_eq_some_iff_getElem.1 hj
  have hjsize : j < t.scopes.size := by simpa using hjlen
  refine ⟨j, ?_, hj, ?_, fun j' hj' hnode => ?_⟩
  · by_contra hlt
    have := hbefore i (by omega)
    simp [hget] at this
  · simp only [Array.getElem_toList, beq_iff_eq] at hjnode
    simp [scope?, Array.getElem?_eq_getElem hjsize, hjnode]
  · apply hbefore j' hj'
    simp only [scope?, Array.getElem?_eq_getElem (Nat.lt_trans hj' hjsize), Option.map_some,
      Option.some.injEq] at hnode
    simp [hnode]

end ScopeTree

end GameScript
