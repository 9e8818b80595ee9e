import Mathlib
import GameScript.Proofs.ScopeTree
/-!
# Shadowing: the visible symbols and name resolution agree

A scope tree answers two questions about the names around a scope: which
symbol a name resolves to (`ScopeTree.resolve`), and which symbols are
visible at all (`ScopeTree.visibleSymbols`). Both walk the scopes from the
given one out to the script scope; the first stops at the innermost table
that holds the name, the second keeps, across the whole walk, the first
entry of each folded name it meets.

Read as one list, the tables along the walk (`entriesAround`) make both
answers plain: `resolve` finds the first entry under the folded name, and
`visibleSymbols` keeps exactly the first entry of each name
(`visibleSymbols_eq`, `mem_firstsByKey`). Since every table entry of a tree
that was built by opening scopes and declaring symbols sits under the folded
name of its own symbol (`WellFormed.entries`), the two agree symbol by
symbol, each visible name stands once, and the visible symbols keep the
order of the walk (`visibleSymbols_agree_resolve`).
-/

set_option autoImplicit false

namespace GameScript

/-! ## The first item of each key -/

section Firsts

variable {α : Type} (key : α → String)

/-- The items of a list whose key neither stands in `seen` nor is the key of
an earlier item, in order. -/
def firstsBy : List String → List α → List α
  | _, [] => []
  | seen, a :: as => if key a ∈ seen then firstsBy seen as else a :: firstsBy (key a :: seen) as

/-- A fold that keeps an item when its key is new keeps the first item of
each key. -/
theorem foldl_firstsBy {β : Type} (val : α → β) (f : List String × List β → α → List String × List β)
    (hf : ∀ p a, f p a = if key a ∈ p.1 then p else (key a :: p.1, val a :: p.2))
    (l : List α) (seen : List String) (acc : List β) :
    (l.foldl f (seen, acc)).2 = ((firstsBy key seen l).map val).reverse ++ acc := by
  induction l generalizing seen acc with
  | nil => rfl
  | cons a l ih =>
    rw [List.foldl_cons, hf, firstsBy]
    by_cases ha : key a ∈ seen
    · rw [if_pos ha, if_pos ha, ih]
    · rw [if_neg ha, if_neg ha, ih]
      simp

theorem firstsBy_sublist (seen : List String) (l : List α) : (firstsBy key seen l).Sublist l := by
  induction l generalizing seen with
  | nil => exact List.Sublist.slnil
  | cons a l ih =>
    rw [firstsBy]
    split
    · exact (ih seen).cons a
    · exact (ih _).cons_cons a

/-- An item is kept exactly when its key is new and it is the first item
with that key. -/
theorem mem_firstsBy (seen : List String) (l : List α) (a : α) :
    a ∈ firstsBy key seen l ↔ key a ∉ seen ∧ l.find? (fun b => key b == key a) = some a := by
  induction l generalizing seen with
  | nil => simp [firstsBy]
  | cons b l ih =>
    rw [firstsBy]
    by_cases hb : key b ∈ seen
    · -- `b` is skipped, and so is it by `find?` for a key not in `seen`
      rw [if_pos hb, ih, List.find?_cons]
      by_cases ha : key a ∈ seen
      · simp [ha]
      · have hne : (key b == key a) = false := by
          rw [beq_eq_false_iff_ne]
          rintro heq
          exact ha (heq ▸ hb)
        simp [ha, hne]
    · rw [if_neg hb, List.mem_cons, ih, List.find?_cons]
      by_cases hba : key b = key a
      · constructor
        · rintro (rfl | ⟨hne, -⟩)
          · simp [hb]
          · exact absurd (List.mem_cons.2 (Or.inl hba.symm)) hne
        · rintro ⟨-, h⟩
          simp only [hba, beq_self_eq_true, Option.some.injEq] at h
          exact Or.inl h.symm
      · have hne : (key b == key a) = false := beq_eq_false_iff_ne.2 hba
        simp only [hne, List.mem_cons, not_or]
        constructor
        · rintro (rfl | ⟨⟨h1, h2⟩, h3⟩)
          · exact absurd rfl hba
          · exact ⟨h2, h3⟩
        · rintro ⟨h1, h2⟩
          exact Or.inr ⟨⟨fun h => hba h.symm, h1⟩, h2⟩

/-- The keys kept are the keys of the list not in `seen`. -/
theorem mem_map_firstsBy (seen : List String) (l : List α) (k : String) :
    k ∈ (firstsBy key seen l).map key ↔ k ∉ seen ∧ k ∈ l.map key := by
  induction l generalizing seen with
  | nil => simp [firstsBy]
  | cons b l ih =>
    rw [firstsBy]
    by_cases hb : key b ∈ seen
    · rw [if_pos hb, ih]
      constructor
      · rintro ⟨h1, h2⟩
        exact ⟨h1, List.mem_cons_of_mem _ h2⟩
      · rintro ⟨h1, h2⟩
        rcases List.mem_cons.1 h2 with rfl | h2
        · exact absurd hb h1
        · exact ⟨h1, h2⟩
    · rw [if_neg hb, List.map_cons, List.mem_cons, ih, List.map_cons, List.mem_cons,
        List.mem_cons]
      by_cases hk : k = key b
      · subst hk
        simp [hb]
      · simp [hk]

/-- Each key is kept once. -/
theorem nodup_map_firstsBy (seen : List String) (l : List α) : ((firstsBy key seen l).map key).Nodup := by
  induction l generalizing seen with
  | nil => exact List.nodup_nil
  | cons b l ih =>
    rw [firstsBy]
    split
    · exact ih seen
    · rw [List.map_cons, List.nodup_cons]
      refine ⟨fun hmem => ?_, ih _⟩
      exact ((mem_map_firstsBy key _ l (key b)).1 hmem).1 List.mem_cons_self

end Firsts

namespace ScopeTree

/-- The scope trees built from a script scope by opening scopes inside
existing ones and declaring symbols in existing scopes. -/
inductive Built : ScopeTree → Prop
  | ofRoot (root : NodeRef) : Built (ofRoot root)
  | push {t : ScopeTree} (h : Built t) {p : Nat} (hp : p < t.scopes.size) (k : ScopeKind)
      (n : NodeRef) : Built (t.push p k n).1
  | define {t : ScopeTree} (h : Built t) {i : Nat} (hi : i < t.scopes.size) (sym : Symbol) :
      Built (t.define i sym).1

theorem Built.wellFormed {t : ScopeTree} (h : t.Built) : t.WellFormed := by
  induction h with
  | ofRoot root => exact wellFormed_ofRoot root
  | push _ hp k n ih => exact ih.push hp k n
  | define _ _ sym ih => exact ih.define _ sym

/-- The table of a scope; a scope past the last has an empty one. -/
def tableOf (t : ScopeTree) (a : ScopeId) : NameTable SymbolId :=
  ((t.scope? a).map (·.symbols)).getD []

/-- The entries of the tables from `s` out to the script scope, innermost
scope first, each table in its own order. -/
def entriesAround (t : ScopeTree) (s : ScopeId) : NameTable SymbolId :=
  (t.ancestors s).flatMap t.tableOf

/-- The folded name of a symbol. -/
def keyOf (t : ScopeTree) (x : SymbolId) : Option String :=
  (t.symbol? x).map fun sym => Text.foldCase sym.name

/-- The entries of a list whose name neither stands in `seen` nor under an
earlier entry. -/
def firstsByKey (seen : List String) : NameTable SymbolId → NameTable SymbolId
  | [] => []
  | e :: es => if e.1 ∈ seen then firstsByKey seen es else e :: firstsByKey (e.1 :: seen) es

/-! ## The first entry of each name -/

section Firsts

theorem firstsByKey_eq_firstsBy (seen : List String) (es : NameTable SymbolId) :
    firstsByKey seen es = firstsBy Prod.fst seen es := by
  induction es generalizing seen with
  | nil => rfl
  | cons e es ih => simp only [firstsByKey, firstsBy, ih]

/-- A fold that keeps an entry when its name is new keeps the first entry
of each name; this is the loop of `visibleSymbols`. -/
theorem foldl_keepFirst
    (f : List String × List SymbolId → String × SymbolId → List String × List SymbolId)
    (hf : ∀ acc e, f acc e = if e.1 ∈ acc.1 then acc else (e.1 :: acc.1, e.2 :: acc.2))
    (es : NameTable SymbolId) (seen : List String) (acc : List SymbolId) :
    (es.foldl f (seen, acc)).2 = ((firstsByKey seen es).map (·.2)).reverse ++ acc := by
  rw [foldl_firstsBy Prod.fst Prod.snd f hf, firstsByKey_eq_firstsBy]

theorem firstsByKey_sublist (seen : List String) (es : NameTable SymbolId) :
    (firstsByKey seen es).Sublist es := by
  rw [firstsByKey_eq_firstsBy]
  exact firstsBy_sublist _ seen es

/-- An entry is kept exactly when its name is new and it is the first entry
under that name. -/
theorem mem_firstsByKey (seen : List String) (es : NameTable SymbolId) (e : String × SymbolId) :
    e ∈ firstsByKey seen es ↔ e.1 ∉ seen ∧ es.find? (·.1 == e.1) = some e := by
  rw [firstsByKey_eq_firstsBy]
  exact mem_firstsBy _ seen es e

/-- The names kept are the names of the list not in `seen`. -/
theorem mem_keys_firstsByKey (seen : List String) (es : NameTable SymbolId) (k : String) :
    k ∈ (firstsByKey seen es).map (·.1) ↔ k ∉ seen ∧ k ∈ es.map (·.1) := by
  rw [firstsByKey_eq_firstsBy]
  exact mem_map_firstsBy _ seen es k

/-- Each name is kept once. -/
theorem nodup_keys_firstsByKey (seen : List String) (es : NameTable SymbolId) :
    ((firstsByKey seen es).map (·.1)).Nodup := by
  rw [firstsByKey_eq_firstsBy]
  exact nodup_map_firstsBy _ seen es

end Firsts

/-! ## Both answers read off the entries around a scope -/

/-- The symbols visible from a scope are the first entry of each name
around it. -/
theorem visibleSymbols_eq (t : ScopeTree) (s : ScopeId) :
    t.visibleSymbols s = (firstsByKey [] (t.entriesAround s)).map (·.2) := by
  rw [visibleSymbols]
  dsimp only
  rw [foldl_keepFirst _ (fun acc e => by simp), List.append_nil, List.reverse_reverse]
  rfl

/-- A name resolves to the symbol of its first entry around the scope. -/
theorem resolve_snd (t : ScopeTree) (s : ScopeId) (name : String) :
    (t.resolve s name).map (·.2) =
      ((t.entriesAround s).find? (·.1 == Text.foldCase name)).map (·.2) := by
  rw [resolve, entriesAround, List.find?_flatMap, List.map_findSome?, List.map_findSome?]
  congr 1
  funext a
  simp only [Function.comp_apply, tableOf, NameTable.get?]
  cases t.scope? a <;> simp [Option.map_map, Function.comp_def]

variable {t : ScopeTree}

/-- In a well-formed tree every entry around a scope is an existing symbol
under its folded name. -/
theorem WellFormed.key_of_mem_entriesAround (h : t.WellFormed) {s : ScopeId}
    {e : String × SymbolId} (he : e ∈ t.entriesAround s) :
    ∃ sym, t.symbol? e.2 = some sym ∧ e.1 = Text.foldCase sym.name := by
  obtain ⟨a, -, hea⟩ := List.mem_flatMap.1 he
  unfold tableOf at hea
  cases ha : t.scope? a with
  | none => simp [ha] at hea
  | some sc =>
    rw [ha] at hea
    exact h.entries a sc ha e hea

theorem WellFormed.keyOf_of_mem_entriesAround (h : t.WellFormed) {s : ScopeId}
    {e : String × SymbolId} (he : e ∈ t.entriesAround s) : t.keyOf e.2 = some e.1 := by
  obtain ⟨sym, hsym, hkey⟩ := h.key_of_mem_entriesAround he
  simp [keyOf, hsym, hkey]

/-- A symbol is visible from a scope exactly when its own name resolves to
it there. -/
theorem WellFormed.mem_visibleSymbols_iff (h : t.WellFormed) (s : ScopeId) (x : SymbolId) :
    x ∈ t.visibleSymbols s ↔
      ∃ sym, ∃ a : ScopeId, t.symbol? x = some sym ∧ t.resolve s sym.name = some (a, x) := by
  rw [visibleSymbols_eq, List.mem_map]
  constructor
  · rintro ⟨e, he, rfl⟩
    have hfind := ((mem_firstsByKey [] _ e).1 he).2
    obtain ⟨sym, hsym, hkey⟩ := h.key_of_mem_entriesAround (List.mem_of_find?_eq_some hfind)
    -- the entry is the first under its name, which is the folded name of its symbol
    have hres := resolve_snd t s sym.name
    rw [← hkey, hfind] at hres
    obtain ⟨⟨a, y⟩, hr, rfl⟩ := Option.map_eq_some_iff.1 hres
    exact ⟨sym, a, hsym, hr⟩
  · rintro ⟨sym, a, hsym, hr⟩
    have hres := resolve_snd t s sym.name
    rw [hr] at hres
    obtain ⟨e, hfind, hex⟩ := Option.map_eq_some_iff.1 hres.symm
    have hkey : e.1 = Text.foldCase sym.name := by simpa using List.find?_some hfind
    refine ⟨e, (mem_firstsByKey [] _ e).2 ⟨List.not_mem_nil, ?_⟩, hex⟩
    rw [hkey]
    exact hfind

/-- The folded names of the visible symbols are the names of the entries
around the scope, each once. -/
theorem WellFormed.keys_visibleSymbols (h : t.WellFormed) (s : ScopeId) :
    (t.visibleSymbols s).map t.keyOf = ((firstsByKey [] (t.entriesAround s)).map (·.1)).map some := by
  rw [visibleSymbols_eq, List.map_map, List.map_map]
  refine List.map_congr_left fun e he => ?_
  exact h.keyOf_of_mem_entriesAround ((firstsByKey_sublist [] _).subset he)

/-- **Visible symbols agree with resolution.** In a scope tree built by
opening scopes inside existing ones and declaring symbols in existing
scopes, the symbols visible from any scope `s` carry each folded name
declared in `s` or around it exactly once and no other name; a symbol is
visible exactly when its name resolves to it from `s`; and they come
innermost scope first, each scope's in the order its table keeps. -/
theorem visibleSymbols_agree_resolve {t : ScopeTree} (h : t.Built) (s : ScopeId) :
    (∀ k : String, ((t.visibleSymbols s).map t.keyOf).count (some k) =
      if k ∈ (t.entriesAround s).map (·.1) then 1 else 0) ∧
    (∀ x : SymbolId, x ∈ t.visibleSymbols s ↔
      ∃ sym, ∃ a : ScopeId, t.symbol? x = some sym ∧ t.resolve s sym.name = some (a, x)) ∧
    (t.visibleSymbols s).Sublist ((t.ancestors s).flatMap fun a => (t.tableOf a).values) := by
  have hwf := h.wellFormed
  refine ⟨fun k => ?_, hwf.mem_visibleSymbols_iff s, ?_⟩
  · -- each name of the entries is kept once
    rw [hwf.keys_visibleSymbols, List.count_map_of_injective _ _ (Option.some_injective _)]
    have hnodup := nodup_keys_firstsByKey [] (t.entriesAround s)
    split
    · rename_i hk
      exact List.count_eq_one_of_mem hnodup
        ((mem_keys_firstsByKey [] _ k).2 ⟨List.not_mem_nil, hk⟩)
    · rename_i hk
      exact List.count_eq_zero_of_not_mem fun hmem => hk ((mem_keys_firstsByKey [] _ k).1 hmem).2
  · -- the kept entries are a sublist of the entries, read in the same order
    rw [visibleSymbols_eq]
    have hvalues : ((t.ancestors s).flatMap fun a => (t.tableOf a).values) =
        (t.entriesAround s).map (·.2) := by
      simp [entriesAround, List.map_flatMap, NameTable.values]
    rw [hvalues]
    exact (firstsByKey_sublist [] _).map _

/-- A script scope declaring `x` and `y`, with a block inside it that
declares `X` again: the block's `X` shadows the script's `x`. -/
def shadowedSample : ScopeTree :=
  let root : NodeRef := ⟨.script, ⟨0, 6⟩⟩
  let decl (name : String) : Symbol := ⟨name, .integer, root, ⟨0, 0⟩⟩
  let t := ((ofRoot root).define 0 (decl "x")).1
  let t := (t.define 0 (decl "y")).1
  let t := (t.push 0 .block root).1
  (t.define 1 (decl "X")).1

theorem visibleSymbols_agree_resolve_shadowed :
    shadowedSample.Built ∧
    (∀ k : String, ((shadowedSample.visibleSymbols 1).map shadowedSample.keyOf).count (some k) =
      if k ∈ (shadowedSample.entriesAround 1).map (·.1) then 1 else 0) ∧
    (∀ x : SymbolId, x ∈ shadowedSample.visibleSymbols 1 ↔
      ∃ sym, ∃ a : ScopeId, shadowedSample.symbol? x = some sym ∧
        shadowedSample.resolve 1 sym.name = some (a, x)) ∧
    (shadowedSample.visibleSymbols 1).Sublist
      ((shadowedSample.ancestors 1).flatMap fun a => (shadowedSample.tableOf a).values) := by
  have built : shadowedSample.Built :=
    .define (.push (.define (.define (.ofRoot _) (by decide) _) (by decide) _) (by decide) _ _)
      (by decide) _
  exact ⟨built, visibleSymbols_agree_resolve built 1⟩

end ScopeTree

end GameScript
