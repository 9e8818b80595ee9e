import Mathlib
import GameScript.Proofs.Session
import GameScript.Proofs.NameNodes
import GameScript.Proofs.ScopeNodes
import GameScript.Proofs.TokenShapes
import GameScript.Editor.Definition
/-!
# Find references is exact

`Editor.findReferences` does not look at every identifier of a file: for a
local symbol it searches only the node that opens the symbol's scope, and it
keeps only identifiers of the symbol's folded name. Neither cut loses a
reference (`findReferences_exact`): in every database an editing session
reaches, the references to a definition are exactly the identifiers of the
file whose definition is the same, in order and each once.

A use resolves from the scope of the nearest scope node around it to a scope
around that one, and lowering opens every scope inside the node of its parent
(`GameScript.Proofs.ScopeNodes`), so the node of the symbol's scope holds the
use. A name node wraps exactly the identifier it names
(`GameScript.Proofs.NameNodes`), so the name that resolves is the token's text,
and a table holds each symbol under its folded name. A global name is held
under its folded name too: that is the half of the database's invariant
(`Database.Indexed`) that is not already in `Database.Coherent`, beside the
other half, that each file's token index is the index of its tree.
-/

set_option autoImplicit false

namespace GameScript

/-! ## The tokens of a parsed script -/

/-- The leaves of a parsed script are the tokens of its text, the end of
input left out. -/
theorem parseScript_leaves (source : String) (isFunction : String → Bool) :
    (parseScript source isFunction).root.leaves = (lex source).dropLast := by
  obtain ⟨cs, hcs⟩ := Grammar.script_root _ { rest := Lexeme.ofTokens (lex source) isFunction }
  -- the attached leaves and the end of input make up the tokens of the text
  have hcat := attach_leaves .script cs source
  calc (parseScript source isFunction).root.leaves
      = ((BareTree.node .script cs).attach (lex source)).leaves := by rw [parseScript_eq, hcs]
    _ = (((BareTree.node .script cs).attach (lex source)).leaves ++
          [(⟨.eof, source.utf8ByteSize, ""⟩ : Token)]).dropLast := by rw [List.dropLast_concat]
    _ = (lex source).dropLast := by rw [hcat]

theorem Token.start_lt_stop {t : Token} (h : t.text ≠ "") : t.start < t.stop := by
  have hpos : t.text.utf8ByteSize ≠ 0 := fun h0 => h (String.utf8ByteSize_eq_zero_iff.1 h0)
  unfold Token.stop
  omega

/-- The tokens of a parsed script follow one another and none is empty. -/
theorem parseScript_locatedTokens_spans (source : String) (isFunction : String → Bool) :
    ((parseScript source isFunction).root.locatedTokens.map fun p => (⟨p.1.start, p.1.stop⟩ : Span)).Pairwise
        (fun a b => a.stop ≤ b.start) ∧
      ∀ p ∈ (parseScript source isFunction).root.locatedTokens, p.1.start < p.1.stop := by
  have hleaves := parseScript_leaves source isFunction
  rw [← SyntaxTree.locatedTokens_map_fst] at hleaves
  -- the located tokens are the tokens of the text, which tile it
  have htiles := tiles_lex source
  rw [← hleaves] at htiles
  refine ⟨?_, fun p hp => Token.start_lt_stop ?_⟩
  · rw [List.pairwise_map]
    exact List.pairwise_map.1 htiles.pairwise
  · have hmem : p.1 ∈ (lex source).dropLast := hleaves ▸ List.mem_map_of_mem hp
    exact (Lexer.lexFrom_shaped source.toList 0 p.1 hmem).1


/-- A `filterMap` that keeps an element exactly when a condition holds is the
map of the filter by that condition. -/
theorem filterMap_eq_map_filter {α β : Type} {l : List α} {f : α → Option β} {q : α → Bool}
    {g : α → β} (h : ∀ a ∈ l, f a = if q a then some (g a) else none) :
    l.filterMap f = (l.filter q).map g := by
  induction l with
  | nil => rfl
  | cons a l ih =>
    rw [List.filterMap_cons, h a List.mem_cons_self, List.filter_cons]
    have ih' := ih fun b hb => h b (List.mem_cons_of_mem a hb)
    cases q a <;> simp [ih']

/-! ## Scope lookups -/

namespace ScopeTree

/-- The scope a node is looked up to was opened at that node. -/
theorem scope?_of_scopeOf? {t : ScopeTree} {node : NodeRef} {j : Nat} (h : t.scopeOf? node = some j) :
    ∃ s, t.scope? j = some s ∧ s.node = node := by
  unfold scopeOf? at h
  obtain ⟨hj, hnode, -⟩ := List.findIdx?_eq_some_iff_getElem.1 h
  refine ⟨t.scopes.toList[j], ?_, by simpa using hnode⟩
  simp [scope?, Array.getElem?_eq_getElem (by simpa using hj)]

/-- An existing scope is the first of its own ancestors. -/
theorem mem_ancestors_self {t : ScopeTree} {j : Nat} {s : Scope} (h : t.scope? j = some s) :
    j ∈ t.ancestors j := by
  obtain ⟨n, hn⟩ : ∃ n, t.scopes.size = n + 1 := ⟨t.scopes.size - 1, by have := lt_of_scope? h; omega⟩
  unfold ancestors
  rw [hn, ancestors.go, h]
  dsimp only
  split <;> simp

/-- A name resolves to the symbol that the table of one of the scopes around
holds under it. -/
theorem resolve_eq_some {t : ScopeTree} {j : ScopeId} {name : String} {i v : Nat}
    (h : t.resolve j name = some (i, v)) :
    i ∈ t.ancestors j ∧ ∃ si, t.scope? i = some si ∧ si.symbols.get? name = some v := by
  obtain ⟨i', hi', hget⟩ := List.exists_of_findSome?_eq_some h
  obtain ⟨s, hs, hv⟩ := Option.bind_eq_some_iff.1 hget
  obtain ⟨v', hv', he⟩ := Option.map_eq_some_iff.1 hv
  cases he
  exact ⟨hi', s, hs, hv'⟩

/-- In a well-formed tree a table holds an existing symbol under a name, and
the symbol's name folds as that name does. -/
theorem WellFormed.symbol?_of_get? {t : ScopeTree} (h : t.WellFormed) {i : Nat} {s : Scope}
    (hs : t.scope? i = some s) {name : String} {v : Nat} (hv : s.symbols.get? name = some v) :
    ∃ sym, t.symbol? v = some sym ∧ Text.foldCase sym.name = Text.foldCase name := by
  unfold NameTable.get? at hv
  obtain ⟨e, he, rfl⟩ := Option.map_eq_some_iff.1 hv
  have hkey : e.1 = Text.foldCase name := by simpa using List.find?_some he
  obtain ⟨sym, hsym, hfold⟩ := h.entries i s hs e (List.mem_of_find?_eq_some he)
  exact ⟨sym, hsym, hfold.symm.trans hkey⟩

end ScopeTree

/-! ## Global names under their folded names -/

/-- Retracting a file from an entry keeps its name. -/
theorem GlobalEntry.name_of_retract {file : FileId} {e e' : GlobalEntry}
    (h : e.retract file = some e') : e'.name = e.name := by
  unfold GlobalEntry.retract at h
  dsimp only at h
  split at h
  · cases h; rfl
  · cases h; rfl
  · split at h
    · cases h; rfl
    · cases h
  · split at h
    · split at h
      · cases h; rfl
      · cases h
    · cases h; rfl

namespace GlobalTable

/-- Every entry's name folds to the name it is held under. -/
def NamesFold (G : GlobalTable) : Prop := ∀ p ∈ G, Text.foldCase p.2.name = p.1

namespace NamesFold

variable {G : GlobalTable}

/-- The entry found under a name has a name of the same folding. -/
theorem get? (h : G.NamesFold) {n : String} {e : GlobalEntry} (he : G.get? n = some e) :
    Text.foldCase e.name = Text.foldCase n := by
  unfold NameTable.get? at he
  obtain ⟨q, hq, rfl⟩ := Option.map_eq_some_iff.1 he
  have hkey : q.1 = Text.foldCase n := by simpa using List.find?_some hq
  rw [h q (List.mem_of_find?_eq_some hq), hkey]

theorem insert (h : G.NamesFold) {name : String} {v : GlobalEntry}
    (hv : Text.foldCase v.name = Text.foldCase name) : NamesFold (G.insert name v) := by
  intro p hp
  rcases NameTable.mem_insert hp with hp | rfl
  · exact h p hp
  · exact hv

theorem foldl_insert {γ : Type} (key : γ → String) (val : γ → GlobalEntry)
    (hkv : ∀ x, Text.foldCase (val x).name = Text.foldCase (key x)) :
    ∀ (xs : List γ) {G : GlobalTable}, G.NamesFold →
      NamesFold (xs.foldl (fun t x => t.insert (key x) (val x)) G)
  | [], _, h => h
  | x :: xs, _, h => foldl_insert key val hkv xs (h.insert (hkv x))

theorem defineScript (h : G.NamesFold) (name : String) (file : FileId) :
    (G.defineScript name file).1.NamesFold := by
  unfold GlobalTable.defineScript
  split
  · split
    · exact h.insert rfl
    · exact h
    · exact h
  · exact h.insert rfl

theorem addReference (h : G.NamesFold) (name : String) (file : FileId) :
    (G.addReference name file).NamesFold := by
  unfold GlobalTable.addReference
  split
  next e he =>
    have hname := h.get? he
    exact h.insert hname
  · exact h.insert rfl

theorem retractFile (h : G.NamesFold) (file : FileId) : (G.retractFile file).NamesFold := by
  rw [retractFile_eq]
  intro p hp
  obtain ⟨q, hq, hqp⟩ := List.mem_filterMap.1 hp
  obtain ⟨e', he', rfl⟩ := Option.map_eq_some_iff.1 hqp
  rw [GlobalEntry.name_of_retract he']
  exact h q hq

theorem foldl_addReference (file : FileId) :
    ∀ (names : List String) {G : GlobalTable}, G.NamesFold →
      NamesFold (names.foldl (fun g n => g.addReference n file) G)
  | [], _, h => h
  | n :: names, _, h => foldl_addReference file names (h.addReference n file)

end NamesFold

theorem namesFold_ofCatalog (c : Catalog) : (ofCatalog c).NamesFold := by
  unfold ofCatalog
  refine NamesFold.foldl_insert _ _ (fun _ => ?_) _ (NamesFold.foldl_insert _ _ (fun _ => ?_) _ ?_)
  · rfl
  · rfl
  · intro p hp
    cases hp

end GlobalTable

/-! ## What the editor's lookups rely on -/

namespace Database

/-- Each open file's token index is the index of its tree, and each global
entry is held under its folded name. -/
structure Indexed (db : Database) : Prop where
  index : ∀ p ∈ db.files, p.2.index = TokenIndex.ofTree p.2.parse.root
  names : db.globals.NamesFold

namespace Indexed

variable {db : Database} (h : db.Indexed)
include h

theorem registerScript (name : String) (g : FileId) : (db.registerScript name g).Indexed := by
  refine ⟨by rw [(registerScript_frame db name g).1]; exact h.index, ?_⟩
  rw [registerScript_globals]
  split
  · exact h.names.defineScript name g
  · exact h.names

theorem unregister (f : FileId) (handOver : Bool) : (db.unregister f handOver).Indexed := by
  -- withdrawing retracts the file from the global names, then may hand its name over
  have hr : ({ db with globals := db.globals.retractFile f } : Database).Indexed :=
    ⟨h.index, h.names.retractFile f⟩
  unfold Database.unregister
  dsimp only
  split
  · exact hr
  split_ifs
  · exact hr
  · exact ⟨hr.index, hr.names⟩
  split
  · split
    · refine Indexed.registerScript ?_ _ _
      exact ⟨hr.index, hr.names⟩
    · exact ⟨hr.index, hr.names⟩
  · exact ⟨hr.index, hr.names⟩

theorem load (f : FileId) (key : SourceKey) (text : String) : (db.load f key text).Indexed := by
  unfold Database.load
  dsimp only
  -- the file is put in place with the index of its tree; the registrations
  -- before keep the index whichever script the text declares
  refine ⟨fun p hp => ?_, ?_⟩
  · rcases (mem_putFile _ _ _ p).1 hp with ⟨hp, -⟩ | rfl
    · split at hp
      · exact ((h.unregister f _).registerScript _ _).index p hp
      · exact (h.unregister f _).index p hp
    · rfl
  · split
    · exact ((h.unregister f _).registerScript _ _).names.foldl_addReference _ _
    · exact (h.unregister f _).names.foldl_addReference _ _

theorem openFile (key : SourceKey) (text : String) : (db.openFile key text).1.Indexed := by
  unfold Database.openFile
  refine Indexed.load ?_ _ _ _
  exact ⟨h.index, h.names⟩

theorem change (f : FileId) (text : String) : (db.change f text).1.Indexed := by
  unfold Database.change
  split
  · exact h.load _ _ _
  · exact h

theorem close (f : FileId) : (db.close f).1.Indexed := by
  unfold Database.close
  split
  · have hu := h.unregister f true
    exact ⟨fun p hp => hu.index p (List.mem_filter.1 hp).1, hu.names⟩
  · exact h

theorem apply : ∀ op, (db.apply op).Indexed
  | .openFile key text => h.openFile key text
  | .change file text => h.change file text
  | .close file => h.close file

end Indexed

/-- Every session from an empty database keeps it indexed. -/
theorem indexed_run (c : Catalog) (ops : List Op) : ((ofCatalog c).run ops).Indexed := by
  unfold run
  -- carried one operation at a time, from the empty database
  suffices h : ∀ db : Database, db.Indexed → (ops.foldl apply db).Indexed from
    h _ ⟨fun _ hp => absurd hp List.not_mem_nil, GlobalTable.namesFold_ofCatalog c⟩
  induction ops with
  | nil => exact fun _ h => h
  | cons op ops ih => exact fun db h => ih _ (h.apply op)

end Database

/-! ## What a token refers to -/

namespace Definition

theorem isSame_localSymbol {d : Definition} {g : FileId} {i : ScopeId} {v : SymbolId} :
    d.isSame (.localSymbol g i v) = true ↔ d = .localSymbol g i v := by
  cases d <;> simp [isSame]

theorem isSame_globalName {d : Definition} {e : GlobalEntry} :
    d.isSame (.globalName e) = true ↔
      ∃ a, d = .globalName a ∧ Text.foldCase a.name = Text.foldCase e.name := by
  cases d <;> simp [isSame]

end Definition

/-- The nearest scope node around an element is one of its ancestors. -/
theorem Located.mem_of_scopeNode? {l S : Located} (h : l.scopeNode? = some S) :
    S.elem ∈ l.ancestors := by
  unfold Located.scopeNode? at h
  generalize l.ancestors = ns at h
  induction ns with
  | nil => simp [Located.scopeNode?.go] at h
  | cons n ns ih =>
    unfold Located.scopeNode?.go at h
    split_ifs at h
    · exact List.mem_cons_of_mem n (ih h)
    · exact List.mem_cons_of_mem n (ih h)
    · cases h
      exact List.mem_cons_self

/-- A name resolved from the scope opened at a node around a token, to a
scope around that one: the node of that scope is found in the tree and holds
the token, and the scope's table holds an existing symbol of the same folded
name. -/
theorem ScopeTree.OpenedIn.lookup {root : SyntaxTree} {t : ScopeTree} (hO : t.OpenedIn root)
    (hW : t.WellFormed) (hR : root.Placed) {tok : Token} {S : SyntaxTree}
    (htS : (SyntaxTree.token tok).Within S) (hSr : S.Within root) (hne : tok.start < tok.stop)
    {j i v : Nat} {si : Scope} {name : String} (hj : t.scopeOf? S.ref = some j)
    (hi : i ∈ t.ancestors j) (hsi : t.scope? i = some si) (hv : si.symbols.get? name = some v) :
    ∃ x sym, root.find? si.node = some x ∧ x.span.Covers ⟨tok.start, tok.stop⟩ ∧
      t.symbol? v = some sym ∧ Text.foldCase sym.name = Text.foldCase name := by
  obtain ⟨sj, hsj, hjn⟩ := ScopeTree.scope?_of_scopeOf? hj
  obtain ⟨si', hsi', hcov⟩ := hO.covers_of_mem_ancestors hsj hi
  obtain rfl : si = si' := Option.some.inj (hsi.symm.trans hsi')
  -- the scope node holds the token, and the node of scope `i` holds the scope node
  have hSt : S.span.Covers ⟨tok.start, tok.stop⟩ := by
    obtain ⟨-, h₁, h₂⟩ := (hR.within hSr).1.within htS
    exact ⟨h₁, h₂⟩
  have hsjS : sj.node.span = S.span := by rw [hjn]; rfl
  obtain ⟨n, hnw, hnk, hnref⟩ := hO.node i si hsi
  have hn : n.span.Covers ⟨tok.start, tok.stop⟩ := by
    have hns : n.span = si.node.span := by rw [← hnref]; rfl
    rw [hns]
    exact hcov.trans (hsjS ▸ hSt)
  obtain ⟨k, hk⟩ := Option.isSome_iff_exists.1 hnk
  obtain ⟨x, hx, hxs⟩ :=
    SyntaxTree.find?_of_within hR hnw hk (lt_of_le_of_lt hn.1 (lt_of_lt_of_le hne hn.2))
  obtain ⟨sym, hsym, hname⟩ := hW.symbol?_of_get? hsi hv
  refine ⟨x, sym, ?_, hxs ▸ hn, hsym, hname⟩
  have hnode : si.node = ⟨k, n.span⟩ := by rw [← hnref, SyntaxTree.ref, hk]; rfl
  rw [hnode]
  exact hx

namespace Editor

variable {db : Database} {file : FileId}

/-- A name at a node with ancestors `up` is the symbol `v` of scope `i`: a
scope node among the ancestors opens scope `j`, and scope `i`, around `j`,
holds the name as `v`. -/
def ResolvesLocally (db : Database) (file : FileId) (up : List SyntaxTree) (name : String)
    (d : Definition) : Prop :=
  ∃ S ∈ up, ∃ (s : Resolved.Script) (j i : ScopeId) (si : Scope) (v : SymbolId),
    scopeOf? db file S = some (s, j) ∧ i ∈ s.scopes.ancestors j ∧ s.scopes.scope? i = some si ∧
      si.symbols.get? name = some v ∧ d = .localSymbol file i v

theorem scopeOf?_eq_some {S : SyntaxTree} {s : Resolved.Script} {j : ScopeId}
    (h : scopeOf? db file S = some (s, j)) :
    ∃ f, db.file? file = some f ∧ f.script = some s ∧ s.scopes.scopeOf? S.ref = some j := by
  simp only [scopeOf?, Option.bind_eq_bind, Option.bind_eq_some_iff] at h
  obtain ⟨f, hf, s', hs', j', hj', he⟩ := h
  cases he
  exact ⟨f, hf, hs', hj'⟩

theorem globalDefinition?_eq_some {name : String} {d : Definition}
    (h : globalDefinition? db name = some d) : ∃ e, db.globals.get? name = some e ∧ d = .globalName e := by
  obtain ⟨e, he, rfl⟩ := Option.map_eq_some_iff.1 h
  exact ⟨e, he, rfl⟩

/-- A use refers to the global entry held under its name, or to a symbol
resolved from the scope node around it. -/
theorem findDefinition?_eq_some {P : SyntaxTree} {up : List SyntaxTree} {d : Definition}
    (h : findDefinition? db file ⟨P, up⟩ = some d) :
    (∃ e, db.globals.get? P.identText = some e ∧ d = .globalName e) ∨
      ResolvesLocally db file up P.identText d := by
  unfold findDefinition? at h
  dsimp only at h
  split_ifs at h
  · exact .inl (globalDefinition?_eq_some h)
  split at h
  next i v hfound =>
    cases h
    simp only [Option.bind_eq_bind, Option.bind_eq_some_iff] at hfound
    obtain ⟨⟨S, up'⟩, hS, ⟨s, j⟩, hsj, hr⟩ := hfound
    obtain ⟨hi, si, hsi, hv⟩ := ScopeTree.resolve_eq_some hr
    exact .inr ⟨S, Located.mem_of_scopeNode? hS, s, j, i, si, v, hsj, hi, hsi, hv, rfl⟩
  · exact .inl (globalDefinition?_eq_some h)

/-- A declared name refers to the symbol the scope around its declaration
holds under it, or, for a script's own name, to its global entry. -/
theorem definitionOfName?_eq_some {P : SyntaxTree} {up : List SyntaxTree} {d : Definition}
    (h : definitionOfName? db file ⟨P, up⟩ = some d) :
    (∃ e, db.globals.get? P.identText = some e ∧ d = .globalName e) ∨
      ResolvesLocally db file up P.identText d := by
  unfold definitionOfName? at h
  dsimp only at h
  split at h
  next Q up' =>
    split at h
    · simp only [Option.bind_eq_bind, Option.bind_eq_some_iff] at h
      obtain ⟨⟨S, up''⟩, hS, ⟨s, j⟩, hsj, sc, hsc, v, hv, he⟩ := h
      cases he
      exact .inr ⟨S, List.mem_cons_of_mem Q (Located.mem_of_scopeNode? hS), s, j, j, sc, v, hsj,
        ScopeTree.mem_ancestors_self hsc, hsc, hv, rfl⟩
    · split at h
      · exact .inl (globalDefinition?_eq_some h)
      · cases h
  · cases h

/-- An identifier refers to something only as the name of a name node: a
global entry held under the name, or a symbol resolved from a scope node
around it. -/
theorem definitionOfToken?_eq_some {t : Token} {up : List SyntaxTree} {d : Definition}
    (h : definitionOfToken? db file (t, up) = some d) :
    ∃ P up', up = P :: up' ∧ (P.isNode .name = true ∨ P.isNode .nameRef = true) ∧
      ((∃ e, db.globals.get? P.identText = some e ∧ d = .globalName e) ∨
        ResolvesLocally db file up' P.identText d) := by
  unfold definitionOfToken? at h
  split at h
  next P up' hup =>
    split at h
    · exact ⟨P, up', hup, .inr ‹_›, findDefinition?_eq_some h⟩
    · split at h
      · exact ⟨P, up', hup, .inl ‹_›, definitionOfName?_eq_some h⟩
      · cases h
  · cases h

/-- The search's test on a token is the test of a reference once every
reference passes the test on its range and name. -/
theorem reference_test {area : Span} {key : String} {t : Token} {o : Option Definition}
    {d : Definition}
    (h : t.kind = .ident → ∀ d', o = some d' → d'.isSame d = true →
      area.start ≤ t.start ∧ t.stop ≤ area.stop ∧ t.start < t.stop ∧ Text.foldCase t.text = key) :
    (decide (area.start ≤ t.start) && decide (t.stop ≤ area.stop) && decide (t.start < t.stop) &&
        t.kind == .ident && Text.foldCase t.text == key && (o.map (·.isSame d)).getD false) =
      (t.kind == .ident && o.any (·.isSame d)) := by
  cases o with
  | none => simp
  | some d' =>
    by_cases hk : t.kind = .ident
    · by_cases hs : d'.isSame d = true
      · obtain ⟨h₁, h₂, h₃, h₄⟩ := h hk d' rfl hs
        simp [h₁, h₂, h₃, h₄, hk, hs]
      · simp [hs]
    · have hk' : (t.kind == .ident) = false := by simpa using hk
      simp [hk']

/-! ## The tokens of an open file -/

section Open

variable {c : Catalog} {f : SourceFile} (hc : Database.Coherent c db) (hf : db.file? file = some f)
include hc hf

theorem parsed_of_file? :
    f.parse = parseScript f.text c.isFunction ∧ f.script = (Resolved.lower f.parse.root).map (·.script) :=
  hc.parsed (file, f) ((Database.file?_eq_some_iff hc.sorted file f).1 hf)

theorem placed_of_file? : f.parse.root.Placed := by
  rw [(parsed_of_file? hc hf).1]
  exact parseScript_placed _ _

theorem start_lt_stop_of_mem {t : Token} {up : List SyntaxTree}
    (hmem : (t, up) ∈ f.parse.root.locatedTokens) : t.start < t.stop := by
  rw [(parsed_of_file? hc hf).1] at hmem
  exact (parseScript_locatedTokens_spans _ _).2 _ hmem

/-- The name node around an identifier is named by the identifier's text. -/
theorem identText_of_mem {t : Token} {P : SyntaxTree} {up : List SyntaxTree}
    (hmem : (t, P :: up) ∈ f.parse.root.locatedTokens)
    (hk : P.isNode .name = true ∨ P.isNode .nameRef = true) (ht : t.kind = .ident) :
    P.identText = t.text := by
  obtain ⟨hP, htP⟩ := (SyntaxTree.path_of_mem_locatedTokens hmem).tail
  have hw := hP.within_root
  rw [(parsed_of_file? hc hf).1] at hw
  exact parseScript_identText _ _ hw hk htP ht

/-- An identifier that refers to a global entry names it, up to case. -/
theorem global_of_definitionOfToken? (hI : db.Indexed) {t : Token} {up : List SyntaxTree}
    {e : GlobalEntry} (hmem : (t, up) ∈ f.parse.root.locatedTokens) (ht : t.kind = .ident)
    (h : definitionOfToken? db file (t, up) = some (.globalName e)) :
    Text.foldCase e.name = Text.foldCase t.text := by
  obtain ⟨P, up', rfl, hk, ⟨e', he', hd⟩ | ⟨_, _, _, _, _, _, _, _, _, _, _, hd⟩⟩ :=
    definitionOfToken?_eq_some h
  · cases hd
    rw [hI.names.get? he', identText_of_mem hc hf hmem hk ht]
  · cases hd

/-- An identifier that refers to a symbol refers to one of its own file's
script, declared in a scope whose node is found in the tree and holds the
identifier, under the identifier's name up to case. -/
theorem local_of_definitionOfToken? {t : Token} {up : List SyntaxTree} {g : FileId}
    {i : ScopeId} {v : SymbolId} (hmem : (t, up) ∈ f.parse.root.locatedTokens)
    (ht : t.kind = .ident) (h : definitionOfToken? db file (t, up) = some (.localSymbol g i v)) :
    g = file ∧ ∃ s si x sym, f.script = some s ∧ s.scopes.scope? i = some si ∧
      f.parse.root.find? si.node = some x ∧ x.span.Covers ⟨t.start, t.stop⟩ ∧
      s.scopes.symbol? v = some sym ∧ Text.foldCase sym.name = Text.foldCase t.text := by
  obtain ⟨P, up', rfl, hk, ⟨e, -, hd⟩ | ⟨S, hS, s, j, i', si, v', hsj, hi, hsi, hv, hd⟩⟩ :=
    definitionOfToken?_eq_some h
  · cases hd
  cases hd
  refine ⟨rfl, ?_⟩
  obtain ⟨f', hf', hs, hj⟩ := scopeOf?_eq_some hsj
  obtain rfl : f = f' := Option.some.inj (hf.symm.trans hf')
  -- the script is the lowered tree: its scopes are opened in the tree and well formed
  obtain ⟨out, hout, rfl⟩ : ∃ out, Resolved.lower f.parse.root = some out ∧ out.script = s := by
    rw [(parsed_of_file? hc hf).2] at hs
    exact Option.map_eq_some_iff.1 hs
  have hR := placed_of_file? hc hf
  obtain ⟨htS, hSr⟩ := (SyntaxTree.path_of_mem_locatedTokens hmem).within_ancestor S
    (List.mem_cons_of_mem P hS)
  obtain ⟨x, sym, hx, hcov, hsym, hname⟩ :=
    (Resolved.lower_openedIn hR hout).lookup (Resolved.lower_wellFormed hout) hR htS hSr
      (start_lt_stop_of_mem hc hf hmem) hj hi hsi hv
  exact ⟨out.script, si, x, sym, hs, hsi, hx, hcov, hsym,
    hname.trans (congrArg _ (identText_of_mem hc hf hmem hk ht))⟩

theorem findReferences_eq (hI : db.Indexed) (d : Definition) :
    findReferences db file d = (f.parse.root.locatedTokens.filter fun p =>
      p.1.kind == .ident && (definitionOfToken? db file p).any (·.isSame d)).map
        fun p => (⟨p.1.start, p.1.stop⟩ : Span) := by
  have hidx : f.index.tokens.toList = f.parse.root.locatedTokens := by
    rw [hI.index (file, f) ((Database.file?_eq_some_iff hc.sorted file f).1 hf)]
    simp [TokenIndex.ofTree]
  unfold findReferences
  rw [hf]
  dsimp only
  rw [hidx]
  cases d with
  | globalName e =>
    dsimp only
    refine filterMap_eq_map_filter fun ⟨t, up⟩ hp => ?_
    dsimp only
    rw [reference_test fun hk d' hd hs => ?_]
    obtain ⟨a, rfl, hae⟩ := Definition.isSame_globalName.1 hs
    obtain ⟨-, h₁, h₂⟩ := (placed_of_file? hc hf).within
      (SyntaxTree.path_of_mem_locatedTokens hp).within_root
    exact ⟨h₁, h₂, start_lt_stop_of_mem hc hf hp,
      (global_of_definitionOfToken? hc hf hI hp hk hd).symm.trans hae⟩
  | localSymbol g i v =>
    dsimp only
    split
    next hnone =>
      -- a reference would make every lookup of the search succeed
      refine (List.map_eq_nil_iff.2 (List.filter_eq_nil_iff.2 fun ⟨t, up⟩ hp hq => ?_)).symm
      simp only [Bool.and_eq_true, beq_iff_eq, Option.any_eq_true] at hq
      obtain ⟨hk, d', hd, hs⟩ := hq
      rw [Definition.isSame_localSymbol] at hs
      subst hs
      obtain ⟨rfl, s, si, x, sym, hs, hsi, hx, -, hsym, -⟩ :=
        local_of_definitionOfToken? hc hf hp hk hd
      simp [hs, hsi, hx, hsym] at hnone
    next area name hsome =>
      -- the search is the node of the symbol's scope and the symbol's name
      refine filterMap_eq_map_filter fun ⟨t, up⟩ hp => ?_
      dsimp only
      rw [reference_test fun hk d' hd hs => ?_]
      rw [Definition.isSame_localSymbol] at hs
      subst hs
      obtain ⟨rfl, s, si, x, sym, hs, hsi, hx, hcov, hsym, hname⟩ :=
        local_of_definitionOfToken? hc hf hp hk hd
      simp [hs, hsi, hx, hsym] at hsome
      obtain ⟨rfl, rfl⟩ := hsome
      exact ⟨hcov.1, hcov.2, start_lt_stop_of_mem hc hf hp, hname.symm⟩

end Open

/-- Find references is exact. In every database an editing session reaches,
the references the editor finds to a definition in a file are exactly the
ranges of the file's identifiers that refer to the same definition (a global
name in any casing, or the same symbol), in document order and each once; a
file that is not open has none. -/
theorem findReferences_exact (c : Catalog) (ops : List Database.Op) (file : FileId)
    (d : Definition) :
    let db := (Database.ofCatalog c).run ops
    findReferences db file d = ((db.file? file).map fun f =>
        (f.parse.root.locatedTokens.filter fun p =>
          p.1.kind == .ident && (definitionOfToken? db file p).any (·.isSame d)).map
          fun p => (⟨p.1.start, p.1.stop⟩ : Span)).getD [] ∧
      (findReferences db file d).Pairwise (fun a b => a.stop ≤ b.start) ∧
      (∀ r ∈ findReferences db file d, r.start < r.stop) ∧ (findReferences db file d).Nodup := by
  intro db
  have hc := Database.coherent_run c ops
  have hI := Database.indexed_run c ops
  cases hf : db.file? file with
  | none =>
    have hnil : findReferences db file d = [] := by
      unfold findReferences
      rw [hf]
    simp [hnil]
  | some f =>
    have heq := findReferences_eq hc hf hI d
    -- the references are among the tokens of the file, which follow one another
    obtain ⟨hsorted, hne⟩ := parseScript_locatedTokens_spans f.text c.isFunction
    rw [← (parsed_of_file? hc hf).1] at hsorted hne
    have hsub : (findReferences db file d).Sublist
        (f.parse.root.locatedTokens.map fun p => (⟨p.1.start, p.1.stop⟩ : Span)) := by
      rw [heq]
      exact List.filter_sublist.map _
    have hpair := hsorted.sublist hsub
    have hpos : ∀ r ∈ findReferences db file d, r.start < r.stop := by
      intro r hr
      obtain ⟨p, hp, rfl⟩ := List.mem_map.1 (hsub.subset hr)
      exact hne p hp
    refine ⟨heq, hpair, hpos, ?_⟩
    -- a range that followed itself would be empty
    refine hpair.imp_of_mem fun ha _ hab hsame => ?_
    subst hsame
    have := hpos _ ha
    omega

end Editor

end GameScript
