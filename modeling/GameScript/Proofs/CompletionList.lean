import Mathlib
import GameScript.Editor.Completion
import GameScript.Proofs.References
import GameScript.Proofs.Shadowing
/-!
# The completion list

The candidates at a cursor come from five sources in a fixed order
(`Editor.completionSources`): the locals visible from the scope around the
cursor's token, the keywords, the catalog's functions, its forms and the
scripts of the open files; right after `.` or `->`, only the functions. The
list offered (`Editor.completions`) keeps the candidates whose folded label
starts with the folded identifier part before the cursor, keeps the first
candidate of each folded label, and sorts what is left by priority and then by
folded label.

Main statement (`completions_ranked_locals_first`): the list offered has
pairwise distinct folded labels, each starting with the folded prefix; it is
sorted strictly by priority and then by folded label; a folded name is offered
exactly when it starts with the prefix and some source offers it; and the item
offered under it is the first candidate of the sources with that folded name.
So a visible local hides a keyword, function, form or script of the same
folded name, and, in an editing session, the local offered under a name is the
symbol the name resolves to from the cursor's scope: an inner local hides an
outer one. These properties fix the list (`RankedFrom.unique`).

The first of each folded name is taken by the pass that also picks the visible
symbols of a scope (`firstsBy`); the sort keeps the items and only orders
them, and two items with distinct folded labels are never tied.
-/

set_option autoImplicit false

namespace GameScript

namespace Editor

/-! ## What a ranked list is -/

/-- The order of the list offered: by priority, then by folded label, never
tied. -/
def Precedes (a b : CompletionItem) : Prop :=
  a.priority < b.priority ∨ (a.priority = b.priority ∧ Text.foldCase a.label < Text.foldCase b.label)

theorem Precedes.asymm {a b : CompletionItem} (h : Precedes a b) : ¬ Precedes b a := by
  rintro (hba | ⟨hp, hl⟩)
  · rcases h with hab | ⟨hp', _⟩ <;> omega
  · rcases h with hab | ⟨_, hl'⟩
    · omega
    · exact lt_asymm hl hl'

/-- A list ranked from candidates `sources` for the folded prefix `key`. -/
structure RankedFrom (key : String) (sources items : List CompletionItem) : Prop where
  /-- No two items share a folded label. -/
  nodup : (items.map fun i => Text.foldCase i.label).Nodup
  /-- Every folded label starts with the folded prefix. -/
  prefixed : ∀ i ∈ items, key.isPrefixOf (Text.foldCase i.label) = true
  sorted : items.Pairwise Precedes
  /-- A folded name is offered exactly when it starts with the prefix and a
  candidate has it. -/
  offered : ∀ k, k ∈ items.map (fun i => Text.foldCase i.label) ↔
    key.isPrefixOf k = true ∧ k ∈ sources.map fun i => Text.foldCase i.label
  /-- The item offered under a folded name is the first candidate with it. -/
  first : ∀ i ∈ items, sources.find? (fun j => Text.foldCase j.label == Text.foldCase i.label) = some i

theorem RankedFrom.mem_of_mem {key : String} {sources l l' : List CompletionItem}
    (h : RankedFrom key sources l) (h' : RankedFrom key sources l') {i : CompletionItem}
    (hi : i ∈ l) : i ∈ l' := by
  have hk := (h.offered _).1 (List.mem_map_of_mem hi)
  obtain ⟨i', hi', hkey⟩ := List.mem_map.1 ((h'.offered _).2 hk)
  -- both are the first candidate under one folded name
  have hfirst := h'.first i' hi'
  rw [hkey, h.first i hi] at hfirst
  exact Option.some.inj hfirst ▸ hi'

/-- The prefix and the candidates fix the ranked list: at most one list is
ranked from them. -/
theorem RankedFrom.unique {key : String} {sources l₁ l₂ : List CompletionItem}
    (h₁ : RankedFrom key sources l₁) (h₂ : RankedFrom key sources l₂) : l₁ = l₂ := by
  have hperm : l₁.Perm l₂ :=
    (List.perm_ext_iff_of_nodup (h₁.nodup.of_map _) (h₂.nodup.of_map _)).2 fun _ =>
      ⟨h₁.mem_of_mem h₂, h₂.mem_of_mem h₁⟩
  exact hperm.eq_of_pairwise (fun _ _ _ _ hab hba => absurd hba hab.asymm) h₁.sorted h₂.sorted

/-! ## Ranking -/

/-- The order the candidates are sorted in: by priority, then by folded
label. -/
def rankBefore (a b : CompletionItem) : Bool :=
  a.priority < b.priority || (a.priority == b.priority && Text.foldCase a.label ≤ Text.foldCase b.label)

theorem rankBefore_trans (a b c : CompletionItem) (hab : rankBefore a b = true)
    (hbc : rankBefore b c = true) : rankBefore a c = true := by
  simp only [rankBefore, Bool.or_eq_true, Bool.and_eq_true, decide_eq_true_eq, beq_iff_eq] at *
  rcases hab with hab | ⟨hab, hab'⟩ <;> rcases hbc with hbc | ⟨hbc, hbc'⟩
  · exact .inl (hab.trans hbc)
  · exact .inl (hbc ▸ hab)
  · exact .inl (hab ▸ hbc)
  · exact .inr ⟨hab.trans hbc, String.le_trans hab' hbc'⟩

theorem rankBefore_total (a b : CompletionItem) : (rankBefore a b || rankBefore b a) = true := by
  simp only [rankBefore, Bool.or_eq_true, Bool.and_eq_true, decide_eq_true_eq, beq_iff_eq]
  rcases Nat.lt_trichotomy a.priority b.priority with h | h | h
  · exact .inl (.inl h)
  · rcases String.le_total (Text.foldCase a.label) (Text.foldCase b.label) with hl | hl
    · exact .inl (.inr ⟨h, hl⟩)
    · exact .inr (.inr ⟨h.symm, hl⟩)
  · exact .inr (.inl h)

/-- Two candidates with distinct folded labels are never tied. -/
theorem rankBefore_strict {a b : CompletionItem} (h : rankBefore a b = true)
    (hne : Text.foldCase a.label ≠ Text.foldCase b.label) : Precedes a b := by
  simp only [rankBefore, Bool.or_eq_true, Bool.and_eq_true, decide_eq_true_eq, beq_iff_eq] at h
  exact h.imp_right fun ⟨hp, hl⟩ => ⟨hp, lt_of_le_of_ne hl hne⟩

/-- Ranking keeps the prefixed candidates, the first of each folded label, and
sorts them. -/
theorem rankCompletions_eq (key : String) (items : List CompletionItem) :
    rankCompletions key items =
      (firstsBy (fun i => Text.foldCase i.label) []
        (items.filter fun i => key.isPrefixOf (Text.foldCase i.label))).mergeSort rankBefore := by
  rw [rankCompletions]
  dsimp only
  rw [foldl_firstsBy (fun i => Text.foldCase i.label) id _ (fun _ _ => by simp)]
  simp only [List.map_id, List.append_nil, List.reverse_reverse]
  rfl

section Ranked

variable (key : String) (items : List CompletionItem)

theorem mem_rankCompletions {i : CompletionItem} :
    i ∈ rankCompletions key items ↔
      i ∈ firstsBy (fun i => Text.foldCase i.label) []
        (items.filter fun i => key.isPrefixOf (Text.foldCase i.label)) := by
  rw [rankCompletions_eq]
  exact (List.mergeSort_perm _ _).mem_iff

theorem nodup_rankCompletions : ((rankCompletions key items).map fun i => Text.foldCase i.label).Nodup := by
  rw [rankCompletions_eq]
  exact ((List.mergeSort_perm _ _).map _).nodup_iff.2 (nodup_map_firstsBy _ _ _)

theorem rankCompletions_prefixed (i : CompletionItem) (h : i ∈ rankCompletions key items) :
    key.isPrefixOf (Text.foldCase i.label) = true :=
  (List.mem_filter.1 ((firstsBy_sublist _ _ _).subset ((mem_rankCompletions key items).1 h))).2

theorem rankCompletions_sorted : (rankCompletions key items).Pairwise Precedes := by
  have hle := List.pairwise_mergeSort rankBefore_trans rankBefore_total
    (firstsBy (fun i => Text.foldCase i.label) []
      (items.filter fun i => key.isPrefixOf (Text.foldCase i.label)))
  have hne := List.pairwise_map.1 (nodup_rankCompletions key items)
  rw [rankCompletions_eq] at hne ⊢
  exact (hle.and hne).imp fun ⟨h, hn⟩ => rankBefore_strict h hn

theorem mem_map_rankCompletions (k : String) :
    k ∈ (rankCompletions key items).map (fun i => Text.foldCase i.label) ↔
      key.isPrefixOf k = true ∧ k ∈ items.map fun i => Text.foldCase i.label := by
  rw [rankCompletions_eq, ((List.mergeSort_perm _ _).map _).mem_iff, mem_map_firstsBy]
  simp only [List.not_mem_nil, not_false_eq_true, true_and, List.mem_map, List.mem_filter]
  constructor
  · rintro ⟨i, ⟨hi, hk⟩, rfl⟩
    exact ⟨hk, i, hi, rfl⟩
  · rintro ⟨hk, i, hi, rfl⟩
    exact ⟨i, ⟨hi, hk⟩, rfl⟩

/-- The candidate offered under a folded name is the first candidate with
it. -/
theorem find?_of_mem_rankCompletions (i : CompletionItem) (h : i ∈ rankCompletions key items) :
    items.find? (fun j => Text.foldCase j.label == Text.foldCase i.label) = some i := by
  have hi := ((mem_firstsBy _ _ _ i).1 ((mem_rankCompletions key items).1 h)).2
  rw [List.find?_filter] at hi
  rw [← hi]
  -- a candidate with the folded label of `i` passes the prefix filter as `i` does
  refine List.find?_congr fun j _ => ?_
  by_cases hj : Text.foldCase j.label = Text.foldCase i.label
  · simp [hj, rankCompletions_prefixed key items i h]
  · simp [hj]

theorem rankCompletions_rankedFrom : RankedFrom key items (rankCompletions key items) :=
  ⟨nodup_rankCompletions key items, rankCompletions_prefixed key items, rankCompletions_sorted key items,
    mem_map_rankCompletions key items, find?_of_mem_rankCompletions key items⟩

end Ranked

/-! ## The sources -/

theorem kind_of_mem_localItems {db : Database} {file : FileId} {tok : Token × List SyntaxTree}
    {i : CompletionItem} (h : i ∈ localItems db file tok) : i.kind = .variable := by
  unfold localItems at h
  split at h
  · simp at h
  · obtain ⟨x, -, hx⟩ := List.mem_filterMap.1 h
    obtain ⟨sym, -, rfl⟩ := Option.map_eq_some_iff.1 hx
    rfl

/-- The candidates at a cursor are the locals visible from the cursor's token,
then candidates of other kinds only. -/
theorem completionSources_eq_locals_append (db : Database) (file : FileId) (offset : Nat) :
    ∃ locals others, completionSources db file offset = locals ++ others ∧
      (∀ j ∈ others, j.kind ≠ .variable) ∧
      ∀ j ∈ locals, ∃ f tok, db.file? file = some f ∧ (completionSite f.index offset).token = some tok ∧
        j ∈ localItems db file tok := by
  unfold completionSources
  cases hf : db.file? file with
  | none => exact ⟨[], [], rfl, by simp, by simp⟩
  | some f =>
    dsimp only
    cases hm : (completionSite f.index offset).afterMember with
    | true => exact ⟨[], _, (List.nil_append _).symm, by simp, by simp⟩
    | false =>
      simp only [Bool.false_eq_true, if_false, List.append_assoc]
      refine ⟨_, _, rfl, ?_, fun j hj => ?_⟩
      · rintro j hj hk
        simp only [List.mem_append, List.mem_map, List.mem_filter] at hj
        rcases hj with ⟨_, _, rfl⟩ | ⟨_, _, rfl⟩ | ⟨_, _, rfl⟩ | ⟨_, _, rfl⟩ <;> cases hk
      · cases ht : (completionSite f.index offset).token with
        | none => simp [ht] at hj
        | some tok => exact ⟨f, tok, rfl, ht, by simpa [ht] using hj⟩

/-! ## Locals in an editing session -/

section Session

variable {c : Catalog} {db : Database} (hc : Database.Coherent c db)
include hc

/-- Every scope table of an open file was built by lowering its tree. -/
theorem wellFormed_of_scopeOf? {file : FileId} {node : SyntaxTree} {s : Resolved.Script} {scope : ScopeId}
    (h : scopeOf? db file node = some (s, scope)) : s.scopes.WellFormed := by
  simp only [scopeOf?, Option.bind_eq_bind, Option.bind_eq_some_iff, Option.pure_def,
    Option.some.injEq, Prod.mk.injEq] at h
  obtain ⟨f, hf, s', hs, -, -, rfl, -⟩ := h
  rw [(parsed_of_file? hc hf).2] at hs
  obtain ⟨out, hout, rfl⟩ := Option.map_eq_some_iff.1 hs
  exact Resolved.lower_wellFormed hout

/-- A local offered at a token is the symbol its name resolves to from the
scope around the token: an inner local hides an outer one. -/
theorem localItems_resolve {file : FileId} {tok : Token × List SyntaxTree} {i : CompletionItem}
    (h : i ∈ localItems db file tok) :
    ∃ s scope x sym a, ((Located.ofToken tok).scopeNode?.bind fun n => scopeOf? db file n.elem) =
        some (s, scope) ∧ s.scopes.symbol? x = some sym ∧ s.scopes.resolve scope sym.name = some (a, x) ∧
      i = ⟨sym.name, .variable, some sym.type.name⟩ := by
  unfold localItems at h
  split at h
  · simp at h
  · rename_i s scope hscope
    obtain ⟨x, hx, hi⟩ := List.mem_filterMap.1 h
    obtain ⟨sym, hsym, rfl⟩ := Option.map_eq_some_iff.1 hi
    obtain ⟨n, -, hn⟩ := Option.bind_eq_some_iff.1 hscope
    obtain ⟨sym', a, hsym', hres⟩ := ((wellFormed_of_scopeOf? hc hn).mem_visibleSymbols_iff scope x).1 hx
    rw [hsym] at hsym'
    cases hsym'
    exact ⟨s, scope, x, sym, a, hscope, hsym, hres, rfl⟩

end Session

/-! ## The list offered -/

/-- An item offered that is a local, or that shares its folded name with a
local candidate, is a local visible from the cursor's token: locals come
first among the candidates, and the first candidate of each name is kept. -/
theorem mem_localItems_of_mem_completions {db : Database} {file : FileId} {offset : Nat}
    {i : CompletionItem} (hi : i ∈ completions db file offset)
    (hvar : i.kind = .variable ∨ ∃ j ∈ completionSources db file offset,
      j.kind = .variable ∧ Text.foldCase j.label = Text.foldCase i.label) :
    ∃ f tok, db.file? file = some f ∧ (completionSite f.index offset).token = some tok ∧
      i ∈ localItems db file tok := by
  obtain ⟨locals, others, hsrc, hothers, hlocals⟩ := completionSources_eq_locals_append db file offset
  have hfirst := find?_of_mem_rankCompletions _ _ i hi
  rw [hsrc, List.find?_append] at hfirst
  cases hl : locals.find? (fun j => Text.foldCase j.label == Text.foldCase i.label) with
  | some i' =>
    rw [hl, Option.some_or] at hfirst
    exact hlocals i (Option.some.inj hfirst ▸ List.mem_of_find?_eq_some hl)
  | none =>
    rw [hl, Option.none_or] at hfirst
    -- then `i` is not a local, and neither is any candidate under its name
    have hio := hothers i (List.mem_of_find?_eq_some hfirst)
    obtain ⟨j, hj, hjk, hkey⟩ := hvar.resolve_left hio
    rw [hsrc] at hj
    rcases List.mem_append.1 hj with hj | hj
    · exact absurd hl (by simpa [List.find?_eq_none] using ⟨j, hj, hkey⟩)
    · exact absurd hjk (hothers j hj)

/-- **The completion list.** In every database an editing session reaches,
the list offered at any offset of any file is ranked from the candidates
there for the folded prefix before the cursor: distinct folded labels, each
starting with the prefix, sorted by priority and folded label, every
candidate name that starts with the prefix offered once, as its first
candidate. A local candidate hides every other candidate of its folded name,
and a local offered is the symbol its name resolves to from the scope around
the cursor's token, so an inner local hides an outer one. -/
theorem completions_ranked_locals_first (c : Catalog) (ops : List Database.Op) (file : FileId)
    (offset : Nat) :
    let db := (Database.ofCatalog c).run ops
    RankedFrom (Text.foldCase (completionPrefix db file offset)) (completionSources db file offset)
        (completions db file offset) ∧
      (∀ i ∈ completions db file offset, ∀ j ∈ completionSources db file offset,
        j.kind = .variable → Text.foldCase j.label = Text.foldCase i.label → i.kind = .variable) ∧
      ∀ i ∈ completions db file offset, i.kind = .variable →
        ∃ f tok s scope x sym a, db.file? file = some f ∧
          (completionSite f.index offset).token = some tok ∧
          ((Located.ofToken tok).scopeNode?.bind fun n => scopeOf? db file n.elem) = some (s, scope) ∧
          s.scopes.symbol? x = some sym ∧ s.scopes.resolve scope sym.name = some (a, x) ∧
          i = ⟨sym.name, .variable, some sym.type.name⟩ := by
  intro db
  have hc := Database.coherent_run c ops
  refine ⟨rankCompletions_rankedFrom _ _, fun i hi j hj hjk hkey => ?_, fun i hi hik => ?_⟩
  · obtain ⟨f, tok, -, -, hmem⟩ := mem_localItems_of_mem_completions hi (.inr ⟨j, hj, hjk, hkey⟩)
    exact kind_of_mem_localItems hmem
  · obtain ⟨f, tok, hf, ht, hmem⟩ := mem_localItems_of_mem_completions hi (.inl hik)
    obtain ⟨s, scope, x, sym, a, hscope, hsym, hres, rfl⟩ := localItems_resolve hc hmem
    exact ⟨f, tok, s, scope, x, sym, a, hf, ht, hscope, hsym, hres, rfl⟩

end Editor

end GameScript
