import Mathlib
import GameScript.Text.NameTable
/-!
# Name tables as finite maps

A `NameTable` is read through `get?` only, so what matters of an operation
is what it does to `get?` at every name. `insert` and removal by key act on
one folded name and leave the others (`get?_insert`, `get?_filter_key`);
neither needs anything of the table. Reading a table as a map of its entries
does: each folded name must be held once and under its folded form
(`NameTable.Keyed`), which `insert`, removal and value-wise filtering keep.
-/

set_option autoImplicit false

namespace GameScript

theorem Text.foldCase_foldCase (s : String) : Text.foldCase (Text.foldCase s) = Text.foldCase s := by
  unfold Text.foldCase
  rw [String.map_map]
  congr 1
  funext c
  exact Char.toLower_toLower_eq_toLower c

namespace NameTable

variable {α β : Type}

/-- Each folded name is held once, and under its folded form. -/
structure Keyed (t : NameTable α) : Prop where
  nodup : (t.map (·.1)).Nodup
  folded : ∀ p ∈ t, Text.foldCase p.1 = p.1

theorem get?_insert (t : NameTable α) (name n : String) (v : α) :
    (t.insert name v).get? n =
      if Text.foldCase n = Text.foldCase name then some v else t.get? n := by
  unfold insert get?
  dsimp only
  split
  · -- the name is there: its entries take the new value in place
    rename_i hany
    have hcomp : ((fun q : String × α => q.1 == Text.foldCase n) ∘
        fun kw => if kw.1 == Text.foldCase name then (kw.1, v) else kw) =
        fun q => q.1 == Text.foldCase n := by
      funext kw
      by_cases hk : kw.1 = Text.foldCase name <;> simp [hk]
    rw [List.find?_map, hcomp, Option.map_map]
    split
    · rename_i heq
      obtain ⟨q, hq⟩ : ∃ q, t.find? (fun q => q.1 == Text.foldCase n) = some q := by
        obtain ⟨p, hp, hkey⟩ := List.any_eq_true.1 hany
        exact Option.isSome_iff_exists.1 (List.find?_isSome.2 ⟨p, hp, by simpa [heq] using hkey⟩)
      have hqkey : q.1 = Text.foldCase name := by simpa [heq] using List.find?_some hq
      simp [hq, hqkey]
    · rename_i hne
      cases hq : t.find? (fun q => q.1 == Text.foldCase n) with
      | none => rfl
      | some q =>
        have hqkey : q.1 ≠ Text.foldCase name := by
          have : q.1 = Text.foldCase n := by simpa using List.find?_some hq
          rw [this]
          exact hne
        simp [hqkey]
  · -- the name is new: it goes last, behind every other name
    rename_i hany
    rw [List.find?_append]
    split
    · rename_i heq
      have hnone : t.find? (fun q => q.1 == Text.foldCase n) = none := by
        rw [List.find?_eq_none]
        intro q hq hkey
        exact hany (List.any_eq_true.2 ⟨q, hq, by simpa [heq] using hkey⟩)
      rw [hnone]
      simp [heq]
    · rename_i hne
      have hlast : ([(Text.foldCase name, v)].find? fun q => q.1 == Text.foldCase n) = none := by
        simp [Ne.symm hne]
      rw [hlast, Option.or_none]

theorem get?_filter_key (t : NameTable α) (key n : String) :
    get? (t.filter (·.1 != key)) n = if Text.foldCase n = key then none else t.get? n := by
  unfold get?
  dsimp only
  rw [List.find?_filter]
  split
  · rename_i heq
    subst heq
    have hnone : (t.find? fun q => decide ((q.1 != Text.foldCase n) = true ∧
        (q.1 == Text.foldCase n) = true)) = none := by
      rw [List.find?_eq_none]
      intro q _
      simp
    rw [hnone]
    rfl
  · rename_i hne
    have hsame : (fun (q : String × α) => decide ((q.1 != key) = true ∧
        (q.1 == Text.foldCase n) = true)) = fun q => q.1 == Text.foldCase n := by
      funext q
      by_cases hq : q.1 = Text.foldCase n <;> simp [hq, hne]
    rw [hsame]

/-- `get?` looks at the folded name only. -/
theorem get?_congr (t : NameTable α) {n m : String} (h : Text.foldCase n = Text.foldCase m) :
    t.get? n = t.get? m := by
  unfold get?
  rw [h]

/-- An entry of `t.insert name v` is an entry of `t` or the new value under
the folded name. -/
theorem mem_insert {t : NameTable α} {name : String} {v : α} {p : String × α}
    (hp : p ∈ t.insert name v) : p ∈ t ∨ p = (Text.foldCase name, v) := by
  unfold NameTable.insert at hp
  dsimp only at hp
  split at hp
  · obtain ⟨q, hq, rfl⟩ := List.mem_map.1 hp
    by_cases hk : q.1 = Text.foldCase name
    · right
      simp [hk]
    · left
      simpa [hk] using hq
  · simpa using hp

/-- In a keyed table `get?` reads the entry held under the folded name. -/
theorem Keyed.get?_eq_some_iff {t : NameTable α} (h : t.Keyed) (n : String) (v : α) :
    t.get? n = some v ↔ (Text.foldCase n, v) ∈ t := by
  unfold get?
  constructor
  · intro hget
    obtain ⟨q, hq, rfl⟩ := Option.map_eq_some_iff.1 hget
    have hqkey : q.1 = Text.foldCase n := by simpa using List.find?_some hq
    rw [← hqkey]
    exact List.mem_of_find?_eq_some hq
  · intro hmem
    have hfound : (t.find? fun q => q.1 == Text.foldCase n).isSome := by
      rw [List.find?_isSome]
      exact ⟨_, hmem, by simp⟩
    obtain ⟨q, hq⟩ := Option.isSome_iff_exists.1 hfound
    have hqkey : q.1 = Text.foldCase n := by simpa using List.find?_some hq
    -- two entries under one name are one entry
    have hqv : q = (Text.foldCase n, v) :=
      List.inj_on_of_nodup_map h.nodup (List.mem_of_find?_eq_some hq) hmem hqkey
    simp [hq, hqv]

theorem Keyed.get?_key {t : NameTable α} (h : t.Keyed) {p : String × α} (hp : p ∈ t) :
    t.get? p.1 = some p.2 := by
  rw [h.get?_eq_some_iff, h.folded p hp]
  exact hp

theorem Keyed.insert {t : NameTable α} (h : t.Keyed) (name : String) (v : α) :
    (t.insert name v).Keyed := by
  unfold NameTable.insert
  dsimp only
  split
  · refine ⟨?_, ?_⟩
    · have hkeys : (t.map fun (kw : String × α) =>
          if kw.1 == Text.foldCase name then (kw.1, v) else kw).map (·.1) = t.map (·.1) := by
        simp only [List.map_map]
        congr 1
        funext kw
        by_cases hk : kw.1 = Text.foldCase name <;> simp [hk]
      rw [hkeys]
      exact h.nodup
    · simp only [List.mem_map]
      rintro _ ⟨q, hq, rfl⟩
      by_cases hk : q.1 = Text.foldCase name
      · simpa [hk] using h.folded q hq
      · simpa [hk] using h.folded q hq
  · rename_i hany
    refine ⟨?_, ?_⟩
    · rw [List.map_append, List.nodup_append]
      refine ⟨h.nodup, by simp, ?_⟩
      intro a ha b hb hab
      simp only [List.map_cons, List.map_nil, List.mem_singleton] at hb
      obtain ⟨q, hq, rfl⟩ := List.mem_map.1 ha
      exact hany (List.any_eq_true.2 ⟨q, hq, by simp [hab, hb]⟩)
    · simp only [List.mem_append, List.mem_singleton]
      rintro p (hp | rfl)
      · exact h.folded p hp
      · exact Text.foldCase_foldCase name

/-- Dropping entries keeps a table keyed. -/
theorem Keyed.sublist {t u : NameTable α} (h : t.Keyed) (hs : u.Sublist t) : u.Keyed :=
  ⟨(hs.map _).nodup h.nodup, fun p hp => h.folded p (hs.subset hp)⟩

theorem map_fst_filterMap (t : NameTable α) (g : α → Option β) :
    (t.filterMap fun p => (g p.2).map (p.1, ·)).map (·.1) =
      (t.filter fun p => (g p.2).isSome).map (·.1) := by
  induction t with
  | nil => rfl
  | cons p ps ih => cases hg : g p.2 <;> simp [hg, ih]

section Fold

variable {γ : Type} (key : γ → String) (val : γ → α)

/-- Entering many values keeps a table keyed. -/
theorem Keyed.foldl_insert {t : NameTable α} (h : t.Keyed) (xs : List γ) :
    (xs.foldl (fun t x => t.insert (key x) (val x)) t).Keyed := by
  induction xs generalizing t with
  | nil => exact h
  | cons x xs ih => exact ih (h.insert _ _)

/-- After entering many values a table holds its old entries and the new
values. -/
theorem mem_foldl_insert {t : NameTable α} {xs : List γ} {p : String × α}
    (hp : p ∈ xs.foldl (fun t x => t.insert (key x) (val x)) t) :
    p ∈ t ∨ ∃ x ∈ xs, p.2 = val x := by
  induction xs generalizing t with
  | nil => exact Or.inl hp
  | cons x xs ih =>
    rcases ih hp with hp | ⟨y, hy, hpy⟩
    · rcases mem_insert hp with hp | rfl
      · exact Or.inl hp
      · exact Or.inr ⟨x, List.mem_cons_self, rfl⟩
    · exact Or.inr ⟨y, List.mem_cons_of_mem _ hy, hpy⟩

/-- A name is held after entering many values when it was before or one of
them was entered under it. -/
theorem get?_foldl_insert_isSome (t : NameTable α) (xs : List γ) (n : String) :
    ((xs.foldl (fun t x => t.insert (key x) (val x)) t).get? n).isSome ↔
      (t.get? n).isSome ∨ ∃ x ∈ xs, Text.foldCase (key x) = Text.foldCase n := by
  induction xs generalizing t with
  | nil => simp
  | cons x xs ih =>
    rw [List.foldl_cons, ih, get?_insert]
    by_cases hx : Text.foldCase n = Text.foldCase (key x)
    · simp [hx]
    · simp only [hx, ↓reduceIte, List.mem_cons, exists_eq_or_imp]
      constructor
      · rintro (h | h)
        · exact Or.inl h
        · exact Or.inr (Or.inr h)
      · rintro (h | h | h)
        · exact Or.inl h
        · exact absurd h.symm hx
        · exact Or.inr h

end Fold

/-- Filtering the values of a table, each under its own name, keeps it
keyed. -/
theorem Keyed.filterMap {t : NameTable α} (h : t.Keyed) (g : α → Option β) :
    Keyed (t.filterMap fun p => (g p.2).map (p.1, ·)) := by
  refine ⟨?_, ?_⟩
  · rw [map_fst_filterMap]
    exact (List.filter_sublist.map _).nodup h.nodup
  · intro p hp
    obtain ⟨q, hq, hqp⟩ := List.mem_filterMap.1 hp
    obtain ⟨w, -, rfl⟩ := Option.map_eq_some_iff.1 hqp
    exact h.folded q hq

/-- Filtering the values of a keyed table, each under its own name, reads
as filtering what `get?` finds. -/
theorem Keyed.get?_filterMap {t : NameTable α} (h : t.Keyed) (g : α → Option β) (n : String) :
    get? (t.filterMap fun p => (g p.2).map (p.1, ·)) n = (t.get? n).bind g := by
  apply Option.ext
  intro w
  rw [(h.filterMap g).get?_eq_some_iff, List.mem_filterMap]
  constructor
  · rintro ⟨q, hq, hqw⟩
    obtain ⟨v, hv, hqv⟩ := Option.map_eq_some_iff.1 hqw
    simp only [Prod.mk.injEq] at hqv
    obtain ⟨hk, rfl⟩ := hqv
    have : t.get? n = some q.2 := by
      rw [h.get?_eq_some_iff, ← hk]
      exact hq
    simp [this, hv]
  · intro hbind
    obtain ⟨v, hv, hgv⟩ := Option.bind_eq_some_iff.1 hbind
    exact ⟨(Text.foldCase n, v), (h.get?_eq_some_iff n v).1 hv, by simp [hgv]⟩

end NameTable

end GameScript
