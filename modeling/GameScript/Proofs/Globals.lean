import Mathlib
import GameScript.Proofs.NameTable
import GameScript.Project.Globals
/-!
# What each operation does to the global table

The three updates of `GameScript.Project.Globals` are read name by name,
through `get?`: `addReference` and `defineScript` touch one folded name,
`retractFile` maps every entry by `GlobalEntry.retract`. The catalog's
names are kept apart: none of the three moves, adds or drops one of them,
and only their users change (`catalogPart`), so the part of the table under
catalog names is the catalog's own table as long as their users are
ignored.
-/

set_option autoImplicit false

namespace GameScript

namespace GlobalTable

theorem mem_addFile (fs : List FileId) (f x : FileId) : x ∈ addFile fs f ↔ x ∈ fs ∨ x = f := by
  unfold addFile
  split
  · rename_i hc
    constructor
    · exact Or.inl
    · rintro (hx | rfl)
      · exact hx
      · simpa using hc
  · simp only [List.mem_append, List.mem_filter, List.mem_singleton, decide_eq_true_eq]
    constructor
    · rintro ((⟨hx, -⟩ | rfl) | ⟨hx, -⟩)
      · exact Or.inl hx
      · exact Or.inr rfl
      · exact Or.inl hx
    · rintro (hx | rfl)
      · rcases Nat.lt_trichotomy x f with hlt | rfl | hgt
        · exact Or.inl (Or.inl ⟨hx, hlt⟩)
        · exact Or.inl (Or.inr rfl)
        · exact Or.inr ⟨hx, hgt⟩
      · exact Or.inl (Or.inr rfl)

end GlobalTable

/-! ## Retracting a file -/

/-- What dropping the uses of `file` makes of one entry: catalog entries
stay, a name only used stays while used, and the script of `file` stays,
as a name only used, while used. -/
def GlobalEntry.retract (file : FileId) (e : GlobalEntry) : Option GlobalEntry :=
  let e := { e with users := e.users.filter (· != file) }
  match e.origin with
  | .builtin | .form => some e
  | .implicit => if !e.users.isEmpty then some e else none
  | .script owner =>
    if owner == file then
      if !e.users.isEmpty then some { e with kind := .variable, type := .ambiguous, origin := .implicit }
      else none
    else some e

namespace GlobalEntry

variable (file : FileId) {e : GlobalEntry}

theorem retract_of_catalog (ho : e.origin = .builtin ∨ e.origin = .form) :
    e.retract file = some { e with users := e.users.filter (· != file) } := by
  rcases ho with ho | ho <;> simp [retract, ho]

theorem retract_of_script_ne {owner : FileId} (ho : e.origin = .script owner) (hne : owner ≠ file) :
    e.retract file = some { e with users := e.users.filter (· != file) } := by
  simp [retract, ho, hne]

theorem retract_of_implicit (ho : e.origin = .implicit) :
    e.retract file = if (e.users.filter (· != file)).isEmpty then none
      else some { e with users := e.users.filter (· != file) } := by
  by_cases he : (e.users.filter (· != file)).isEmpty <;> simp [retract, ho, he]

/-- The script of `file` becomes a name only used, or goes. -/
theorem retract_of_script_self (ho : e.origin = .script file) :
    e.retract file = if (e.users.filter (· != file)).isEmpty then none
      else some { e with
        users := e.users.filter (· != file)
        kind := .variable
        type := .ambiguous
        origin := .implicit } := by
  by_cases he : (e.users.filter (· != file)).isEmpty <;> simp [retract, ho, he]

theorem users_of_retract {e' : GlobalEntry} (h : e.retract file = some e') :
    e'.users = e.users.filter (· != file) := by
  unfold retract at h
  dsimp only at h
  split at h
  · cases h; rfl
  · cases h; rfl
  · split at h
    · cases h; rfl
    · cases h
  · split at h
    · split at h
      · cases h; rfl
      · cases h
    · cases h; rfl

end GlobalEntry

namespace GlobalTable

theorem retractFile_eq (t : GlobalTable) (file : FileId) :
    t.retractFile file = t.filterMap fun p => (p.2.retract file).map (p.1, ·) := by
  unfold retractFile GlobalEntry.retract
  congr 1
  funext p
  obtain ⟨k, name, kind, type, origin, users⟩ := p
  cases origin with
  | builtin | form => rfl
  | implicit =>
    dsimp only
    split_ifs <;> rfl
  | script owner =>
    dsimp only
    split_ifs <;> rfl

theorem get?_retractFile {t : GlobalTable} (h : t.Keyed) (file : FileId) (n : String) :
    (t.retractFile file).get? n = (t.get? n).bind (GlobalEntry.retract file) := by
  rw [retractFile_eq]
  exact h.get?_filterMap _ n

/-! ## Adding a use -/

theorem get?_addReference_of_ne (t : GlobalTable) {name n : String} (file : FileId)
    (hk : Text.foldCase n ≠ Text.foldCase name) :
    (t.addReference name file).get? n = t.get? n := by
  unfold addReference
  split <;> rw [NameTable.get?_insert, if_neg hk]

theorem get?_addReference_of_some (t : GlobalTable) {name n : String} (file : FileId)
    (hk : Text.foldCase n = Text.foldCase name) {e : GlobalEntry} (he : t.get? n = some e) :
    (t.addReference name file).get? n = some { e with users := addFile e.users file } := by
  rw [t.get?_congr hk] at he
  unfold addReference
  rw [he]
  dsimp only
  rw [NameTable.get?_insert, if_pos hk]

theorem get?_addReference_of_none (t : GlobalTable) {name n : String} (file : FileId)
    (hk : Text.foldCase n = Text.foldCase name) (he : t.get? n = none) :
    (t.addReference name file).get? n =
      some { name, kind := .variable, type := .ambiguous, origin := .implicit, users := [file] } := by
  rw [t.get?_congr hk] at he
  unfold addReference
  rw [he]
  dsimp only
  rw [NameTable.get?_insert, if_pos hk]

/-! ## Defining a script -/

theorem get?_defineScript_of_ne (t : GlobalTable) {name n : String} (file : FileId)
    (hk : Text.foldCase n ≠ Text.foldCase name) :
    (t.defineScript name file).1.get? n = t.get? n := by
  unfold defineScript
  split
  · split
    · rw [NameTable.get?_insert, if_neg hk]
    · rfl
    · rfl
  · rw [NameTable.get?_insert, if_neg hk]

/-- A name that is the catalog's or a script's already stays as it is. -/
theorem defineScript_of_not_implicit (t : GlobalTable) {name : String} (file : FileId)
    {e : GlobalEntry} (he : t.get? name = some e) (ho : e.origin ≠ .implicit) :
    (t.defineScript name file).1 = t := by
  unfold defineScript
  rw [he]
  dsimp only
  split
  · contradiction
  · rfl
  · rfl

theorem get?_defineScript_of_implicit (t : GlobalTable) {name n : String} (file : FileId)
    (hk : Text.foldCase n = Text.foldCase name) {e : GlobalEntry} (he : t.get? n = some e)
    (ho : e.origin = .implicit) :
    (t.defineScript name file).1.get? n =
      some { e with name, kind := .script, type := .reference, origin := .script file } := by
  rw [t.get?_congr hk] at he
  unfold defineScript
  rw [he]
  dsimp only
  rw [ho]
  dsimp only
  rw [NameTable.get?_insert, if_pos hk]

theorem get?_defineScript_of_none (t : GlobalTable) {name n : String} (file : FileId)
    (hk : Text.foldCase n = Text.foldCase name) (he : t.get? n = none) :
    (t.defineScript name file).1.get? n =
      some { name, kind := .script, type := .reference, origin := .script file } := by
  rw [t.get?_congr hk] at he
  unfold defineScript
  rw [he]
  dsimp only
  rw [NameTable.get?_insert, if_pos hk]

theorem addReference_of_some (t : GlobalTable) {name : String} (file : FileId) {e : GlobalEntry}
    (he : t.get? name = some e) :
    t.addReference name file = t.insert name { e with users := addFile e.users file } := by
  unfold addReference
  rw [he]

theorem addReference_of_none (t : GlobalTable) {name : String} (file : FileId)
    (he : t.get? name = none) :
    t.addReference name file =
      t.insert name { name, kind := .variable, type := .ambiguous, origin := .implicit, users := [file] } := by
  unfold addReference
  rw [he]

/-! ## The catalog's names -/

/-- The entries of `t` under the names of `cat`, with no users. -/
def catalogPart (cat t : GlobalTable) : GlobalTable :=
  (t.filter fun p => (cat.get? p.1).isSome).map fun p => (p.1, { p.2 with users := [] })

/-- Entering a value under a name that is not the catalog's leaves the
catalog's part. -/
theorem catalogPart_insert_of_none (cat t : GlobalTable) {name : String} (v : GlobalEntry)
    (hn : cat.get? name = none) : catalogPart cat (t.insert name v) = catalogPart cat t := by
  have hkey : cat.get? (Text.foldCase name) = none := by
    rw [cat.get?_congr (Text.foldCase_foldCase name)]
    exact hn
  unfold catalogPart NameTable.insert
  dsimp only
  split
  · rw [List.filter_map, List.map_map]
    have hP : ((fun p : String × GlobalEntry => (cat.get? p.1).isSome) ∘
        fun kw => if kw.1 == Text.foldCase name then (kw.1, v) else kw) =
        fun p => (cat.get? p.1).isSome := by
      funext kw
      by_cases hk : kw.1 = Text.foldCase name <;> simp [hk]
    rw [hP]
    apply List.map_congr_left
    intro q hq
    -- an entry under a catalog name is not under `name`
    have hq' : q.1 ≠ Text.foldCase name := by
      intro he
      have := (List.mem_filter.1 hq).2
      rw [he, hkey] at this
      simp at this
    simp [hq']
  · simp [List.filter_append, hkey]

/-- Changing the users of an entry leaves the catalog's part. -/
theorem catalogPart_insert_users (cat : GlobalTable) {t : GlobalTable} (h : t.Keyed)
    {name : String} {e : GlobalEntry} (he : t.get? name = some e) (u : List FileId) :
    catalogPart cat (t.insert name { e with users := u }) = catalogPart cat t := by
  have hmem : (Text.foldCase name, e) ∈ t := (h.get?_eq_some_iff name e).1 he
  have hany : t.any (·.1 == Text.foldCase name) = true := List.any_eq_true.2 ⟨_, hmem, by simp⟩
  unfold catalogPart NameTable.insert
  dsimp only
  rw [if_pos hany, List.filter_map, List.map_map]
  have hP : ((fun p : String × GlobalEntry => (cat.get? p.1).isSome) ∘
      fun kw => if kw.1 == Text.foldCase name then (kw.1, { e with users := u }) else kw) =
      fun p => (cat.get? p.1).isSome := by
    funext kw
    by_cases hk : kw.1 = Text.foldCase name <;> simp [hk]
  rw [hP]
  apply List.map_congr_left
  intro q hq
  by_cases hk : q.1 = Text.foldCase name
  · -- the one entry under `name` is `e`
    have hqe : q = (Text.foldCase name, e) :=
      List.inj_on_of_nodup_map h.nodup (List.mem_filter.1 hq).1 hmem hk
    simp [hqe]
  · simp [hk]

/-- Defining a script under a name that is not the catalog's leaves the
catalog's part. -/
theorem catalogPart_defineScript (cat t : GlobalTable) {name : String} (file : FileId)
    (hn : cat.get? name = none) :
    catalogPart cat (t.defineScript name file).1 = catalogPart cat t := by
  unfold defineScript
  split
  · split
    · exact catalogPart_insert_of_none cat t _ hn
    · rfl
    · rfl
  · exact catalogPart_insert_of_none cat t _ hn

/-- Retracting a file leaves the catalog's part, as long as the entries under
catalog names are catalog entries. -/
theorem catalogPart_retractFile (cat t : GlobalTable) (file : FileId)
    (hcat : ∀ p ∈ t, (cat.get? p.1).isSome → p.2.origin = .builtin ∨ p.2.origin = .form) :
    catalogPart cat (t.retractFile file) = catalogPart cat t := by
  rw [retractFile_eq]
  induction t with
  | nil => rfl
  | cons p ps ih =>
    have ih := ih fun q hq => hcat q (List.mem_cons_of_mem _ hq)
    unfold catalogPart at ih ⊢
    rw [List.filterMap_cons]
    by_cases hp : (cat.get? p.1).isSome
    · have hr : p.2.retract file = some { p.2 with users := p.2.users.filter (· != file) } := by
        rcases hcat p List.mem_cons_self hp with ho | ho <;> simp [GlobalEntry.retract, ho]
      simp [hr, hp, ih]
    · cases hr : p.2.retract file <;> simp [hp, ih]

end GlobalTable

/-! ## The updates keep a table keyed -/

theorem NameTable.Keyed.retractFile {t : GlobalTable} (h : t.Keyed) (file : FileId) :
    (t.retractFile file).Keyed := by
  rw [GlobalTable.retractFile_eq]
  exact h.filterMap _

theorem NameTable.Keyed.addReference {t : GlobalTable} (h : t.Keyed) (name : String) (file : FileId) :
    (t.addReference name file).Keyed := by
  unfold GlobalTable.addReference
  split <;> exact h.insert _ _

theorem NameTable.Keyed.defineScript {t : GlobalTable} (h : t.Keyed) (name : String) (file : FileId) :
    (t.defineScript name file).1.Keyed := by
  unfold GlobalTable.defineScript
  split
  · split
    · exact h.insert _ _
    · exact h
    · exact h
  · exact h.insert _ _

/-! ## The catalog's table -/

namespace GlobalTable

theorem keyed_ofCatalog (c : Catalog) : (ofCatalog c).Keyed := by
  unfold ofCatalog
  exact ((NameTable.Keyed.mk (by simp) (by simp)).foldl_insert _ _ _).foldl_insert _ _ _

/-- The catalog's entries are its functions and forms, with no users. -/
theorem mem_ofCatalog {c : Catalog} {p : String × GlobalEntry} (hp : p ∈ ofCatalog c) :
    p.2.users = [] ∧ (p.2.origin = .builtin ∨ p.2.origin = .form) := by
  unfold ofCatalog at hp
  rcases NameTable.mem_foldl_insert _ _ hp with hp | ⟨f, -, hf⟩
  · rcases NameTable.mem_foldl_insert _ _ hp with hp | ⟨f, -, hf⟩
    · simp at hp
    · simp [hf]
  · simp [hf]

/-- The catalog's names are the folded names of its functions and forms. -/
theorem get?_ofCatalog_isSome (c : Catalog) (n : String) :
    ((ofCatalog c).get? n).isSome ↔
      (∃ f ∈ c.functions.values, Text.foldCase f.name = Text.foldCase n) ∨
        ∃ f ∈ c.forms.values, Text.foldCase f.name = Text.foldCase n := by
  unfold ofCatalog
  rw [NameTable.get?_foldl_insert_isSome, NameTable.get?_foldl_insert_isSome]
  simp only [NameTable.get?, List.find?_nil, Option.map_none, Option.isSome_none,
    Bool.false_eq_true, false_or]
  exact Or.comm

theorem catalogPart_ofCatalog (c : Catalog) : catalogPart (ofCatalog c) (ofCatalog c) = ofCatalog c := by
  unfold catalogPart
  have hkeyed := keyed_ofCatalog c
  rw [List.filter_eq_self.2 fun p hp => by simp [hkeyed.get?_key hp]]
  conv_rhs => rw [← List.map_id (ofCatalog c)]
  apply List.map_congr_left
  intro p hp
  have := (mem_ofCatalog hp).1
  obtain ⟨k, e⟩ := p
  simp only at this
  simp [← this]

end GlobalTable

end GameScript
