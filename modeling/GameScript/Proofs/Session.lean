import Mathlib
import GameScript.Proofs.Registration
import GameScript.Project.Database
/-!
# The tables of a database fit its open files

A database is `Coherent` when its files are kept by ascending id, each with
the parse and script of its own text, and its owner and global tables fit
what the files declare and use (`TablesFit`). Setting a file's text and
closing a file keep it so, and so does every session of operations from an
empty database (`Database.Reachable`).

`load` is taken apart into the steps of `GameScript.Proofs.Registration`:
`unregister` withdraws the file and, when the file owned its name and the
name changes, passes the name to the next file declaring it; the new
script's name is then declared and registered, and its uses added. Closing
withdraws the file and drops it.
-/

set_option autoImplicit false

namespace GameScript

/-! ## What an open file declares and uses -/

namespace SourceFile

/-- The folded name the file's script declares. -/
def declared (f : SourceFile) : Option String := f.scriptName?.map Text.foldCase

/-- The folded names the file's script uses from outside; none without a
script name. -/
def externals (f : SourceFile) : List String :=
  (((Resolved.lower f.parse.root).map (·.externalNames)).getD []).map Text.foldCase

end SourceFile

/-- The folded names a script text uses from outside, parsed with the
catalog's functions as hints; none when the script has no name. -/
def externalsOf (c : Catalog) (text : String) : List String :=
  (((Resolved.lower (parseScript text c.isFunction).root).map (·.externalNames)).getD []).map
    Text.foldCase

namespace Database

/-- File `g` of `files` declares the folded script name `k`. -/
def Declares (files : List (FileId × SourceFile)) (g : FileId) (k : String) : Prop :=
  ∃ sf, (g, sf) ∈ files ∧ sf.declared = some k

/-- File `g` of `files` uses the folded name `k` from outside. -/
def Uses (files : List (FileId × SourceFile)) (g : FileId) (k : String) : Prop :=
  ∃ sf, (g, sf) ∈ files ∧ k ∈ sf.externals

/-- Files by ascending id, each parsed and lowered from its own text, with
owner and global tables that fit them. -/
structure Coherent (c : Catalog) (db : Database) : Prop where
  catalog : db.catalog = c
  sorted : (db.files.map (·.1)).Pairwise (· < ·)
  parsed : ∀ p ∈ db.files, p.2.parse = parseScript p.2.text c.isFunction ∧
    p.2.script = (Resolved.lower p.2.parse.root).map (·.script)
  tables : TablesFit c (Declares db.files) (Uses db.files) none db.scriptNames db.globals

variable {c : Catalog} {db : Database}

/-! ## Files by id -/

theorem nodup_ids {files : List (FileId × SourceFile)} (hs : (files.map (·.1)).Pairwise (· < ·)) :
    (files.map (·.1)).Nodup :=
  hs.imp ne_of_lt

theorem file?_eq_some_iff (hs : (db.files.map (·.1)).Pairwise (· < ·)) (f : FileId)
    (sf : SourceFile) : db.file? f = some sf ↔ (f, sf) ∈ db.files := by
  unfold file?
  constructor
  · intro h
    obtain ⟨p, hp, rfl⟩ := Option.map_eq_some_iff.1 h
    have hpf : p.1 = f := by simpa using List.find?_some hp
    rw [← hpf]
    exact List.mem_of_find?_eq_some hp
  · intro hmem
    obtain ⟨p, hp⟩ := Option.isSome_iff_exists.1
      (List.find?_isSome.2 ⟨(f, sf), hmem, by simp⟩ : (db.files.find? (·.1 == f)).isSome)
    have hpf : p.1 = f := by simpa using List.find?_some hp
    -- ids are distinct, so one entry has id `f`
    have hpe : p = (f, sf) := List.inj_on_of_nodup_map (nodup_ids hs)
      (List.mem_of_find?_eq_some hp) hmem hpf
    simp [hp, hpe]

/-- A file declares one name at most. -/
theorem Declares.unique {files : List (FileId × SourceFile)}
    (hs : (files.map (·.1)).Pairwise (· < ·)) {g : FileId} {k k' : String}
    (h : Declares files g k) (h' : Declares files g k') : k = k' := by
  obtain ⟨sf, hmem, hk⟩ := h
  obtain ⟨sf', hmem', hk'⟩ := h'
  have : (g, sf) = (g, sf') :=
    List.inj_on_of_nodup_map (nodup_ids hs) hmem hmem' rfl
  cases this
  exact Option.some_injective _ (hk.symm.trans hk')

/-! ## Putting a file in place -/

theorem mem_putFile (db : Database) (id : FileId) (sf : SourceFile) (p : FileId × SourceFile) :
    p ∈ (db.putFile id sf).files ↔ (p ∈ db.files ∧ p.1 ≠ id) ∨ p = (id, sf) := by
  unfold putFile
  simp only [List.mem_append, List.mem_filter, List.mem_singleton, bne_iff_ne, ne_eq,
    decide_eq_true_eq]
  constructor
  · rintro ((⟨⟨hp, hne⟩, -⟩ | rfl) | ⟨⟨hp, hne⟩, -⟩)
    · exact Or.inl ⟨hp, hne⟩
    · exact Or.inr rfl
    · exact Or.inl ⟨hp, hne⟩
  · rintro (⟨hp, hne⟩ | rfl)
    · rcases Nat.lt_or_gt_of_ne hne with hlt | hgt
      · exact Or.inl (Or.inl ⟨⟨hp, hne⟩, hlt⟩)
      · exact Or.inr ⟨⟨hp, hne⟩, hgt⟩
    · exact Or.inl (Or.inr rfl)

theorem sorted_putFile (hs : (db.files.map (·.1)).Pairwise (· < ·)) (id : FileId)
    (sf : SourceFile) : ((db.putFile id sf).files.map (·.1)).Pairwise (· < ·) := by
  unfold putFile
  have hsub : ∀ q : FileId × SourceFile → Bool,
      ((db.files.filter (·.1 != id)).filter q).map (·.1) |>.Pairwise (· < ·) := fun q =>
    hs.sublist ((List.filter_sublist.trans List.filter_sublist).map _)
  simp only [List.map_append, List.map_cons, List.map_nil]
  rw [List.pairwise_append, List.pairwise_append]
  refine ⟨⟨hsub _, by simp, ?_⟩, hsub _, ?_⟩
  · simp only [List.mem_map, List.mem_filter, List.mem_singleton]
    rintro _ ⟨p, ⟨-, hlt⟩, rfl⟩ _ rfl
    simpa using hlt
  · simp only [List.mem_append, List.mem_map, List.mem_filter, List.mem_singleton]
    rintro _ (⟨p, ⟨-, hlt⟩, rfl⟩ | rfl) _ ⟨q, ⟨-, hgt⟩, rfl⟩
    · exact lt_trans (by simpa using hlt) (by simpa using hgt)
    · simpa using hgt

/-- What some open file satisfies after `putFile`. -/
theorem exists_mem_putFile (db : Database) (id : FileId) (sf : SourceFile) (P : SourceFile → Prop)
    (g : FileId) : (∃ sf', (g, sf') ∈ (db.putFile id sf).files ∧ P sf') ↔
      (g ≠ id ∧ ∃ sf', (g, sf') ∈ db.files ∧ P sf') ∨ (g = id ∧ P sf) := by
  simp only [mem_putFile, Prod.mk.injEq]
  constructor
  · rintro ⟨sf', ⟨hmem, hne⟩ | ⟨rfl, rfl⟩, hp⟩
    · exact Or.inl ⟨hne, sf', hmem, hp⟩
    · exact Or.inr ⟨rfl, hp⟩
  · rintro (⟨hne, sf', hmem, hp⟩ | ⟨rfl, hp⟩)
    · exact ⟨sf', Or.inl ⟨hmem, hne⟩, hp⟩
    · exact ⟨sf, Or.inr ⟨rfl, rfl⟩, hp⟩

/-- What some file other than `id` satisfies once `id` is dropped. -/
theorem exists_mem_filter_ne (files : List (FileId × SourceFile)) (id : FileId)
    (P : SourceFile → Prop) (g : FileId) :
    (∃ sf', (g, sf') ∈ files.filter (·.1 != id) ∧ P sf') ↔
      g ≠ id ∧ ∃ sf', (g, sf') ∈ files ∧ P sf' := by
  simp only [List.mem_filter, bne_iff_ne, ne_eq]
  constructor
  · rintro ⟨sf', ⟨hmem, hne⟩, hp⟩
    exact ⟨hne, sf', hmem, hp⟩
  · rintro ⟨hne, sf', hmem, hp⟩
    exact ⟨sf', ⟨hmem, hne⟩, hp⟩

/-! ## Registering a script name -/

theorem registerScript_scriptNames (db : Database) (name : String) (g : FileId) :
    (db.registerScript name g).scriptNames =
      if db.scriptNames.get? name = none then db.scriptNames.insert name g else db.scriptNames := by
  unfold registerScript
  cases db.scriptNames.get? name with
  | none => simp only; split <;> rfl
  | some o => simp only; split <;> rfl

theorem registerScript_globals (db : Database) (name : String) (g : FileId) :
    (db.registerScript name g).globals =
      if db.scriptNames.get? name = none ∨ db.scriptNames.get? name = some g then
        (db.globals.defineScript name g).1 else db.globals := by
  unfold registerScript
  cases ho : db.scriptNames.get? name with
  | none => simp
  | some o =>
    by_cases hog : o = g
    · simp [hog]
    · simp [hog]

theorem registerScript_fits {D U : FileId → String → Prop} {k name : String} {g : FileId}
    (h : TablesFit c D U (some k) db.scriptNames db.globals) (hk : Text.foldCase name = k)
    (hg : D g k) :
    TablesFit c D U none (db.registerScript name g).scriptNames
      (db.registerScript name g).globals := by
  rw [registerScript_scriptNames, registerScript_globals]
  exact h.register hk hg

/-- Registering a name leaves the files and the catalog alone. -/
theorem registerScript_frame (db : Database) (name : String) (g : FileId) :
    (db.registerScript name g).files = db.files ∧ (db.registerScript name g).catalog = db.catalog := by
  unfold registerScript
  cases db.scriptNames.get? name <;> dsimp only <;> split <;> exact ⟨rfl, rfl⟩

/-- Withdrawing a file leaves the files and the catalog alone. -/
theorem unregister_frame (db : Database) (f : FileId) (handOver : Bool) :
    (db.unregister f handOver).files = db.files ∧
      (db.unregister f handOver).catalog = db.catalog := by
  unfold unregister
  dsimp only
  split
  · exact ⟨rfl, rfl⟩
  split_ifs
  · exact ⟨rfl, rfl⟩
  · exact ⟨rfl, rfl⟩
  split
  · split
    · exact registerScript_frame _ _ _
    · exact ⟨rfl, rfl⟩
  · exact ⟨rfl, rfl⟩

/-! ## What coherence gives about owners -/

namespace Coherent

variable (hc : Coherent c db)
include hc

/-- The owner of a name declares it. -/
theorem owner_declares {n : String} {f : FileId} (h : db.scriptNames.get? n = some f) :
    Declares db.files f (Text.foldCase n) :=
  (hc.tables.fits n).owner f h

/-- A file owns its own script name at most. -/
theorem owner_key {f : FileId} {name n : String}
    (hname : (db.file? f).bind SourceFile.scriptName? = some name)
    (h : db.scriptNames.get? n = some f) : Text.foldCase n = Text.foldCase name := by
  obtain ⟨sf, hf, hsn⟩ := Option.bind_eq_some_iff.1 hname
  refine Declares.unique hc.sorted (hc.owner_declares h) ⟨sf, ?_, ?_⟩
  · exact (file?_eq_some_iff hc.sorted f sf).1 hf
  · simp [SourceFile.declared, hsn]

/-- A file that declares no name owns none. -/
theorem not_owner {f : FileId} (hname : (db.file? f).bind SourceFile.scriptName? = none)
    (n : String) : db.scriptNames.get? n ≠ some f := by
  intro h
  obtain ⟨sf, hmem, hd⟩ := hc.owner_declares h
  have hf := (file?_eq_some_iff hc.sorted f sf).2 hmem
  simp [hf, SourceFile.declared] at hname hd
  simp [hname] at hd

end Coherent

/-! ## Finding the next owner -/

/-- In a list of ascending ids, the first entry satisfying `p` has the least
id among those that do. -/
theorem find?_least {files : List (FileId × SourceFile)} (hs : (files.map (·.1)).Pairwise (· < ·))
    {p : FileId × SourceFile → Bool} {q r : FileId × SourceFile} (hq : files.find? p = some q)
    (hr : r ∈ files) (hpr : p r = true) : q.1 ≤ r.1 := by
  obtain ⟨-, as, bs, rfl, hbefore⟩ := List.find?_eq_some_iff_append.1 hq
  simp only [List.map_append, List.map_cons, List.pairwise_append, List.pairwise_cons] at hs
  rcases List.mem_append.1 hr with hra | hrb
  · exact absurd hpr (by simpa using hbefore r hra)
  · rcases List.mem_cons.1 hrb with rfl | hrbs
    · exact le_refl _
    · exact le_of_lt (hs.2.1.1 r.1 (List.mem_map_of_mem hrbs))

/-- The open file of least id, other than `f`, that declares `k`: the file
a name passes to when its owner `f` lets it go. -/
def successor (db : Database) (f : FileId) (k : String) : Option FileId :=
  (db.files.find? fun p => p.1 != f && p.2.declared == some k).map (·.1)

theorem successor_eq_some_iff (hs : (db.files.map (·.1)).Pairwise (· < ·)) (f : FileId)
    (k : String) (g : FileId) :
    db.successor f k = some g ↔ IsLeast {g' | g' ≠ f ∧ Declares db.files g' k} g := by
  unfold successor
  constructor
  · intro h
    obtain ⟨q, hq, rfl⟩ := Option.map_eq_some_iff.1 h
    have hpq := List.find?_some hq
    simp only [Bool.and_eq_true, bne_iff_ne, ne_eq, beq_iff_eq] at hpq
    refine ⟨⟨hpq.1, q.2, List.mem_of_find?_eq_some hq, hpq.2⟩, ?_⟩
    rintro g' ⟨hne, sf, hmem, hd⟩
    exact find?_least hs hq hmem (by simp [hne, hd])
  · rintro ⟨⟨hne, sf, hmem, hd⟩, hleast⟩
    obtain ⟨q, hq⟩ := Option.isSome_iff_exists.1 (List.find?_isSome.2 ⟨(g, sf), hmem, by simp [hne, hd]⟩ :
      (db.files.find? fun p => p.1 != f && p.2.declared == some k).isSome)
    have hpq := List.find?_some hq
    simp only [Bool.and_eq_true, bne_iff_ne, ne_eq, beq_iff_eq] at hpq
    have hle : q.1 ≤ g := find?_least hs hq hmem (by simp [hne, hd])
    have hge : g ≤ q.1 := hleast ⟨hpq.1, q.2, List.mem_of_find?_eq_some hq, hpq.2⟩
    simp [hq, le_antisymm hle hge]

theorem successor_eq_none_iff (f : FileId) (k : String) :
    db.successor f k = none ↔ ∀ g, ¬ (g ≠ f ∧ Declares db.files g k) := by
  unfold successor
  simp only [Option.map_eq_none_iff, List.find?_eq_none, Bool.and_eq_true, bne_iff_ne, ne_eq,
    beq_iff_eq, not_and, Declares]
  constructor
  · rintro h g hne ⟨sf, hmem, hd⟩
    exact h (g, sf) hmem hne hd
  · rintro h ⟨g, sf⟩ hmem hne hd
    exact h g hne ⟨sf, hmem, hd⟩

/-! ## Withdrawing a file -/

theorem file?_globals (db : Database) (G : GlobalTable) (f : FileId) :
    ({ db with globals := G }).file? f = db.file? f := rfl

namespace Coherent

variable (hc : Coherent c db)
include hc

/-- Only a file's own name can be owned by it. -/
theorem owned_iff {f : FileId} {name : String}
    (hname : (db.file? f).bind SourceFile.scriptName? = some name)
    (hown : db.scriptNames.get? name = some f) (n : String) :
    db.scriptNames.get? n = some f ↔ Text.foldCase n = Text.foldCase name := by
  constructor
  · exact hc.owner_key hname
  · intro hn
    rw [NameTable.get?_congr _ hn, hown]

/-- A file that does not own its name owns none. -/
theorem not_owner_of_ne {f : FileId} {name : String}
    (hname : (db.file? f).bind SourceFile.scriptName? = some name)
    (hown : db.scriptNames.get? name ≠ some f) (n : String) : db.scriptNames.get? n ≠ some f :=
  fun hn => hown (by rw [← NameTable.get?_congr _ (hc.owner_key hname hn), hn])

/-- Withdrawing `f` with its name dropped from the owners when it owns it;
the name is then the gap. -/
theorem withdraw_owner {f : FileId} {name : String}
    (hname : (db.file? f).bind SourceFile.scriptName? = some name)
    (hown : db.scriptNames.get? name = some f) :
    TablesFit c (fun g k => g ≠ f ∧ Declares db.files g k) (fun g k => g ≠ f ∧ Uses db.files g k)
      (some (Text.foldCase name)) (db.scriptNames.filter (·.1 != Text.foldCase name))
      (db.globals.retractFile f) := by
  refine hc.tables.withdraw f (fun n => ?_) fun n hn => by rw [hc.owner_key hname hn]
  rw [NameTable.get?_filter_key]
  by_cases hn : Text.foldCase n = Text.foldCase name
  · rw [if_pos hn, if_pos ((hc.owned_iff hname hown n).2 hn)]
  · rw [if_neg hn, if_neg (fun h => hn ((hc.owned_iff hname hown n).1 h))]

/-- Withdrawing a file that owns nothing. -/
theorem withdraw_not_owner {f : FileId} (hno : ∀ n, db.scriptNames.get? n ≠ some f)
    (gap : Option String) :
    TablesFit c (fun g k => g ≠ f ∧ Declares db.files g k) (fun g k => g ≠ f ∧ Uses db.files g k)
      gap db.scriptNames (db.globals.retractFile f) :=
  hc.tables.withdraw f (fun n => by rw [if_neg (hno n)]) fun n hn => absurd hn (hno n)

theorem unregister_fits (f : FileId) (handOver : Bool) :
    TablesFit c (fun g k => g ≠ f ∧ Declares db.files g k) (fun g k => g ≠ f ∧ Uses db.files g k)
      (if handOver then none else (db.file? f).bind SourceFile.declared)
      (db.unregister f handOver).scriptNames (db.unregister f handOver).globals := by
  unfold unregister
  dsimp only
  rcases hname : (db.file? f).bind SourceFile.scriptName? with _ | name
  · simp only [file?_globals, hname]
    exact hc.withdraw_not_owner (hc.not_owner hname) _
  obtain ⟨sf, hf, hsn⟩ := Option.bind_eq_some_iff.1 hname
  have hgap : (db.file? f).bind SourceFile.declared = some (Text.foldCase name) := by
    simp [hf, SourceFile.declared, hsn]
  simp only [file?_globals, hname]
  by_cases hown : db.scriptNames.get? name = some f
  swap
  · rw [if_pos (show (db.scriptNames.get? name != some f) = true by simpa using hown)]
    exact hc.withdraw_not_owner (hc.not_owner_of_ne hname hown) _
  have hw := hc.withdraw_owner hname hown
  rw [hown, bne_self_eq_false, if_neg Bool.false_ne_true]
  cases handOver
  · -- the name stays with `f`'s next text: it is the gap
    simpa [hgap] using hw
  simp only [Bool.not_true, Bool.false_eq_true, if_false, if_true]
  split
  · rename_i id sf' hfind
    have hp := List.find?_some hfind
    have hmem := List.mem_of_find?_eq_some hfind
    split
    · rename_i display hdisplay
      simp only [hdisplay, Option.map_some, Bool.and_eq_true, bne_iff_ne, ne_eq, beq_iff_eq,
        Option.some.injEq] at hp
      exact registerScript_fits hw hp.2 ⟨hp.1, sf', hmem, by simp [SourceFile.declared, hdisplay, hp.2]⟩
    · rename_i hnone
      simp [hnone] at hp
  · -- no other file declares the name: it is left without an owner
    rename_i hfind
    refine hw.close_gap fun n g ⟨hne, sf', hmem, hd⟩ hn => absurd (List.find?_eq_none.1 hfind (g, sf') hmem) ?_
    simp only [SourceFile.declared] at hd
    simp [hne, hd, hn]

/-- The owners after withdrawing `f`: the name `f` owned passes to its
successor with `handOver` and is left without an owner otherwise; every
other owner stays. -/
theorem unregister_owner (f : FileId) (handOver : Bool) (n : String) :
    (db.unregister f handOver).scriptNames.get? n =
      if db.scriptNames.get? n = some f then
        (if handOver then db.successor f (Text.foldCase n) else none)
      else db.scriptNames.get? n := by
  unfold unregister
  dsimp only
  rcases hname : (db.file? f).bind SourceFile.scriptName? with _ | name
  · simp only [file?_globals, hname]
    rw [if_neg (hc.not_owner hname n)]
  simp only [file?_globals, hname]
  by_cases hown : db.scriptNames.get? name = some f
  swap
  · rw [if_pos (show (db.scriptNames.get? name != some f) = true by simpa using hown),
      if_neg (hc.not_owner_of_ne hname hown n)]
  rw [hown, bne_self_eq_false, if_neg Bool.false_ne_true]
  have hkey := hc.owned_iff hname hown n
  cases handOver
  · simp only [Bool.not_false, if_true, NameTable.get?_filter_key, hkey]
    exact if_congr Iff.rfl rfl rfl
  simp only [Bool.not_true, Bool.false_eq_true, if_false, if_true, hkey, successor,
    SourceFile.declared]
  split
  · rename_i id sf' hfind
    have hp := List.find?_some hfind
    split
    · rename_i display hdisplay
      simp only [hdisplay, Option.map_some, Bool.and_eq_true, bne_iff_ne, ne_eq, beq_iff_eq,
        Option.some.injEq] at hp
      rw [registerScript_scriptNames, if_pos (by simp [NameTable.get?_filter_key, hp.2]),
        NameTable.get?_insert, NameTable.get?_filter_key, hp.2]
      split_ifs with hn
      · rw [hn, hfind, Option.map_some]
      · rfl
    · rename_i hnone
      simp [hnone] at hp
  · rename_i hfind
    dsimp only
    rw [NameTable.get?_filter_key]
    split_ifs with hn
    · rw [hn, hfind, Option.map_none]
    · rfl

/-! ## Setting a file's text -/

/-- The tables once `f`'s old text is withdrawn and its new script
registered with the names it uses, the way `load` does it: `f` now declares
the new script's name and uses `external`. A name that is kept is the gap
between the two steps. -/
theorem fits_reload (f : FileId) (script : Option Resolved.Script) (external : List String)
    (renamed : Bool)
    (hkept : renamed = false → ∃ s, script = some s ∧
      (db.file? f).bind SourceFile.declared = some (Text.foldCase s.name)) :
    TablesFit c
      (fun g k => (g ≠ f ∧ Declares db.files g k) ∨
        (g = f ∧ (script.map (·.name)).map Text.foldCase = some k))
      (fun g k => (g ≠ f ∧ Uses db.files g k) ∨ (g = f ∧ k ∈ external.map Text.foldCase)) none
      (match script with
        | some s => (db.unregister f renamed).registerScript s.name f
        | none => db.unregister f renamed).scriptNames
      (external.foldl (fun G x => G.addReference x f)
        (match script with
          | some s => (db.unregister f renamed).registerScript s.name f
          | none => db.unregister f renamed).globals) := by
  have hu := hc.unregister_fits f renamed
  cases script with
  | none =>
    -- a script without a name renames: nothing is kept
    obtain rfl : renamed = true := by
      cases renamed
      · obtain ⟨s, hs, -⟩ := hkept rfl
        cases hs
      · rfl
    refine (hu.addReferences external f).congr (fun g k => ?_) fun _ _ => Iff.rfl
    simp
  | some s =>
    have hd := hu.declare f (k := Text.foldCase s.name) (by
      cases renamed
      · obtain ⟨s', hs', hd'⟩ := hkept rfl
        cases hs'
        exact Or.inr (by simpa using hd')
      · exact Or.inl rfl)
    have hr := registerScript_fits hd rfl (Or.inr ⟨rfl, rfl⟩)
    refine (hr.addReferences external f).congr (fun g k => ?_) fun _ _ => Iff.rfl
    simp [eq_comm]

/-- A file put in place over tables that fit it, with the files otherwise
as they were. -/
theorem putFile_coherent {db' : Database} {f : FileId} {sf : SourceFile} (hcat : db'.catalog = c)
    (hfiles : db'.files = db.files)
    (hparse : sf.parse = parseScript sf.text c.isFunction ∧
      sf.script = (Resolved.lower sf.parse.root).map (·.script))
    (ht : TablesFit c (fun g k => (g ≠ f ∧ Declares db.files g k) ∨ (g = f ∧ sf.declared = some k))
      (fun g k => (g ≠ f ∧ Uses db.files g k) ∨ (g = f ∧ k ∈ sf.externals)) none
      db'.scriptNames db'.globals) :
    Coherent c (db'.putFile f sf) where
  catalog := hcat
  sorted := sorted_putFile (hfiles ▸ hc.sorted) f sf
  parsed := by
    intro p hp
    rcases (mem_putFile db' f sf p).1 hp with ⟨hmem, -⟩ | rfl
    · exact hc.parsed p (hfiles ▸ hmem)
    · exact hparse
  tables := by
    refine ht.congr (fun g k => ?_) fun g k => ?_
    · simp only [Declares, exists_mem_putFile, hfiles]
    · simp only [Uses, exists_mem_putFile, hfiles]

theorem load (f : FileId) (key : SourceKey) (text : String) : Coherent c (db.load f key text) := by
  unfold Database.load
  dsimp only
  refine hc.putFile_coherent ?_ ?_ ⟨by rw [hc.catalog], rfl⟩ (hc.fits_reload f _ _ _ ?_)
  · dsimp only
    split <;> simp only [registerScript_frame, unregister_frame, hc.catalog]
  · dsimp only
    split <;> simp only [registerScript_frame, unregister_frame]
  · intro hren
    split at hren
    · -- the name is kept up to case
      rename_i old new hold hnew
      obtain ⟨s, hs, rfl⟩ := Option.map_eq_some_iff.1 hnew
      obtain ⟨sf, hf, hsn⟩ := Option.bind_eq_some_iff.1 hold
      refine ⟨s, hs, ?_⟩
      simpa [hf, SourceFile.declared, hsn] using hren
    · cases hren

/-- Keys and ids play no part in coherence. -/
theorem withRegistry (r : Registry) : Coherent c { db with registry := r } :=
  ⟨hc.catalog, hc.sorted, hc.parsed, hc.tables⟩

theorem openFile (key : SourceKey) (text : String) : Coherent c (db.openFile key text).1 := by
  unfold Database.openFile
  exact (hc.withRegistry _).load _ _ _

theorem change (f : FileId) (text : String) : Coherent c (db.change f text).1 := by
  unfold Database.change
  split
  · exact hc.load _ _ _
  · exact hc

/-! ## Closing a file -/

theorem close (f : FileId) : Coherent c (db.close f).1 := by
  unfold Database.close
  split
  swap
  · exact hc
  dsimp only
  have hframe := unregister_frame db f true
  have hu := hc.unregister_fits f true
  rw [if_pos rfl] at hu
  refine ⟨hframe.2.trans hc.catalog, ?_, ?_, ?_⟩
  · rw [hframe.1]
    exact hc.sorted.sublist (List.filter_sublist.map _)
  · intro p hp
    rw [hframe.1] at hp
    exact hc.parsed p (List.mem_filter.1 hp).1
  · refine hu.congr (fun g k => ?_) fun g k => ?_
    · simp only [Declares, hframe.1, exists_mem_filter_ne]
    · simp only [Uses, hframe.1, exists_mem_filter_ne]

end Coherent

/-- The empty database: no files, no owners, the catalog's names. -/
theorem coherent_ofCatalog (c : Catalog) : Coherent c (ofCatalog c) where
  catalog := rfl
  sorted := List.Pairwise.nil
  parsed := fun _ h => absurd h List.not_mem_nil
  tables := by
    refine ⟨GlobalTable.keyed_ofCatalog c, GlobalTable.catalogPart_ofCatalog c, fun n => ?_⟩
    have hkeyed := GlobalTable.keyed_ofCatalog c
    have hO : (ofCatalog c).scriptNames.get? n = none := rfl
    have hfiles : (ofCatalog c).files = [] := rfl
    have hG : (ofCatalog c).globals = GlobalTable.ofCatalog c := rfl
    have hentry : ∀ e, (GlobalTable.ofCatalog c).get? n = some e →
        e.users = [] ∧ (e.origin = .builtin ∨ e.origin = .form) := fun e he =>
      GlobalTable.mem_ofCatalog ((hkeyed.get?_eq_some_iff n e).1 he)
    refine
      { owner := fun f hf => absurd hf (by simp [hO])
        owned := fun f ⟨_, hmem, _⟩ => absurd hmem List.not_mem_nil
        users := fun e he f => ?_
        present := by simp [hO, hfiles, Uses, hG]
        catalog := fun e e' he he' => by
          obtain rfl : e = e' := Option.some_injective _ (he.symm.trans he')
          rfl
        script := fun e he hnone => absurd (he.symm.trans hnone) (by simp)
        implicit := fun e he hnone => absurd (he.symm.trans hnone) (by simp) }
    simp [(hentry e he).1, Uses, hfiles]

/-! ## Sessions -/

/-- One operation of an editing session. -/
inductive Op where
  /-- Open a file under a key, or set its text if the key is open. -/
  | openFile (key : SourceKey) (text : String)
  /-- Set the text of an open file. -/
  | change (file : FileId) (text : String)
  /-- Close a file. -/
  | close (file : FileId)

/-- The database after one operation. -/
def apply (db : Database) : Op → Database
  | .openFile key text => (db.openFile key text).1
  | .change file text => (db.change file text).1
  | .close file => (db.close file).1

/-- The database after a session of operations, in order. -/
def run (db : Database) (ops : List Op) : Database := ops.foldl apply db

theorem Coherent.apply {c : Catalog} {db : Database} (hc : Coherent c db) :
    ∀ op, Coherent c (db.apply op)
  | .openFile key text => hc.openFile key text
  | .change file text => hc.change file text
  | .close file => hc.close file

/-- Every session from an empty database keeps it coherent. -/
theorem coherent_run (c : Catalog) (ops : List Op) : Coherent c ((ofCatalog c).run ops) := by
  unfold run
  -- the invariant is carried one operation at a time, from any coherent start
  suffices h : ∀ db, Coherent c db → Coherent c (ops.foldl apply db) from
    h _ (coherent_ofCatalog c)
  induction ops with
  | nil => exact fun _ hc => hc
  | cons op ops ih => exact fun db hc => ih _ (hc.apply op)

/-! ## The global names of a coherent database -/

namespace Coherent

variable (hc : Coherent c db)
include hc

theorem uses_iff (f : FileId) (k : String) :
    Uses db.files f k ↔ ∃ sf, (f, sf) ∈ db.files ∧ k ∈ externalsOf c sf.text := by
  refine exists_congr fun sf => and_congr_right fun hmem => ?_
  rw [SourceFile.externals, (hc.parsed _ hmem).1]
  rfl

/-- The users of a global name are the open files that use it. -/
theorem users_iff {k : String} {e : GlobalEntry} (he : (k, e) ∈ db.globals) (f : FileId) :
    f ∈ e.users ↔ Uses db.files f k := by
  have hk : Text.foldCase k = k := hc.tables.keyed.folded _ he
  rw [(hc.tables.fits k).users e (hc.tables.keyed.get?_key he) f, hk]

/-- An owned name is owned by an open file. -/
theorem owner_isSome_iff (n : String) :
    (db.scriptNames.get? n).isSome ↔ ∃ f sf, (f, sf) ∈ db.files ∧ db.scriptNames.get? n = some f := by
  constructor
  · intro h
    obtain ⟨f, hf⟩ := Option.isSome_iff_exists.1 h
    obtain ⟨sf, hmem, -⟩ := hc.owner_declares hf
    exact ⟨f, sf, hmem, hf⟩
  · rintro ⟨f, -, -, hf⟩
    simp [hf]

/-- With no file open, the global names are the catalog's, in its order. -/
theorem globals_eq_of_files_nil (h : db.files = []) : db.globals = GlobalTable.ofCatalog c := by
  have ht := hc.tables
  have hno : ∀ f k, ¬ Uses db.files f k := fun f k ⟨sf, hmem, _⟩ => by simp [h] at hmem
  -- every entry is a catalog name with no users, so the catalog part is all of it
  have hentry : ∀ p ∈ db.globals, ((GlobalTable.ofCatalog c).get? p.1).isSome ∧ p.2.users = [] := by
    intro p hp
    have hget := ht.keyed.get?_key hp
    have hfit := ht.fits p.1
    refine ⟨?_, List.eq_nil_iff_forall_not_mem.2 fun f hf => hno f _ (((hfit.users _ hget f).1 hf))⟩
    rcases hfit.present.1 (by simp [hget]) with hcat | ⟨f, hu⟩ | howned
    · exact hcat
    · exact absurd hu (hno f _)
    · obtain ⟨f, sf, hmem, -⟩ := (hc.owner_isSome_iff p.1).1 howned
      simp [h] at hmem
  calc db.globals
      = (db.globals.filter fun p => ((GlobalTable.ofCatalog c).get? p.1).isSome).map
          (fun p => (p.1, { p.2 with users := [] })) := by
        rw [List.filter_eq_self.2 fun p hp => (hentry p hp).1]
        conv_lhs => rw [← List.map_id db.globals]
        refine List.map_congr_left fun p hp => ?_
        obtain ⟨k, e⟩ := p
        have hnil : e.users = [] := (hentry _ hp).2
        cases e
        simp_all
    _ = GlobalTable.ofCatalog c := ht.order

end Coherent

/-- Over every session from an empty database, the global names are exactly
what the catalog and the open files account for: the users of a name are
the open files whose text uses it; a name is there while it is the
catalog's, used by an open file, or owned by one; a catalog name keeps its
catalog entry, another name is the script of its owner or, unowned, a name
only used; and once no file is open the table is the catalog's again. -/
theorem run_globals_exact (c : Catalog) (ops : List Op) :
    let db := (ofCatalog c).run ops
    (∀ k e, (k, e) ∈ db.globals →
      ∀ f, f ∈ e.users ↔ ∃ sf, (f, sf) ∈ db.files ∧ k ∈ externalsOf c sf.text) ∧
    (∀ n, (db.globals.get? n).isSome ↔
      ((∃ fn ∈ c.functions.values, Text.foldCase fn.name = Text.foldCase n) ∨
          ∃ fm ∈ c.forms.values, Text.foldCase fm.name = Text.foldCase n) ∨
        (∃ f sf, (f, sf) ∈ db.files ∧ Text.foldCase n ∈ externalsOf c sf.text) ∨
        ∃ f sf, (f, sf) ∈ db.files ∧ db.scriptNames.get? n = some f) ∧
    (∀ n e, db.globals.get? n = some e →
      (∀ e', (GlobalTable.ofCatalog c).get? n = some e' →
        e = { e' with users := e.users } ∧ (e.origin = .builtin ∨ e.origin = .form)) ∧
      ((GlobalTable.ofCatalog c).get? n = none →
        (∀ f, e.origin = .script f ↔ db.scriptNames.get? n = some f) ∧
        (db.scriptNames.get? n = none → e.origin = .implicit ∧ e.users ≠ []))) ∧
    (db.files = [] → db.globals = GlobalTable.ofCatalog c) := by
  intro db
  have hc : Coherent c db := coherent_run c ops
  refine ⟨fun k e he f => (hc.users_iff he f).trans (hc.uses_iff f k), fun n => ?_,
    fun n e he => ⟨fun e' he' => ?_, fun hnone => ?_⟩, hc.globals_eq_of_files_nil⟩
  · rw [(hc.tables.fits n).present, GlobalTable.get?_ofCatalog_isSome, hc.owner_isSome_iff]
    simp only [hc.uses_iff]
  · exact ⟨(hc.tables.fits n).catalog e e' he he', (hc.tables.fits n).origin_of_catalog he he'⟩
  · exact ⟨(hc.tables.fits n).script e he hnone, (hc.tables.fits n).implicit e he hnone⟩

end Database

end GameScript
