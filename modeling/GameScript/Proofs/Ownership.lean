import Mathlib
import GameScript.Proofs.Session
/-!
# Who owns a script name

Over every session, the owner table of a database names open files that
declare what they own, and every declared name has an owner. From one
operation to the next, ownership follows one rule (`Succession`): an owner
that still declares its name keeps it, whatever the other files do; a name
whose owner closes or stops declaring it passes to the open file of least id
that declares it, if any. A file is told its name is taken exactly when it
declares a name that another file owns.

The rule comes from one description of the owner table after a file is
withdrawn and given its new name, shared by setting a text and closing: the
withdrawn file either declares a name again (`newName`) or, closing,
declares none.
-/

set_option autoImplicit false

namespace GameScript

namespace Database

variable {c : Catalog} {db : Database}

/-- How owners move from `db` to `db'`: an owner that still declares its
name keeps it, and a name whose owner no longer declares it passes to the
open file of least id declaring it, or to none. -/
def Succession (db db' : Database) : Prop :=
  ∀ n f, db.scriptNames.get? n = some f →
    (Declares db'.files f (Text.foldCase n) → db'.scriptNames.get? n = some f) ∧
    (¬ Declares db'.files f (Text.foldCase n) →
      ∀ g, db'.scriptNames.get? n = some g ↔ IsLeast {g | Declares db'.files g (Text.foldCase n)} g)

/-- The owner of `n` once `f` is withdrawn and declares `newName` (folded)
instead: `f` keeps a name it owned if it still declares it, and otherwise
it passes to the successor; `f` takes a name it declares that had no owner. -/
def ownerAfter (db : Database) (f : FileId) (newName : Option String) (n : String) :
    Option FileId :=
  if db.scriptNames.get? n = some f then
    (if newName = some (Text.foldCase n) then some f else db.successor f (Text.foldCase n))
  else if db.scriptNames.get? n = none ∧ newName = some (Text.foldCase n) then some f
  else db.scriptNames.get? n

theorem bind_declared (o : Option SourceFile) :
    o.bind SourceFile.declared = (o.bind SourceFile.scriptName?).map Text.foldCase := by
  cases o <;> rfl

/-- Registering gives the name to `g` exactly when nobody owned it. -/
theorem registerScript_owner (db : Database) (name : String) (g : FileId) (n : String) :
    (db.registerScript name g).scriptNames.get? n =
      if Text.foldCase n = Text.foldCase name ∧ db.scriptNames.get? n = none then some g
      else db.scriptNames.get? n := by
  rw [registerScript_scriptNames]
  by_cases hkey : Text.foldCase n = Text.foldCase name
  · rw [← NameTable.get?_congr _ hkey]
    split_ifs with hnone hnone'
    · rw [NameTable.get?_insert, if_pos hkey]
    · exact absurd ⟨hkey, hnone⟩ hnone'
    · exact absurd ‹_ ∧ _›.2 hnone
    · rfl
  · simp only [hkey, false_and, if_false]
    split_ifs
    · rw [NameTable.get?_insert, if_neg hkey]
    · rfl

/-- Syntax problems are never reported as a taken name. -/
theorem ofSyntaxError_code_ne (e : SyntaxError) :
    (Diagnostic.ofSyntaxError e).code ≠ .duplicateScriptName := by
  unfold Diagnostic.ofSyntaxError
  split <;> simp

namespace Coherent

variable (hc : Coherent c db)
include hc

/-- The owner of a name declares it. -/
theorem declared_of_owner {n : String} {f : FileId} (h : db.scriptNames.get? n = some f) :
    (db.file? f).bind SourceFile.declared = some (Text.foldCase n) := by
  obtain ⟨sf, hmem, hd⟩ := hc.owner_declares h
  rw [(file?_eq_some_iff hc.sorted f sf).2 hmem]
  exact hd

/-- The owners once `f`'s old text is withdrawn and its new script
registered, the way `load` does it. -/
theorem reload_owner (f : FileId) (script : Option Resolved.Script) (renamed : Bool)
    (hren : renamed = false ↔ ∃ s, script = some s ∧
      (db.file? f).bind SourceFile.declared = some (Text.foldCase s.name)) (n : String) :
    (match script with
      | some s => (db.unregister f renamed).registerScript s.name f
      | none => db.unregister f renamed).scriptNames.get? n =
      db.ownerAfter f ((script.map (·.name)).map Text.foldCase) n := by
  unfold ownerAfter
  cases script with
  | none =>
    obtain rfl : renamed = true := by simpa using hren
    simp [hc.unregister_owner]
  | some s =>
    rw [registerScript_owner, hc.unregister_owner]
    simp only [Option.map_some, Option.some.injEq]
    by_cases hown : db.scriptNames.get? n = some f
    · have hd := hc.declared_of_owner hown
      by_cases hkey : Text.foldCase n = Text.foldCase s.name
      · -- `f` keeps its name up to case: it is withdrawn and given back
        have hkept : renamed = false := hren.2 ⟨s, rfl, by rw [hd, hkey]⟩
        simp [hown, hkept, hkey]
      · -- `f` renames: the name is handed over
        have hmoved : renamed = true := by
          cases renamed
          · obtain ⟨s', hs', hd'⟩ := hren.1 rfl
            cases hs'
            exact absurd (by simpa [hd] using hd') hkey
          · rfl
        simp [hown, hmoved, hkey, Ne.symm hkey]
    · simp only [hown, if_false]
      exact if_congr ⟨fun ⟨hk, hn⟩ => ⟨hn, hk.symm⟩, fun ⟨hn, hk⟩ => ⟨hk.symm, hn⟩⟩ rfl rfl

/-- Setting `f`'s text: `f` now declares some `newName`, the other files
are as they were, and the owners are `ownerAfter`. -/
theorem load_owners (f : FileId) (key : SourceKey) (text : String) :
    ∃ newName : Option String,
      (∀ g k, Declares (db.load f key text).files g k ↔
        (g ≠ f ∧ Declares db.files g k) ∨ (g = f ∧ newName = some k)) ∧
      ∀ n, (db.load f key text).scriptNames.get? n = db.ownerAfter f newName n := by
  unfold Database.load
  dsimp only
  refine ⟨_, fun g k => ?_, fun n => hc.reload_owner f _ _ ?_ n⟩
  · rw [Declares, exists_mem_putFile]
    dsimp only
    split <;> simp only [registerScript_frame, unregister_frame] <;> rfl
  · -- `load` keeps the name exactly when the old and new names agree up to case
    rw [bind_declared]
    split
    · rename_i old new hold hnew
      obtain ⟨s, hs, rfl⟩ := Option.map_eq_some_iff.1 hnew
      simp [hold, hs]
    · rename_i hnot
      simp only [Bool.true_eq_false, false_iff, not_exists, not_and]
      intro s hs hd
      obtain ⟨old, hold, -⟩ := Option.map_eq_some_iff.1 hd
      exact hnot old s.name hold (by simp [hs])

/-- Closing `f`: `f` is gone, and the owners are `ownerAfter` with no new
name. -/
theorem close_owners (f : FileId) :
    (∀ g k, Declares (db.close f).1.files g k ↔
      (g ≠ f ∧ Declares db.files g k) ∨ (g = f ∧ (none : Option String) = some k)) ∧
    ∀ n, (db.close f).1.scriptNames.get? n = db.ownerAfter f none n := by
  unfold Database.close ownerAfter
  split
  · rename_i sf hf
    dsimp only
    have hframe := unregister_frame db f true
    refine ⟨fun g k => ?_, fun n => ?_⟩
    · simp only [Declares, hframe.1, exists_mem_filter_ne]
      simp
    · rw [hc.unregister_owner]
      simp
  · -- `f` is not open: nothing changes, and `f` owns nothing
    rename_i hf
    have hclosed : ∀ sf, (f, sf) ∉ db.files := fun sf hmem => by
      simp [(file?_eq_some_iff hc.sorted f sf).2 hmem] at hf
    refine ⟨fun g k => ?_, fun n => ?_⟩
    · simp only [reduceCtorEq, and_false, or_false, iff_and_self]
      rintro ⟨sf, hmem, -⟩ rfl
      exact hclosed sf hmem
    · have hno : db.scriptNames.get? n ≠ some f := fun h =>
        (hc.owner_declares h).elim fun sf hs => hclosed sf hs.1
      simp [hno]

/-- Owners follow `Succession` whenever the files and owners are those
`ownerAfter` describes. -/
theorem succession_of {db' : Database} {f : FileId} {newName : Option String}
    (hD : ∀ g k, Declares db'.files g k ↔
      (g ≠ f ∧ Declares db.files g k) ∨ (g = f ∧ newName = some k))
    (hO : ∀ n, db'.scriptNames.get? n = db.ownerAfter f newName n) : Succession db db' := by
  intro n g hg
  rw [hO, ownerAfter]
  by_cases hgf : g = f
  · -- the owner is the withdrawn file: it keeps the name if its new text declares it
    subst hgf
    have hdecl : Declares db'.files g (Text.foldCase n) ↔ newName = some (Text.foldCase n) := by
      simp [hD]
    rw [if_pos hg]
    refine ⟨fun hd => by rw [if_pos (hdecl.1 hd)], fun hnd g' => ?_⟩
    rw [if_neg (mt hdecl.2 hnd), successor_eq_some_iff hc.sorted]
    have hset : {g' | g' ≠ g ∧ Declares db.files g' (Text.foldCase n)} =
        {g' | Declares db'.files g' (Text.foldCase n)} := by
      ext g'
      simp only [Set.mem_ofPred_eq, hD]
      constructor
      · exact Or.inl
      · rintro (h | ⟨rfl, h⟩)
        · exact h
        · exact absurd (hdecl.2 h) hnd
    rw [hset]
  · -- another file's name: untouched, and still declared
    have hdecl : Declares db'.files g (Text.foldCase n) :=
      (hD g _).2 (Or.inl ⟨hgf, hc.owner_declares hg⟩)
    refine ⟨fun _ => ?_, fun hnd => absurd hdecl hnd⟩
    rw [hg, if_neg (by simpa using hgf), if_neg (by simp)]

theorem succession_self : Succession db db :=
  fun _ _ hf => ⟨fun _ => hf, fun hnd => absurd (hc.owner_declares hf) hnd⟩

theorem succession_load (f : FileId) (key : SourceKey) (text : String) :
    Succession db (db.load f key text) := by
  obtain ⟨newName, hD, hO⟩ := hc.load_owners f key text
  exact hc.succession_of hD hO

/-- Every operation moves owners by `Succession`. -/
theorem succession_apply : ∀ op, Succession db (db.apply op)
  | .openFile key text => by
    show Succession db (db.openFile key text).1
    unfold Database.openFile
    rcases db.registry.ensure key with ⟨r, id⟩
    exact (hc.withRegistry r).succession_load id key text
  | .change f text => by
    show Succession db (db.change f text).1
    unfold Database.change
    split
    · exact hc.succession_load _ _ _
    · exact hc.succession_self
  | .close f => hc.succession_of (hc.close_owners f).1 (hc.close_owners f).2

/-- A declared name has an owner. -/
theorem owner_of_declares {f : FileId} {k : String} (h : Declares db.files f k) :
    (db.scriptNames.get? k).isSome := by
  have hk : Text.foldCase k = k := by
    obtain ⟨sf, -, hd⟩ := h
    obtain ⟨name, -, rfl⟩ := Option.map_eq_some_iff.1 hd
    exact Text.foldCase_foldCase name
  exact (hc.tables.fits k).owned f (by rw [hk]; exact h) (by simp)

/-- A file is told its script name is taken exactly when it declares a name
that another file owns. -/
theorem duplicate_iff (f : FileId) :
    (∃ d ∈ db.diagnostics f, d.code = .duplicateScriptName) ↔
      ∃ sf s g, (f, sf) ∈ db.files ∧ sf.script = some s ∧ db.scriptNames.get? s.name = some g ∧
        g ≠ f := by
  unfold diagnostics scriptFile?
  cases hf : db.file? f with
  | none =>
    simp only [List.not_mem_nil, false_and, exists_false, false_iff, not_exists, not_and]
    intro sf s g hmem
    simp [(file?_eq_some_iff hc.sorted f sf).2 hmem] at hf
  | some sf =>
    have hmem : ∀ sf', (f, sf') ∈ db.files ↔ sf' = sf := fun sf' => by
      rw [← file?_eq_some_iff hc.sorted, hf, Option.some.injEq, eq_comm]
    simp only [hmem, List.mem_append, List.mem_map]
    -- only the name check can report a taken name
    have hsyntax : ¬ ∃ e ∈ sf.parse.errors,
        (Diagnostic.ofSyntaxError e).code = .duplicateScriptName :=
      fun ⟨e, _, hd⟩ => ofSyntaxError_code_ne e hd
    cases hs : sf.script with
    | none => simp [hs, hsyntax]
    | some s =>
      cases ho : db.scriptNames.get? s.name with
      | none => simp [hs, ho, hsyntax]
      | some g =>
        by_cases hg : g = f
        · simp [hs, ho, hg, hsyntax]
        · simp [hs, ho, hg]

end Coherent

/-- Over every session from an empty database, the owner of a name is an
open file that declares it; every declared name has an owner; the next
operation, whatever it is, moves owners only by `Succession`; and a file is
told its name is taken exactly when it declares a name another file owns. -/
theorem run_script_owners (c : Catalog) (ops : List Op) :
    let db := (ofCatalog c).run ops
    (∀ n f, db.scriptNames.get? n = some f → Declares db.files f (Text.foldCase n)) ∧
    (∀ f k, Declares db.files f k → (db.scriptNames.get? k).isSome) ∧
    (∀ op, Succession db (db.apply op)) ∧
    (∀ f, (∃ d ∈ db.diagnostics f, d.code = .duplicateScriptName) ↔
      ∃ sf s g, (f, sf) ∈ db.files ∧ sf.script = some s ∧ db.scriptNames.get? s.name = some g ∧
        g ≠ f) := by
  intro db
  have hc : Coherent c db := coherent_run c ops
  exact ⟨fun _ _ => hc.owner_declares, fun _ _ => hc.owner_of_declares, hc.succession_apply,
    hc.duplicate_iff⟩

end Database

end GameScript
