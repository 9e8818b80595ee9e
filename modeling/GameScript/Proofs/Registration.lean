import Mathlib
import GameScript.Proofs.Globals
/-!
# Owners and global names that fit a set of files

The database keeps two tables beside its files: the owner of each script
name and the global names with their users. `TablesFit` says what they hold
for a set of open files, given as two relations: `D g k` when file `g`
declares the folded script name `k`, and `U g k` when it uses the folded
name `k` from outside. Owners declare what they own and every declared name
has one; the global table holds the catalog's names as the catalog has them,
the names used, with exactly their users, and the owned names, as scripts of
their owners. A name in `gap` may be declared and still have no owner: the
database passes through such states while it moves a name.

All of it is said name by name (`FitsAt`), so that a step of the database,
which changes what a few names hold, is checked at those names only. Each
step is proved here against the relations it leaves the tables fitting:
withdrawing a file (`TablesFit.withdraw`), declaring a name for it
(`TablesFit.declare`), giving a name to a file that declares it
(`TablesFit.register`), and adding a use (`TablesFit.addReference`).
-/

set_option autoImplicit false

namespace GameScript

open GlobalTable

/-- What the owners `O` and global names `G` hold at the name `n`, for the
files described by `D` and `U` over the catalog `c`. -/
structure FitsAt (c : Catalog) (D U : FileId → String → Prop) (gap : Option String)
    (O : NameTable FileId) (G : GlobalTable) (n : String) : Prop where
  /-- An owner declares the name. -/
  owner : ∀ f, O.get? n = some f → D f (Text.foldCase n)
  /-- A declared name has an owner, unless it is the gap. -/
  owned : ∀ f, D f (Text.foldCase n) → gap ≠ some (Text.foldCase n) → (O.get? n).isSome
  /-- The users of a global name are the files that use it. -/
  users : ∀ e, G.get? n = some e → ∀ f, f ∈ e.users ↔ U f (Text.foldCase n)
  /-- A global name is the catalog's, used, or owned. -/
  present : (G.get? n).isSome ↔
    ((ofCatalog c).get? n).isSome ∨ (∃ f, U f (Text.foldCase n)) ∨ (O.get? n).isSome
  /-- Under a catalog name, the catalog's entry. -/
  catalog : ∀ e e', G.get? n = some e → (ofCatalog c).get? n = some e' →
    e = { e' with users := e.users }
  /-- Off the catalog, the script of a file exactly when the file owns the name. -/
  script : ∀ e, G.get? n = some e → (ofCatalog c).get? n = none →
    ∀ f, e.origin = .script f ↔ O.get? n = some f
  /-- Off the catalog and unowned, a name only used, and used. -/
  implicit : ∀ e, G.get? n = some e → (ofCatalog c).get? n = none → O.get? n = none →
    e.origin = .implicit ∧ e.users ≠ []

/-- The owners `O` and global names `G` of the files described by `D` and
`U`, over the catalog `c`; a name in `gap` may lack an owner. -/
structure TablesFit (c : Catalog) (D U : FileId → String → Prop) (gap : Option String)
    (O : NameTable FileId) (G : GlobalTable) : Prop where
  keyed : G.Keyed
  order : catalogPart (ofCatalog c) G = ofCatalog c
  fits : ∀ n, FitsAt c D U gap O G n

variable {c : Catalog} {D U : FileId → String → Prop} {gap : Option String}
  {O : NameTable FileId} {G : GlobalTable}

/-- The uses of `f` left out of a global name's users. -/
theorem filter_users_ne_nil {e : GlobalEntry} {f : FileId} {k : String}
    (hu : ∀ x, x ∈ e.users ↔ U x k) :
    (e.users.filter (· != f)).isEmpty = false ↔ ∃ x, x ≠ f ∧ U x k := by
  rw [List.isEmpty_eq_false_iff_exists_mem]
  simp only [List.mem_filter, bne_iff_ne, ne_eq, hu]
  exact ⟨fun ⟨x, hx, hne⟩ => ⟨x, hne, hx⟩, fun ⟨x, hne, hx⟩ => ⟨x, hx, hne⟩⟩

namespace FitsAt

/-- A name whose owner, entry and files did not change keeps fitting. -/
theorem transport {n : String} {D' U' : FileId → String → Prop} {gap' : Option String}
    {O' : NameTable FileId} {G' : GlobalTable} (h : FitsAt c D U gap O G n)
    (hD : ∀ g, D' g (Text.foldCase n) ↔ D g (Text.foldCase n))
    (hU : ∀ g, U' g (Text.foldCase n) ↔ U g (Text.foldCase n))
    (hO : O'.get? n = O.get? n) (hG : G'.get? n = G.get? n)
    (hgap : gap' ≠ some (Text.foldCase n) → gap ≠ some (Text.foldCase n)) :
    FitsAt c D' U' gap' O' G' n where
  owner f hf := (hD f).2 (h.owner f (hO ▸ hf))
  owned f hd hne := hO ▸ h.owned f ((hD f).1 hd) (hgap hne)
  users e he f := by rw [hU f]; exact h.users e (hG ▸ he) f
  present := by simp only [hO, hG, hU]; exact h.present
  catalog e e' he := h.catalog e e' (hG ▸ he)
  script e he hc f := by rw [hO]; exact h.script e (hG ▸ he) hc f
  implicit e he hc ho := h.implicit e (hG ▸ he) hc (hO ▸ ho)

/-- Off the catalog, an entry is its owner's script or a name only used. -/
theorem origin_of_not_catalog {n : String} (h : FitsAt c D U gap O G n) {e : GlobalEntry}
    (he : G.get? n = some e) (hc : (ofCatalog c).get? n = none) :
    (∃ f, O.get? n = some f ∧ e.origin = .script f) ∨
      (O.get? n = none ∧ e.origin = .implicit ∧ e.users ≠ []) := by
  cases ho : O.get? n with
  | some f => exact Or.inl ⟨f, rfl, (h.script e he hc f).2 ho⟩
  | none => exact Or.inr ⟨rfl, h.implicit e he hc ho⟩

/-- A name with no entry is not the catalog's, used or owned. -/
theorem absent {n : String} (h : FitsAt c D U gap O G n) (he : G.get? n = none) :
    (ofCatalog c).get? n = none ∧ (∀ f, ¬U f (Text.foldCase n)) ∧ O.get? n = none := by
  have hp := h.present
  rw [he] at hp
  simp only [Option.isSome_none, Bool.false_eq_true, false_iff, not_or, not_exists,
    Option.not_isSome_iff_eq_none] at hp
  exact hp

/-- Under a catalog name, a catalog entry. -/
theorem origin_of_catalog {n : String} (h : FitsAt c D U gap O G n) {e e' : GlobalEntry}
    (he : G.get? n = some e) (hc : (ofCatalog c).get? n = some e') :
    e.origin = .builtin ∨ e.origin = .form := by
  rw [h.catalog e e' he hc]
  exact (mem_ofCatalog (((keyed_ofCatalog c).get?_eq_some_iff n e').1 hc)).2

/-- A name off the catalog that `g` owns and declares fits when its entry is
`g`'s script with the users of the name. -/
theorem of_script {n : String} {g : FileId} {e : GlobalEntry}
    (hO : O.get? n = some g) (hd : D g (Text.foldCase n)) (hc : (ofCatalog c).get? n = none)
    (hG : G.get? n = some e) (ho : e.origin = .script g)
    (hu : ∀ f, f ∈ e.users ↔ U f (Text.foldCase n)) : FitsAt c D U gap O G n where
  owner f hf := by
    rw [hO] at hf
    cases hf
    exact hd
  owned _ _ _ := by rw [hO]; rfl
  users e1 he1 := by
    rw [hG] at he1
    cases he1
    exact hu
  present := by simp [hG, hO]
  catalog _ _ _ hc' := by simp [hc] at hc'
  script e1 he1 _ f := by
    rw [hG] at he1
    cases he1
    simp [ho, hO]
  implicit _ _ _ ho' := by simp [hO] at ho'

/-- The users of a global name other than `f` are the other files that use
it. -/
theorem mem_filter_users {n : String} (h : FitsAt c D U gap O G n) {e : GlobalEntry}
    (he : G.get? n = some e) (f x : FileId) :
    x ∈ e.users.filter (· != f) ↔ x ≠ f ∧ U x (Text.foldCase n) := by
  rw [List.mem_filter, h.users e he x, bne_iff_ne]
  exact and_comm

/-- Withdrawing `f` from a name off the catalog that is left with no owner:
the entry stays as a name only used by the other files, or goes when none
uses it. This is the end of `f`'s own script and of a name only used alike. -/
theorem withdraw_unowned {n : String} (h : FitsAt c D U gap O G n) (f : FileId)
    {gap' : Option String} {O' : NameTable FileId} {G' : GlobalTable} {e e1 : GlobalEntry}
    (he : G.get? n = some e) (hc : (ofCatalog c).get? n = none) (hO : O'.get? n = none)
    (hG : G'.get? n = if (e.users.filter (· != f)).isEmpty then none else some e1)
    (hu : e1.users = e.users.filter (· != f)) (ho : e1.origin = .implicit)
    (howned : ∀ g, g ≠ f ∧ D g (Text.foldCase n) → gap' ≠ some (Text.foldCase n) →
      (O'.get? n).isSome) :
    FitsAt c (fun g k => g ≠ f ∧ D g k) (fun g k => g ≠ f ∧ U g k) gap' O' G' n where
  owner g hg := by simp [hO] at hg
  owned := howned
  users e2 he2 x := by
    rw [hG] at he2
    split at he2
    · cases he2
    · cases he2
      rw [hu]
      exact h.mem_filter_users he f x
  present := by
    have hkept := filter_users_ne_nil (f := f) (h.users e he)
    rw [hG, hO, hc]
    split <;> simp_all
  catalog e2 _ _ hc' := by simp [hc] at hc'
  script e2 he2 _ g := by
    rw [hG] at he2
    split at he2
    · cases he2
    · cases he2
      simp [ho, hO]
  implicit e2 he2 _ _ := by
    rw [hG] at he2
    split at he2
    · cases he2
    · cases he2
      simp_all

/-- Withdrawing `f` at one name: the users lose `f`; the name, if `f` owned
it, loses its owner and becomes a name only used, or goes. -/
theorem withdraw {n : String} (h : FitsAt c D U none O G n) (f : FileId) {gap' : Option String}
    {O' : NameTable FileId} {G' : GlobalTable}
    (hG : G'.get? n = (G.get? n).bind (GlobalEntry.retract f))
    (hO : O'.get? n = if O.get? n = some f then none else O.get? n)
    (hgap : O.get? n = some f → gap' = some (Text.foldCase n)) :
    FitsAt c (fun g k => g ≠ f ∧ D g k) (fun g k => g ≠ f ∧ U g k) gap' O' G' n := by
  have hown : ∀ g, O'.get? n = some g → g ≠ f ∧ D g (Text.foldCase n) := by
    intro g hg
    rw [hO] at hg
    split at hg
    · cases hg
    · exact ⟨fun hgf => by simp_all, h.owner g hg⟩
  have howned : ∀ g, g ≠ f ∧ D g (Text.foldCase n) → gap' ≠ some (Text.foldCase n) →
      (O'.get? n).isSome := by
    intro g ⟨_, hd⟩ hne
    obtain ⟨o, ho⟩ := Option.isSome_iff_exists.1 (h.owned g hd (by simp))
    rw [hO]
    split
    · exact absurd (hgap ‹_›) hne
    · simp [ho]
  cases he : G.get? n with
  | none =>
    -- nothing there: nothing in the catalog, used or owned
    obtain ⟨hc, hunused, hOn⟩ := h.absent he
    have hO'none : O'.get? n = none := by
      rw [hO]
      split
      · rfl
      · exact hOn
    rw [he, Option.bind_none] at hG
    refine ⟨fun g hg => by simp [hO'none] at hg, howned, fun e1 he1 => by simp [hG] at he1, ?_,
      fun e1 _ he1 => by simp [hG] at he1, fun e1 he1 => by simp [hG] at he1,
      fun e1 he1 => by simp [hG] at he1⟩
    simp [hG, hO'none, hc, hunused]
  | some e =>
    rw [he, Option.bind_some] at hG
    have hmem := h.mem_filter_users he f
    cases hc : (ofCatalog c).get? n with
    | some e' =>
      -- a catalog name stays, with the users of the other files
      rw [GlobalEntry.retract_of_catalog f (h.origin_of_catalog he hc)] at hG
      have hcat := h.catalog e e' he hc
      refine ⟨hown, howned, fun e1 he1 x => ?_, by simp [hG, hc], fun e1 e'' he1 hc' => ?_,
        fun e1 _ hc' => by simp [hc] at hc', fun e1 _ hc' => by simp [hc] at hc'⟩
      · rw [hG] at he1
        cases he1
        exact hmem x
      · rw [hG] at he1
        rw [hc] at hc'
        cases he1
        cases hc'
        rw [hcat]
    | none =>
      rcases h.origin_of_not_catalog he hc with ⟨g, hg, ho⟩ | ⟨hnone, ho, -⟩
      · by_cases hgf : g = f
        · -- the script of `f`: a name only used, while used by another file
          subst hgf
          rw [GlobalEntry.retract_of_script_self g ho] at hG
          exact h.withdraw_unowned g he hc (by rw [hO, if_pos hg]) hG rfl rfl howned
        · -- another file's script stays its script
          have hO'g : O'.get? n = some g := by rw [hO, if_neg (by simpa [hg] using hgf), hg]
          rw [GlobalEntry.retract_of_script_ne f ho hgf] at hG
          refine ⟨hown, howned, fun e1 he1 x => ?_, by simp [hG, hO'g],
            fun e1 _ _ hc' => by simp [hc] at hc', fun e1 he1 _ g' => ?_,
            fun e1 _ _ ho' => by simp [hO'g] at ho'⟩
          · rw [hG] at he1
            cases he1
            exact hmem x
          · rw [hG] at he1
            cases he1
            simp [ho, hO'g]
      · -- a name only used stays while another file uses it
        rw [GlobalEntry.retract_of_implicit f ho] at hG
        exact h.withdraw_unowned f he hc (by rw [hO, hnone]; rfl) hG rfl ho howned

end FitsAt

namespace TablesFit

/-- An entry under a catalog name is the catalog's. -/
theorem origin_of_catalog (h : TablesFit c D U gap O G) {p : String × GlobalEntry} (hp : p ∈ G)
    (hc : ((ofCatalog c).get? p.1).isSome) : p.2.origin = .builtin ∨ p.2.origin = .form := by
  obtain ⟨e', he'⟩ := Option.isSome_iff_exists.1 hc
  exact (h.fits p.1).origin_of_catalog (h.keyed.get?_key hp) he'

/-- A gap that is owned, or that no file declares, is no gap. -/
theorem close_gap {k : String} (h : TablesFit c D U (some k) O G)
    (hk : ∀ n g, D g (Text.foldCase n) → Text.foldCase n = k → (O.get? n).isSome) :
    TablesFit c D U none O G := by
  refine ⟨h.keyed, h.order, fun n => ?_⟩
  refine { h.fits n with owned := fun f hd _ => ?_ }
  by_cases hn : Text.foldCase n = k
  · exact hk n f hd hn
  · exact (h.fits n).owned f hd (by simpa [eq_comm] using hn)

theorem congr {D' U' : FileId → String → Prop} (h : TablesFit c D U gap O G)
    (hD : ∀ g k, D g k ↔ D' g k) (hU : ∀ g k, U g k ↔ U' g k) : TablesFit c D' U' gap O G := by
  obtain rfl : D = D' := funext fun g => funext fun k => propext (hD g k)
  obtain rfl : U = U' := funext fun g => funext fun k => propext (hU g k)
  exact h

/-! ## Withdrawing a file -/

/-- Withdrawing `f`: its uses are retracted, and a name it owned loses its
owner and may be left without one. -/
theorem withdraw (h : TablesFit c D U none O G) (f : FileId) {O' : NameTable FileId}
    (hO' : ∀ n, O'.get? n = if O.get? n = some f then none else O.get? n) {gap' : Option String}
    (hgap : ∀ n, O.get? n = some f → gap' = some (Text.foldCase n)) :
    TablesFit c (fun g k => g ≠ f ∧ D g k) (fun g k => g ≠ f ∧ U g k) gap' O'
      (G.retractFile f) := by
  refine ⟨h.keyed.retractFile f, ?_, fun n => ?_⟩
  · rw [catalogPart_retractFile _ _ _ fun p hp hc => h.origin_of_catalog hp hc]
    exact h.order
  exact (h.fits n).withdraw f (get?_retractFile h.keyed f n) (hO' n) (hgap n)

/-! ## Declaring, registering, using -/

/-- A file starts declaring `k`; `k` may then lack an owner. -/
theorem declare (h : TablesFit c D U gap O G) (f : FileId) {k : String}
    (hgap : gap = none ∨ gap = some k) :
    TablesFit c (fun g k' => D g k' ∨ (g = f ∧ k' = k)) U (some k) O G := by
  refine ⟨h.keyed, h.order, fun n => ?_⟩
  have hn := h.fits n
  refine { hn with owner := fun g hg => Or.inl (hn.owner g hg), owned := fun g hd hne => ?_ }
  rcases hd with hd | ⟨-, hk⟩
  · refine hn.owned g hd ?_
    rcases hgap with rfl | rfl
    · simp
    · exact hne
  · exact absurd (by rw [hk]) hne

/-- Giving the name `name` (folded `k`) to `g`, which declares it: the name
goes to `g` unless it has an owner, and its global entry becomes `g`'s
script unless it is the catalog's or already a script. -/
theorem register {k name : String} {g : FileId} (h : TablesFit c D U (some k) O G)
    (hk : Text.foldCase name = k) (hg : D g k) :
    TablesFit c D U none (if O.get? name = none then O.insert name g else O)
      (if O.get? name = none ∨ O.get? name = some g then (G.defineScript name g).1 else G) := by
  cases ho : O.get? name with
  | some o =>
    -- the name has an owner: nothing changes but the gap, which is owned
    have hG : (if some o = none ∨ some o = some g then (G.defineScript name g).1 else G) = G := by
      split
      · obtain ⟨e, he⟩ := Option.isSome_iff_exists.1 ((h.fits name).present.2 (Or.inr (Or.inr (by simp [ho]))))
        refine defineScript_of_not_implicit G g he fun hi => ?_
        cases hc : (ofCatalog c).get? name with
        | some e' => rcases (h.fits name).origin_of_catalog he hc with hb | hb <;> simp_all
        | none => simp [((h.fits name).script e he hc o).2 ho] at hi
      · rfl
    rw [hG, if_neg (by simp)]
    refine h.close_gap fun n _ _ hn => ?_
    rw [O.get?_congr (hn.trans hk.symm), ho]
    rfl
  | none =>
    simp only [↓reduceIte, true_or]
    -- under a catalog name the catalog's entry stays
    have hcatG : ((ofCatalog c).get? name).isSome → (G.defineScript name g).1 = G := by
      intro hc
      obtain ⟨e, he⟩ := Option.isSome_iff_exists.1 ((h.fits name).present.2 (Or.inl hc))
      obtain ⟨e', he'⟩ := Option.isSome_iff_exists.1 hc
      refine defineScript_of_not_implicit G g he fun hi => ?_
      rcases (h.fits name).origin_of_catalog he he' with hb | hb <;> simp_all
    refine ⟨h.keyed.defineScript name g, ?_, fun n => ?_⟩
    · cases hc : (ofCatalog c).get? name with
      | none =>
        rw [catalogPart_defineScript _ _ g hc]
        exact h.order
      | some e' =>
        rw [hcatG (by simp [hc])]
        exact h.order
    by_cases hn : Text.foldCase n = k
    · -- the name itself: `g` owns it from now on
      have hname : Text.foldCase n = Text.foldCase name := hn.trans hk.symm
      have hO' : (O.insert name g).get? n = some g := by rw [NameTable.get?_insert, if_pos hname]
      have hOn : O.get? n = none := by rw [O.get?_congr hname, ho]
      have hgn : D g (Text.foldCase n) := hn ▸ hg
      have hnf := h.fits n
      have howner : ∀ f, (O.insert name g).get? n = some f → D f (Text.foldCase n) := by
        intro f hf
        rw [hO'] at hf
        cases hf
        exact hgn
      have howned : ∀ f, D f (Text.foldCase n) → none ≠ some (Text.foldCase n) →
          ((O.insert name g).get? n).isSome := fun _ _ _ => by rw [hO']; rfl
      cases hc : (ofCatalog c).get? n with
      | some e' =>
        rw [hcatG (by rw [← (ofCatalog c).get?_congr hname, hc]; rfl)]
        refine ⟨howner, howned, hnf.users, ?_, hnf.catalog, fun _ _ hc' => by simp [hc] at hc',
          fun _ _ hc' => by simp [hc] at hc'⟩
        simp only [hO', Option.isSome_some, or_true, iff_true]
        exact hnf.present.2 (Or.inl (by simp [hc]))
      | none =>
        cases he : G.get? n with
        | some e =>
          -- a name only used becomes `g`'s script, with its users
          exact FitsAt.of_script hO' hgn hc
            (get?_defineScript_of_implicit G g hname he (hnf.implicit e he hc hOn).1) rfl
            (hnf.users e he)
        | none =>
          -- a new name: `g`'s script, used by no one
          exact FitsAt.of_script hO' hgn hc (get?_defineScript_of_none G g hname he) rfl
            fun f => by simpa using (hnf.absent he).2.1 f
    · -- other names keep their owner and entry
      have hne : Text.foldCase n ≠ Text.foldCase name := fun h' => hn (h'.trans hk)
      refine (h.fits n).transport (fun _ => Iff.rfl) (fun _ => Iff.rfl) ?_
        (get?_defineScript_of_ne G g hne) fun _ => ?_
      · rw [NameTable.get?_insert, if_neg hne]
      · simpa [eq_comm] using hn

/-- `f` starts using `x`: it joins the users of `x`, which is entered as a
name only used if it was not there. -/
theorem addReference (h : TablesFit c D U none O G) (x : String) (f : FileId) :
    TablesFit c D (fun g k => U g k ∨ (g = f ∧ k = Text.foldCase x)) none O
      (G.addReference x f) := by
  refine ⟨h.keyed.addReference x f, ?_, fun n => ?_⟩
  · cases he : G.get? x with
    | some e =>
      rw [addReference_of_some G f he, catalogPart_insert_users _ h.keyed he]
      exact h.order
    | none =>
      have hc : (ofCatalog c).get? x = none := by
        cases hc : (ofCatalog c).get? x with
        | none => rfl
        | some e' => simpa [he, hc] using (h.fits x).present
      rw [addReference_of_none G f he, catalogPart_insert_of_none _ _ _ hc]
      exact h.order
  have hnf := h.fits n
  by_cases hx : Text.foldCase n = Text.foldCase x
  · have hU : ∀ g, (U g (Text.foldCase n) ∨ (g = f ∧ Text.foldCase n = Text.foldCase x)) ↔
        U g (Text.foldCase n) ∨ g = f := by
      simp [hx]
    cases he : G.get? n with
    | some e =>
      -- `f` joins the users
      have hG' := get?_addReference_of_some G f hx he
      refine ⟨hnf.owner, hnf.owned, fun e1 he1 g => ?_, by simp [hG', hx], fun e1 e' he1 hc => ?_,
        fun e1 he1 hc g => ?_, fun e1 he1 hc ho => ?_⟩
      · rw [hG'] at he1
        cases he1
        rw [hU, mem_addFile, hnf.users e he]
      · rw [hG'] at he1
        cases he1
        rw [hnf.catalog e e' he hc]
      · rw [hG'] at he1
        cases he1
        exact hnf.script e he hc g
      · rw [hG'] at he1
        cases he1
        exact ⟨(hnf.implicit e he hc ho).1,
          List.ne_nil_of_mem ((mem_addFile e.users f f).2 (Or.inr rfl))⟩
    | none =>
      -- a new name, only used, by `f`
      have hG' := get?_addReference_of_none G f hx he
      obtain ⟨hcn, hunused, hOn⟩ := hnf.absent he
      refine ⟨hnf.owner, hnf.owned, fun e1 he1 g => ?_, by simp [hG', hx], fun e1 e' he1 hc => ?_,
        fun e1 he1 _ g => ?_, fun e1 he1 _ _ => ?_⟩
      · rw [hG'] at he1
        cases he1
        rw [hU]
        simp [hunused g]
      · simp [hcn] at hc
      · rw [hG'] at he1
        cases he1
        simp [hOn]
      · rw [hG'] at he1
        cases he1
        simp
  · exact hnf.transport (fun _ => Iff.rfl) (fun g => by simp [hx]) rfl
      (get?_addReference_of_ne G f hx) id

/-- `f` starts using every name of `xs`, one after another. -/
theorem addReferences (h : TablesFit c D U none O G) (xs : List String) (f : FileId) :
    TablesFit c D (fun g k => U g k ∨ (g = f ∧ k ∈ xs.map Text.foldCase)) none O
      (xs.foldl (fun G x => G.addReference x f) G) := by
  induction xs generalizing U G with
  | nil => exact h.congr (fun _ _ => Iff.rfl) (fun _ _ => by simp)
  | cons x xs ih =>
    refine (ih (h.addReference x f)).congr (fun _ _ => Iff.rfl) fun g k => ?_
    simp only [List.map_cons, List.mem_cons]
    constructor
    · rintro ((hu | ⟨rfl, rfl⟩) | ⟨rfl, hk⟩)
      · exact Or.inl hu
      · exact Or.inr ⟨rfl, Or.inl rfl⟩
      · exact Or.inr ⟨rfl, Or.inr hk⟩
    · rintro (hu | ⟨rfl, rfl | hk⟩)
      · exact Or.inl (Or.inl hu)
      · exact Or.inl (Or.inr ⟨rfl, rfl⟩)
      · exact Or.inr ⟨rfl, hk⟩

end TablesFit

end GameScript
