import Mathlib
import GameScript.Catalog.Files
import GameScript.Proofs.JsonContainers
import GameScript.Proofs.NameTable
/-!
# Saving and loading a catalog

A catalog that was loaded, and then extended any number of times, loads
back from the two files it saves to as the same catalog: the same entries
under the same folded names, in the same order (`ofJson_toJson`).

Two facts carry this. Reading: the functions file is read back as the
records of the functions, and the globals file as the forms under their own
names (`readFunctions_functionsJson`, `readGlobals_globalsJson`), by the
reader lemmas of `GameScript.Proofs.JsonContainers`. Loading: each table of
a loaded catalog is `Stored`, every entry under the folded form of its own
name with no name twice, and every name already trimmed and not empty; so
when the saved records are loaded again each name passes its check
unchanged, each is new when it is entered, and entering them one after the
other rebuilds the table (`foldl_insert_stored`). The forms' own names are
distinct because their folded forms are, which is what lets the globals
file, an object keyed by those names, read back entry for entry.
-/

set_option autoImplicit false

namespace GameScript

open Json Json.Reads

/-! ## Names -/

/-- Trimming a trimmed name leaves it as it is. -/
theorem Text.trimWhiteSpace_trimWhiteSpace (s : String) :
    Text.trimWhiteSpace (Text.trimWhiteSpace s) = Text.trimWhiteSpace s := by
  unfold Text.trimWhiteSpace
  rw [String.toList_ofList]
  -- `front` starts with no white space and `back` ends with none; the trimmed
  -- text is a prefix of `front`, so it starts with none either
  set front := s.toList.dropWhile Text.isWhiteSpace
  set back := front.reverse.dropWhile Text.isWhiteSpace
  have hback : back.dropWhile Text.isWhiteSpace = back := List.dropWhile_idempotent _ _
  have hinit : back.reverse <+: front := by
    simpa using (List.dropWhile_suffix Text.isWhiteSpace (l := front.reverse)).reverse
  have hfront : front.dropWhile Text.isWhiteSpace = front := List.dropWhile_idempotent _ _
  have htrim : back.reverse.dropWhile Text.isWhiteSpace = back.reverse := by
    refine List.dropWhile_eq_self_iff.2 fun hl => ?_
    rw [hinit.getElem hl]
    exact List.dropWhile_eq_self_iff.1 hfront _
  rw [htrim, List.reverse_reverse, hback]

namespace Catalog

/-- A name that passed its check passes it again, unchanged. -/
theorem checkedName_of_checkedName {name n : String} (h : checkedName name = .ok n) :
    checkedName n = .ok n := by
  unfold checkedName at h ⊢
  dsimp only at h ⊢
  split at h
  · cases h
  · rename_i hne
    cases h
    rw [Text.trimWhiteSpace_trimWhiteSpace, if_neg hne]

/-! ## Reading back the saved files -/

section Read

variable {d : Nat} {P : List Char → Prop}

theorem idxOf?_typeNames (t : ValueType) : typeNames.idxOf? t.name = some (ValueType.all.idxOf t) := by
  cases t <;> decide

theorem getElem?_all_idxOf (t : ValueType) : ValueType.all[ValueType.all.idxOf t]? = some t := by
  cases t <;> decide

theorem space_blank : ∀ b ∈ [' '], IsBlank b := by simp [IsBlank]

/-- A saved kind reads back as the kind. -/
theorem readKind_word (k : FunctionKind) : Decodes d P readKind (' ' :: (quote k.word).toList) k := by
  intro n hn
  unfold readKind
  cases k with
  | function =>
    exact Reads.bind_pure (g := fun k => if k == 1 then FunctionKind.command else .function)
      ((readVariant_quote (k := 0) space_blank rfl) n hn)
  | command =>
    exact Reads.bind_pure (g := fun k => if k == 1 then FunctionKind.command else .function)
      ((readVariant_quote (k := 1) space_blank rfl) n hn)

/-- A saved type reads back as the type. -/
theorem readType_name (t : ValueType) : Decodes d P readType (' ' :: (quote t.name).toList) t := by
  intro n hn
  unfold readType
  have h := Reads.bind_pure (g := fun k => (ValueType.all[k]?).getD ValueType.unknown)
    (readVariant_quote (d := d) (P := P) space_blank (idxOf?_typeNames t) n hn)
  rwa [getElem?_all_idxOf, Option.getD_some] at h

/-- The value a function is saved as. -/
def functionValue (e : FunctionEntry) : Json.Value :=
  .object [("name", .string e.name), ("kind", .string e.kind.word),
    ("returnType", .string e.returnType.name), ("origin", .string e.origin)]

/-- The value a form is saved as, under its name. -/
def formValue (e : FormEntry) : Json.Value :=
  .object [("type", .string e.type.name), ("origin", .string e.origin)]

/-- The record a function is read back as. -/
def FunctionRecord.ofEntry (e : FunctionEntry) : FunctionRecord :=
  { name := e.name, kind := e.kind, returnType := e.returnType, origin := e.origin }

/-- The record a form is read back as. -/
def FormRecord.ofEntry (e : FormEntry) : FormRecord := { type := e.type, origin := e.origin }

/-- A saved function reads back as its record. -/
theorem readRecord_functionValue (e : FunctionEntry) (l : Nat) {bl : List Char}
    (hbl : ∀ b ∈ bl, IsBlank b) (hd : 1 ≤ d) :
    Decodes (d + 1) P (readRecord functionRecord) (bl ++ ((functionValue e).pretty l).toList)
      (FunctionRecord.ofEntry e) := by
  refine readRecord_object (r := functionRecord) (l := l) hbl
    [("name", .string e.name, fun r : FunctionRecord => { r with name := e.name }),
      ("kind", .string e.kind.word, fun r : FunctionRecord => { r with kind := e.kind }),
      ("returnType", .string e.returnType.name,
        fun r : FunctionRecord => { r with returnType := e.returnType }),
      ("origin", .string e.origin, fun r : FunctionRecord => { r with origin := e.origin })]
    (by simp) ?_ (by simp [functionRecord]) hd
  intro f hf
  simp only [List.mem_cons, List.not_mem_nil, or_false] at hf
  rcases hf with rfl | rfl | rfl | rfl
  · exact ⟨0, rfl, fun acc n hn => Reads.bind_pure (readString_quote space_blank e.name n hn)⟩
  · exact ⟨1, rfl, fun acc n hn => Reads.bind_pure (readKind_word e.kind n hn)⟩
  · exact ⟨2, rfl, fun acc n hn => Reads.bind_pure (readType_name e.returnType n hn)⟩
  · exact ⟨3, rfl, fun acc n hn => Reads.bind_pure (readString_quote space_blank e.origin n hn)⟩

/-- A saved form reads back as its record. -/
theorem readRecord_formValue (e : FormEntry) (l : Nat) {bl : List Char}
    (hbl : ∀ b ∈ bl, IsBlank b) (hd : 1 ≤ d) :
    Decodes (d + 1) P (readRecord formRecord) (bl ++ ((formValue e).pretty l).toList)
      (FormRecord.ofEntry e) := by
  refine readRecord_object (r := formRecord) (l := l) hbl
    [("type", .string e.type.name, fun r : FormRecord => { r with type := e.type }),
      ("origin", .string e.origin, fun r : FormRecord => { r with origin := e.origin })]
    (by simp) ?_ (by simp [formRecord]) hd
  intro f hf
  simp only [List.mem_cons, List.not_mem_nil, or_false] at hf
  rcases hf with rfl | rfl
  · exact ⟨0, rfl, fun acc n hn => Reads.bind_pure (readType_name e.type n hn)⟩
  · exact ⟨1, rfl, fun acc n hn => Reads.bind_pure (readString_quote space_blank e.origin n hn)⟩

/-- A saved value opens with its brace. -/
theorem opens_object (fs : List (String × Json.Value)) (l : Nat) :
    Opens ((Json.Value.object fs).pretty l).toList :=
  ⟨'\x7b', _, pretty_object_toList l fs, by simp [IsBlank], by decide⟩

/-- The functions file reads back as the records of the functions. -/
theorem readFunctions_functionsJson (c : Catalog) :
    (readArray (readRecord functionRecord)).run c.functionsJson =
      .ok (c.functions.map fun p => FunctionRecord.ofEntry p.2) := by
  let xs := c.functions.map fun p => (functionValue p.2, FunctionRecord.ofEntry p.2)
  have htext : c.functionsJson.toList = [] ++ ((Json.Value.array (xs.map (·.1))).pretty 0).toList := by
    simp [xs, functionsJson, Json.Value.render, functionValue, Function.comp_def]
  have hel : ∀ x ∈ xs, Decodes 2 (fun _ => True) (readRecord functionRecord)
      (x.1.pretty 1).toList x.2 := by
    intro x hx
    obtain ⟨p, -, rfl⟩ := List.mem_map.1 hx
    have h := readRecord_functionValue (d := 1) (P := fun _ => True) p.2 1 nil_blank
      le_rfl
    rwa [List.nil_append] at h
  have hopen : ∀ x ∈ xs, Opens (x.1.pretty 1).toList := by
    intro x hx
    obtain ⟨p, -, rfl⟩ := List.mem_map.1 hx
    exact opens_object _ 1
  have h := readArray_array (P := fun _ => True) (l := 0) nil_blank
    xs hel hopen (by norm_num)
  rw [← htext] at h
  have hv : xs.map (·.2) = c.functions.map fun p => FunctionRecord.ofEntry p.2 := by
    simp [xs, Function.comp_def]
  rw [← hv]
  exact Decoder.run_of_decodes h (by norm_num) trivial

/-- The globals file reads back as the forms' records under the forms' own
names, when no name is held twice. -/
theorem readGlobals_globalsJson (c : Catalog) (hnames : (c.forms.map (·.2.name)).Nodup) :
    (readObject (readRecord formRecord)).run c.globalsJson =
      .ok (c.forms.map fun p => (p.2.name, FormRecord.ofEntry p.2)) := by
  let fs := c.forms.map fun p => (p.2.name, formValue p.2, FormRecord.ofEntry p.2)
  have htext : c.globalsJson.toList =
      [] ++ ((Json.Value.object (fs.map fun f => (f.1, f.2.1))).pretty 0).toList := by
    simp [fs, globalsJson, Json.Value.render, formValue, Function.comp_def]
  have hval : ∀ f ∈ fs, Decodes 2 (fun _ => True) (readRecord formRecord)
      (' ' :: (f.2.1.pretty 1).toList) f.2.2 := by
    intro f hf
    obtain ⟨p, -, rfl⟩ := List.mem_map.1 hf
    exact readRecord_formValue (d := 1) (P := fun _ => True) p.2 1 space_blank le_rfl
  have hkeys : (fs.map (·.1)).Nodup := by
    simpa [fs, Function.comp_def] using hnames
  have h := readObject_object (P := fun _ => True) (l := 0) nil_blank
    fs hkeys hval (by norm_num)
  rw [← htext] at h
  have hv : (fs.map fun f => (f.1, f.2.2)) = c.forms.map fun p => (p.2.name, FormRecord.ofEntry p.2) := by
    simp [fs, Function.comp_def]
  rw [← hv]
  exact Decoder.run_of_decodes h (by norm_num) trivial

end Read

/-! ## Loaded catalogs -/

section Stored

variable {α : Type} {name : α → String}

/-- A table as loading leaves it: every entry under the folded form of its
own name, no folded name twice, and every name one that passes its check
unchanged. -/
structure Stored (name : α → String) (t : NameTable α) : Prop where
  nodup : (t.map (·.1)).Nodup
  key : ∀ p ∈ t, p.1 = Text.foldCase (name p.2)
  checked : ∀ p ∈ t, checkedName (name p.2) = .ok (name p.2)

theorem Stored.nil : Stored name [] := ⟨List.nodup_nil, by simp, by simp⟩

theorem Stored.keyed {t : NameTable α} (h : Stored name t) : t.Keyed :=
  ⟨h.nodup, fun p hp => by rw [h.key p hp, Text.foldCase_foldCase]⟩

/-- Entering a value under its own checked name keeps a table stored. -/
theorem Stored.insert {t : NameTable α} (h : Stored name t) (e : α)
    (he : checkedName (name e) = .ok (name e)) : Stored name (t.insert (name e) e) := by
  refine ⟨(h.keyed.insert _ _).nodup, ?_, ?_⟩
  · intro p hp
    rcases NameTable.mem_insert hp with hp | rfl
    · exact h.key p hp
    · rfl
  · intro p hp
    rcases NameTable.mem_insert hp with hp | rfl
    · exact h.checked p hp
    · exact he

/-- Distinct folded names are distinct names. -/
theorem Stored.names_nodup {t : NameTable α} (h : Stored name t) : (t.map (name ·.2)).Nodup := by
  have hkeys : (t.map (name ·.2)).map Text.foldCase = t.map (·.1) := by
    rw [List.map_map]
    exact List.map_congr_left fun p hp => (h.key p hp).symm
  exact List.Nodup.of_map Text.foldCase (hkeys ▸ h.nodup)

/-- Entering entries under new names, each under its own name, appends
them. -/
theorem foldl_insert_fresh (acc u : NameTable α) (hkey : ∀ p ∈ u, p.1 = Text.foldCase (name p.2))
    (hnodup : (acc.map (·.1) ++ u.map (·.1)).Nodup) :
    u.foldl (fun t p => t.insert (name p.2) p.2) acc = acc ++ u := by
  induction u generalizing acc with
  | nil => simp
  | cons p u ih =>
    have hp := hkey p List.mem_cons_self
    -- the name is not held yet, so it goes last
    have hnew : acc.any (fun q => q.1 == Text.foldCase (name p.2)) = false := by
      rw [List.map_cons, List.nodup_append] at hnodup
      simp only [List.any_eq_false, beq_iff_eq, ← hp]
      intro q hq hqp
      exact hnodup.2.2 _ (List.mem_map_of_mem hq) _ List.mem_cons_self hqp
    have hins : acc.insert (name p.2) p.2 = acc ++ [p] := by
      unfold NameTable.insert
      dsimp only
      rw [hnew, if_neg Bool.false_ne_true, ← hp]
    rw [List.foldl_cons, hins, ih _ (fun q hq => hkey q (List.mem_cons_of_mem _ hq))
      (by simpa using hnodup)]
    simp

/-- Entering the entries of a stored table one after the other, from an
empty table, rebuilds it. -/
theorem foldl_insert_stored {t : NameTable α} (h : Stored name t) :
    t.foldl (fun (u : NameTable α) p => u.insert (name p.2) p.2) [] = t :=
  foldl_insert_fresh [] t h.key (by simpa using h.nodup)

end Stored

/-- A catalog as loading leaves it: both tables stored. -/
structure Normal (c : Catalog) : Prop where
  functions : Stored FunctionEntry.name c.functions
  forms : Stored FormEntry.name c.forms

section Steps

variable {ε β : Type} {step : Catalog → β → Except ε Catalog}

/-- A loading loop whose every step succeeds is the plain loop of its steps. -/
theorem foldlM_of_ok (g : Catalog → β → Catalog) (xs : List β)
    (h : ∀ c, ∀ x ∈ xs, step c x = .ok (g c x)) (c : Catalog) :
    xs.foldlM step c = .ok (xs.foldl g c) := by
  induction xs generalizing c with
  | nil => rfl
  | cons x xs ih =>
    rw [List.foldlM_cons, h c x List.mem_cons_self, List.foldl_cons]
    exact ih (fun c y hy => h c y (List.mem_cons_of_mem _ hy)) _

/-- What every successful step keeps, a successful loop keeps. -/
theorem foldlM_invariant (inv : Catalog → Prop)
    (h : ∀ c x c', inv c → step c x = .ok c' → inv c') (xs : List β) {c c' : Catalog}
    (hc : inv c) (hrun : xs.foldlM step c = .ok c') : inv c' := by
  induction xs generalizing c with
  | nil =>
    cases hrun
    exact hc
  | cons x xs ih =>
    rw [List.foldlM_cons] at hrun
    cases hx : step c x with
    | error e =>
      rw [hx] at hrun
      cases hrun
    | ok d =>
      rw [hx] at hrun
      exact ih (h c x d hc hx) hrun

end Steps

/-- Loading functions keeps a catalog normal. -/
theorem withFunctions_normal {c c' : Catalog} (hc : c.Normal) {json : String}
    (h : c.withFunctions json = .ok c') : c'.Normal := by
  unfold withFunctions at h
  cases hrun : (readArray (readRecord functionRecord)).run json with
  | error e =>
    rw [hrun] at h
    cases h
  | ok records =>
    rw [hrun] at h
    refine foldlM_invariant Normal ?_ records hc h
    intro d r d' hd hstep
    cases hname : checkedName r.name with
    | error e =>
      rw [hname] at hstep
      cases hstep
    | ok n =>
      rw [hname] at hstep
      cases hstep
      exact ⟨hd.functions.insert ⟨n, r.kind, r.returnType, r.origin⟩
        (checkedName_of_checkedName hname), hd.forms⟩

/-- A catalog loaded from its files is normal. -/
theorem ofJson_normal {functions globals : String} {c : Catalog}
    (h : ofJson functions globals = .ok c) : c.Normal := by
  unfold ofJson at h
  cases hf : empty.withFunctions functions with
  | error e =>
    rw [hf] at h
    cases h
  | ok c₀ =>
    rw [hf] at h
    have hc₀ : c₀.Normal := withFunctions_normal ⟨Stored.nil, Stored.nil⟩ hf
    cases hrun : (readObject (readRecord formRecord)).run globals with
    | error e =>
      rw [hrun] at h
      cases h
    | ok records =>
      rw [hrun] at h
      refine foldlM_invariant Normal ?_ records hc₀ h
      rintro d ⟨k, r⟩ d' hd hstep
      dsimp only at hstep
      cases hname : checkedName k with
      | error e =>
        rw [hname] at hstep
        cases hstep
      | ok n =>
        rw [hname] at hstep
        cases hstep
        exact ⟨hd.functions, hd.forms.insert ⟨n, r.type, r.origin⟩
          (checkedName_of_checkedName hname)⟩

/-- The catalogs loading makes: loaded from two files, then given more
functions any number of times. -/
inductive Loaded : Catalog → Prop
  | ofJson {functions globals : String} {c : Catalog} (h : ofJson functions globals = .ok c) :
      Loaded c
  | withFunctions {c c' : Catalog} (hc : Loaded c) {json : String}
      (h : c.withFunctions json = .ok c') : Loaded c'

theorem Loaded.normal {c : Catalog} (h : c.Loaded) : c.Normal := by
  induction h with
  | ofJson h => exact ofJson_normal h
  | withFunctions _ h ih => exact withFunctions_normal ih h

/-! ## Loading what was saved -/

theorem foldl_addFunction (u : NameTable FunctionEntry) (c : Catalog) :
    u.foldl (fun c p => c.addFunction p.2) c =
      { c with functions := u.foldl (fun t p => t.insert p.2.name p.2) c.functions } := by
  induction u generalizing c with
  | nil => rfl
  | cons p u ih => exact ih _

theorem foldl_addForm (u : NameTable FormEntry) (c : Catalog) :
    u.foldl (fun c p => c.addForm p.2) c =
      { c with forms := u.foldl (fun t p => t.insert p.2.name p.2) c.forms } := by
  induction u generalizing c with
  | nil => rfl
  | cons p u ih => exact ih _

/-- The saved functions load into an empty catalog as the same table. -/
theorem withFunctions_functionsJson {c : Catalog} (h : Stored FunctionEntry.name c.functions) :
    empty.withFunctions c.functionsJson = .ok { functions := c.functions } := by
  unfold withFunctions
  rw [readFunctions_functionsJson]
  show (c.functions.map fun p => FunctionRecord.ofEntry p.2).foldlM _ empty = _
  rw [foldlM_of_ok (fun d r => d.addFunction ⟨r.name, r.kind, r.returnType, r.origin⟩)]
  · -- each record is a function's own fields
    have hstep : (fun (d : Catalog) (p : String × FunctionEntry) =>
        d.addFunction ⟨(FunctionRecord.ofEntry p.2).name, (FunctionRecord.ofEntry p.2).kind,
          (FunctionRecord.ofEntry p.2).returnType, (FunctionRecord.ofEntry p.2).origin⟩) =
        fun d p => d.addFunction p.2 := rfl
    have hempty : empty.functions = [] := rfl
    rw [List.foldl_map, hstep, foldl_addFunction, hempty, foldl_insert_stored h]
    rfl
  · intro d r hr
    obtain ⟨p, hp, rfl⟩ := List.mem_map.1 hr
    show (checkedName p.2.name >>= fun name => _) = _
    rw [h.checked p hp]
    rfl

/-- A loaded catalog loads back from the files it saves to as the same
catalog. -/
theorem ofJson_toJson {c : Catalog} (h : c.Loaded) : ofJson c.toJson.1 c.toJson.2 = .ok c := by
  have hc := h.normal
  unfold ofJson toJson
  dsimp only
  rw [withFunctions_functionsJson hc.functions, readGlobals_globalsJson c hc.forms.names_nodup]
  show (c.forms.map fun p => (p.2.name, FormRecord.ofEntry p.2)).foldlM _
    ({ functions := c.functions } : Catalog) = _
  rw [foldlM_of_ok (fun d x => d.addForm ⟨x.1, x.2.type, x.2.origin⟩)]
  · have hstep : (fun (d : Catalog) (p : String × FormEntry) =>
        d.addForm ⟨(p.2.name, FormRecord.ofEntry p.2).1, (p.2.name, FormRecord.ofEntry p.2).2.type,
          (p.2.name, FormRecord.ofEntry p.2).2.origin⟩) = fun d p => d.addForm p.2 := rfl
    rw [List.foldl_map, hstep, foldl_addForm]
    dsimp only
    rw [foldl_insert_stored hc.forms]
  · intro d x hx
    obtain ⟨p, hp, rfl⟩ := List.mem_map.1 hx
    show (checkedName p.2.name >>= fun name => _) = _
    rw [hc.forms.checked p hp]
    rfl

/-- A load that gives a catalog with these tables gives that catalog. -/
theorem eq_ok_of_tables {e : Except CatalogError Catalog} {c : Catalog}
    (h : e.toOption.map (fun d => (d.functions, d.forms)) = some (c.functions, c.forms)) :
    e = .ok c := by
  cases e with
  | error _ => cases h
  | ok d =>
    simp only [Except.toOption, Option.map_some, Option.some.injEq, Prod.mk.injEq] at h
    cases d
    cases c
    simp_all

theorem ofJson_toJson_extended :
    let c : Catalog := ⟨[("getav", ⟨"getav", .function, .integer, ""⟩)],
      [("playerref", ⟨"PlayerRef", .reference, ""⟩)]⟩
    c.Loaded ∧ ofJson c.toJson.1 c.toJson.2 = .ok c := by
  intro c
  -- loaded with the name trimmed, then replaced in place by another casing
  let c₀ : Catalog := ⟨[("getav", ⟨"GetAV", .command, .unknown, ""⟩)], c.forms⟩
  have hload : ofJson "[\x7b\"name\": \" GetAV \", \"kind\": \"command\"\x7d]"
      "\x7b\"PlayerRef\": \x7b\"type\": \"reference\"\x7d\x7d" = .ok c₀ :=
    eq_ok_of_tables (by decide +kernel)
  have hwith : c₀.withFunctions "[\x7b\"name\": \"getav\", \"returnType\": \"integer\"\x7d]" =
      .ok c :=
    eq_ok_of_tables (by decide +kernel)
  have h : c.Loaded := .withFunctions (.ofJson hload) hwith
  exact ⟨h, ofJson_toJson h⟩

end Catalog

end GameScript
