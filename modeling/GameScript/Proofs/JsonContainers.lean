import Mathlib
import GameScript.Proofs.JsonReads
/-!
# Reading back arrays, objects and records

The writer puts each element of an array and each member of an object on a
line of its own, after a newline and the indentation of its level, with a
comma after every one but the last, and the closing bracket on a line of its
own at the outer level; an empty array or object is `[]` or `\x7b\x7d`. After
the opening bracket that is the text `listed true bl be ts` of the entries'
texts `ts`: each entry after the blanks `bl`, a comma before all but the
first, and the blanks `be` before the closing bracket (`pretty_array_toList`,
`pretty_object_toList`).

The readers take such a text one entry at a time: `nextElement` and
`nextKey` take the comma and the blanks before an entry, or see the closing
bracket after the blanks `be` and stop without taking it. Each loop is proved
to read the whole `listed` text by induction on the entries, and from that
each reader reads what the writer prints (`readArray_array`,
`readObject_object`, `readRecord_object`).
-/

set_option autoImplicit false

namespace GameScript

namespace Json

open Reads

variable {α β : Type}

/-! ## The writer's layout -/

section Layout

/-- Entries as laid out after an opening bracket: each after the blanks `bl`,
a comma before all but the first, and the blanks `be` before the closing
bracket. -/
def listed (first : Bool) (bl be : List Char) : List (List Char) → List Char
  | [] => be
  | t :: ts => (if first then [] else [',']) ++ bl ++ t ++ listed false bl be ts

/-- The text of an object member: the key, a colon and the value's text. -/
def memberText (l : Nat) (m : String × Value) : List Char :=
  (quote m.1).toList ++ ':' :: ' ' :: (m.2.pretty l).toList

theorem listed_cons (first : Bool) (bl be t : List Char) (ts : List (List Char)) :
    listed first bl be (t :: ts) =
      ((if first then [] else [',']) ++ bl) ++ (t ++ listed false bl be ts) := by
  simp [listed]

theorem length_listed_cons (first : Bool) (bl be t : List Char) (ts : List (List Char)) :
    (listed first bl be (t :: ts)).length =
      (if first then 0 else 1) + bl.length + t.length + (listed false bl be ts).length := by
  cases first <;> simp [listed] <;> omega

theorem listed_items (l : Nat) (first : Bool) (be : List Char) (v : Value) (vs : List Value) :
    listed first ('\n' :: (indent l).toList) be ((v :: vs).map fun w => (w.pretty l).toList) =
      (if first then [] else [',']) ++ '\n' :: ((items l (v :: vs)).toList ++ be) := by
  induction vs generalizing v first with
  | nil => simp [listed, items]
  | cons w ws ih =>
    rw [List.map_cons, listed, ih false w]
    simp [items]

theorem listed_members (l : Nat) (first : Bool) (be : List Char) (m : String × Value)
    (ms : List (String × Value)) :
    listed first ('\n' :: (indent l).toList) be ((m :: ms).map (memberText l)) =
      (if first then [] else [',']) ++ '\n' :: ((members l (m :: ms)).toList ++ be) := by
  induction ms generalizing m first with
  | nil => simp [listed, members, memberText]
  | cons m' ms ih =>
    rw [List.map_cons, listed, ih false m']
    simp [members, memberText]

/-- An array's text: its elements one a line, one level deeper. -/
theorem pretty_array_toList (l : Nat) (vs : List Value) :
    ((Value.array vs).pretty l).toList =
      '[' :: (listed true ('\n' :: (indent (l + 1)).toList)
        (if vs = [] then [] else '\n' :: (indent l).toList)
        (vs.map fun w => (w.pretty (l + 1)).toList) ++ [']']) := by
  cases vs with
  | nil => simp [Value.pretty, listed]
  | cons v vs =>
    rw [listed_items]
    simp [Value.pretty]

/-- An object's text: its members one a line, one level deeper. -/
theorem pretty_object_toList (l : Nat) (fs : List (String × Value)) :
    ((Value.object fs).pretty l).toList =
      '\x7b' :: (listed true ('\n' :: (indent (l + 1)).toList)
        (if fs = [] then [] else '\n' :: (indent l).toList)
        (fs.map (memberText (l + 1))) ++ ['\x7d']) := by
  cases fs with
  | nil => simp [Value.pretty, listed]
  | cons m ms =>
    rw [listed_members]
    simp [Value.pretty]

theorem indent_blank (l : Nat) : ∀ b ∈ (indent l).toList, IsBlank b := by
  intro b hb
  simp only [indent, String.toList_ofList, List.mem_replicate] at hb
  exact Or.inl hb.2

theorem newline_indent_blank (l : Nat) : ∀ b ∈ '\n' :: (indent l).toList, IsBlank b := by
  intro b hb
  rcases List.mem_cons.1 hb with rfl | hb
  · exact Or.inr (Or.inl rfl)
  · exact indent_blank l b hb

theorem closing_blank (l : Nat) {γ : Type} (xs : List γ) :
    ∀ b ∈ (if xs = [] then [] else '\n' :: (indent l).toList), IsBlank b := by
  split
  · simp
  · exact newline_indent_blank l

end Layout

/-! ## Arrays -/

section Arrays

variable {d : Nat} {P : List Char → Prop}

/-- A text that starts with what can start an element: neither a blank nor
the closing bracket. -/
def Opens (cs : List Char) : Prop := ∃ c t, cs = c :: t ∧ ¬ IsBlank c ∧ c ≠ ']'

/-- After the last element, or in an empty array, the blanks before the
closing bracket are taken and the bracket is left for the closer. -/
theorem nextElement_close (first : Bool) {be : List Char} (hbe : ∀ b ∈ be, IsBlank b) :
    Reads d (Ahead ']') (nextElement first) be false := by
  unfold nextElement
  rw [← List.append_nil be]
  exact blanks_bind_ahead hbe (by simp [IsBlank]) (fun _ h => h) (Reads.pure false)

/-- Before an element, the comma (unless it is the first) and the blanks are
taken. -/
theorem nextElement_next (first : Bool) {bl : List Char} {c : Char} (hbl : ∀ b ∈ bl, IsBlank b)
    (hc : ¬ IsBlank c) (hc' : c ≠ ']') :
    Reads d (Ahead c) (nextElement first) ((if first then [] else [',']) ++ bl) true := by
  unfold nextElement
  cases first with
  | true =>
    show Reads d (Ahead c) _ bl true
    rw [← List.append_nil bl]
    refine blanks_bind_ahead hbl hc (fun _ h => h) ?_
    split
    · rename_i heq
      cases heq
      exact absurd rfl hc'
    · exact Reads.pure true
    · exact Reads.pure true
    · contradiction
  | false =>
    show Reads d (Ahead c) _ ([] ++ ',' :: bl) true
    refine blanks_bind nil_blank (by simp [IsBlank]) ?_
    apply Reads.skip_bind
    rw [← List.append_nil bl]
    refine blanks_bind_ahead hbl hc (fun _ h => h) ?_
    split
    · rename_i heq
      cases heq
      exact absurd rfl hc'
    · exact Reads.pure true
    · contradiction

theorem closeArray_close : Reads d P closeArray [']'] () := by
  unfold closeArray
  rw [← List.nil_append [']']]
  refine blanks_bind nil_blank (by simp [IsBlank]) ?_
  exact Reads.skip _

section Elements

variable {elem : Decoder β} {bl be : List Char}

/-- The element loop reads the elements' texts as laid out, given fuel
beyond their length. -/
theorem elements_listed (hbl : ∀ b ∈ bl, IsBlank b) (hbl₀ : bl ≠ []) (hbe : ∀ b ∈ be, IsBlank b)
    (xs : List (List Char × β)) (hel : ∀ x ∈ xs, Decodes d (fun _ => True) elem x.1 x.2)
    (hopen : ∀ x ∈ xs, Opens x.1) (first : Bool) (acc : List β) (n : Nat)
    (hn : (listed first bl be (xs.map (·.1))).length < n) :
    Reads d (Ahead ']') (readArray.elements elem n first acc) (listed first bl be (xs.map (·.1)))
      (acc.reverse ++ xs.map (·.2)) := by
  -- the fuel is spent one element at a time, and each element takes a character
  induction xs generalizing first acc n with
  | nil =>
    obtain ⟨n, rfl⟩ : ∃ m, n = m + 1 := ⟨n - 1, by omega⟩
    simp only [List.map_nil, listed, List.append_nil] at hn ⊢
    unfold readArray.elements
    rw [← List.append_nil be]
    refine (nextElement_close first hbe).bind ?_ fun _ h => h
    exact Reads.pure _
  | cons x xs ih =>
    obtain ⟨n, rfl⟩ : ∃ m, n = m + 1 := ⟨n - 1, by omega⟩
    obtain ⟨c, t, hx, hc, hc'⟩ := hopen x List.mem_cons_self
    rw [List.map_cons, length_listed_cons] at hn
    have hbl₁ : 1 ≤ bl.length := List.length_pos_iff.2 hbl₀
    have hx₁ : 1 ≤ x.1.length := by simp [hx]
    have hrest := ih (fun y hy => hel y (List.mem_cons_of_mem _ hy))
      (fun y hy => hopen y (List.mem_cons_of_mem _ hy)) false (x.2 :: acc) n (by omega)
    have hval : acc.reverse ++ (x :: xs).map (·.2) = (x.2 :: acc).reverse ++ xs.map (·.2) := by
      simp
    rw [List.map_cons, listed_cons, hval]
    unfold readArray.elements
    refine (nextElement_next first hbl hc hc').bind ?_ fun r _ => by simp [Ahead, hx]
    show Reads d (Ahead ']') (elem n >>= fun y => readArray.elements elem n false (y :: acc)) _ _
    exact ((hel x List.mem_cons_self) n (by omega)).bind hrest fun _ _ => trivial

end Elements

/-- An array as the writer lays it out reads as its elements, each read by
the element decoder: one level deeper, after any blanks. -/
theorem readArray_array {elem : Decoder β} {l : Nat} {bl : List Char} (hbl : ∀ b ∈ bl, IsBlank b)
    (xs : List (Value × β))
    (hel : ∀ x ∈ xs, Decodes d (fun _ => True) elem (x.1.pretty (l + 1)).toList x.2)
    (hopen : ∀ x ∈ xs, Opens (x.1.pretty (l + 1)).toList) (hd : 1 ≤ d) :
    Decodes (d + 1) P (readArray elem) (bl ++ ((Value.array (xs.map (·.1))).pretty l).toList)
      (xs.map (·.2)) := by
  intro n hn
  -- the loop runs over the elements' texts
  let ys := xs.map fun x => ((x.1.pretty (l + 1)).toList, x.2)
  have hys : (xs.map (·.1)).map (fun w => (w.pretty (l + 1)).toList) = ys.map (·.1) := by
    simp [ys]
  have hv : ([] : List β).reverse ++ ys.map (·.2) = xs.map (·.2) := by simp [ys]
  rw [pretty_array_toList, hys] at hn ⊢
  rw [← hv]
  unfold readArray
  apply Reads.placed
  refine blanks_bind hbl (by simp [IsBlank]) ?_
  have hel' : ∀ y ∈ ys, Decodes d (fun _ => True) elem y.1 y.2 := by
    intro y hy
    obtain ⟨x, hx, rfl⟩ := List.mem_map.1 hy
    exact hel x hx
  have hopen' : ∀ y ∈ ys, Opens y.1 := by
    intro y hy
    obtain ⟨x, hx, rfl⟩ := List.mem_map.1 hy
    exact hopen x hx
  have hloop := elements_listed (newline_indent_blank (l + 1)) (List.cons_ne_nil _ _)
    (closing_blank l (xs.map (·.1))) ys hel' hopen' true [] n
    (by simp only [List.length_append, List.length_cons] at hn; omega)
  refine Reads.bracketed hd hloop closeArray_close ?_
  intro r _
  rfl

end Arrays

/-! ## Objects -/

section Objects

variable {d : Nat} {P : List Char → Prop}

/-- What follows the blanks before a key: the key in quotes. -/
theorem quoted_key {bl : List Char} (hbl : ∀ b ∈ bl, IsBlank b) (k : String) {n : Nat}
    (hn : k.length < n) :
    Reads d P (blanks >>= fun o => match o with
      | some '"' => Json.skip >>= fun _ => readStringBody n >>= fun s => Pure.pure (some s)
      | some '\x7d' => failAhead .trailingComma
      | some _ => failAhead .keyMustBeAString
      | none => failAhead .eofWhileParsingValue) (bl ++ (quote k).toList) (some k) := by
  rw [quote_toList]
  refine blanks_bind hbl (by simp [IsBlank]) ?_
  exact Reads.skip_bind (Reads.bind_pure (readStringBody_quote k hn))

theorem nextKey_next (first : Bool) {bl : List Char} (hbl : ∀ b ∈ bl, IsBlank b) (k : String)
    {n : Nat} (hn : k.length < n) :
    Reads d P (nextKey first n) ((if first then [] else [',']) ++ bl ++ (quote k).toList) (some k) := by
  unfold nextKey
  dsimp only
  cases first with
  | true =>
    rw [quote_toList]
    show Reads d P _ (bl ++ _) _
    refine blanks_bind hbl (by simp [IsBlank]) ?_
    simp only [↓reduceIte]
    rw [← quote_toList, ← List.nil_append (quote k).toList]
    exact quoted_key nil_blank k hn
  | false =>
    show Reads d P _ ([] ++ ',' :: (bl ++ _)) _
    refine blanks_bind nil_blank (by simp [IsBlank]) ?_
    simp only [Bool.false_eq_true, ↓reduceIte]
    exact Reads.skip_bind (quoted_key hbl k hn)
theorem nextKey_close (first : Bool) {be : List Char} (hbe : ∀ b ∈ be, IsBlank b) (n : Nat) :
    Reads d (Ahead '\x7d') (nextKey first n) be none := by
  unfold nextKey
  dsimp only
  rw [← List.append_nil be]
  exact blanks_bind_ahead hbe (by simp [IsBlank]) (fun _ h => h) (Reads.pure none)

theorem colon_colon : Reads d P colon [':'] () := by
  unfold colon
  rw [← List.nil_append [':']]
  refine blanks_bind nil_blank (by simp [IsBlank]) ?_
  exact Reads.skip _

section Entries

variable {value : Decoder β} {bl be : List Char}

/-- The text of an entry: the key in quotes, a colon and the value's text. -/
def entryText (m : String × List Char × β) : List Char := (quote m.1).toList ++ ':' :: m.2.1

theorem length_entryText (m : String × List Char × β) :
    (entryText m).length = (quote m.1).toList.length + 1 + m.2.1.length := by
  simp [entryText]
  omega

/-- An entry's text after the blanks and the comma before it: the key in
quotes, then the colon, then the value. -/
theorem listed_entry (first : Bool) (m : String × List Char × β)
    (ms : List (String × List Char × β)) :
    listed first bl be ((m :: ms).map entryText) =
      ((if first then [] else [',']) ++ bl ++ (quote m.1).toList) ++
        ([':'] ++ (m.2.1 ++ listed false bl be (ms.map entryText))) := by
  simp [listed, entryText]

/-- The entry loop reads entries with distinct keys as laid out, appending
each to what it has read. -/
theorem entries_listed (hbl : ∀ b ∈ bl, IsBlank b) (hbl₀ : bl ≠ []) (hbe : ∀ b ∈ be, IsBlank b)
    (ms : List (String × List Char × β))
    (hval : ∀ m ∈ ms, Decodes d (fun _ => True) value m.2.1 m.2.2) (first : Bool)
    (acc : List (String × β)) (hkeys : (acc.map (·.1) ++ ms.map (·.1)).Nodup) (n : Nat)
    (hn : (listed first bl be (ms.map entryText)).length < n) :
    Reads d (Ahead '\x7d') (readObject.entries value n first acc) (listed first bl be (ms.map entryText))
      (acc ++ ms.map fun m => (m.1, m.2.2)) := by
  induction ms generalizing first acc n with
  | nil =>
    obtain ⟨n, rfl⟩ : ∃ m, n = m + 1 := ⟨n - 1, by omega⟩
    simp only [List.map_nil, listed, List.append_nil] at hn ⊢
    unfold readObject.entries
    rw [← List.append_nil be]
    refine (nextKey_close first hbe n).bind ?_ fun _ h => h
    exact Reads.pure _
  | cons m ms ih =>
    obtain ⟨n, rfl⟩ : ∃ m, n = m + 1 := ⟨n - 1, by omega⟩
    rw [List.map_cons, length_listed_cons, length_entryText] at hn
    have hq := length_lt_quote m.1
    have hbl₁ : 1 ≤ bl.length := List.length_pos_iff.2 hbl₀
    -- the key is new, so the entry goes last
    have hnew : acc.any (fun p => p.1 == m.1) = false := by
      rw [List.map_cons, List.nodup_append] at hkeys
      simp only [List.any_eq_false, beq_iff_eq]
      intro p hp hpm
      exact hkeys.2.2 _ (List.mem_map_of_mem hp) _ List.mem_cons_self hpm
    have hval' : acc ++ (m :: ms).map (fun m => (m.1, m.2.2)) =
        (acc ++ [(m.1, m.2.2)]) ++ ms.map fun m => (m.1, m.2.2) := by simp
    rw [listed_entry, hval']
    unfold readObject.entries
    refine (nextKey_next (P := fun _ => True) first hbl m.1 (by omega)).bind ?_ fun _ _ => trivial
    dsimp only
    refine (colon_colon (P := fun _ => True)).bind ?_ fun _ _ => trivial
    have hv : Reads d (fun _ => True) (value n) m.2.1 m.2.2 := hval m List.mem_cons_self n (by omega)
    refine hv.bind ?_ fun _ _ => trivial
    rw [hnew, if_neg Bool.false_ne_true]
    exact ih (fun m' hm' => hval m' (List.mem_cons_of_mem _ hm')) false _
      (by simpa using hkeys) n (by omega)

end Entries

theorem closeObject_close : Reads d P closeObject ['\x7d'] () := by
  unfold closeObject
  rw [← List.nil_append ['\x7d']]
  refine blanks_bind nil_blank (by simp [IsBlank]) ?_
  exact Reads.skip _

/-- An object as the writer lays it out, with its keys distinct, reads as
its members, each value read by the value decoder: one level deeper, after
any blanks. -/
theorem readObject_object {value : Decoder β} {l : Nat} {bl : List Char}
    (hbl : ∀ b ∈ bl, IsBlank b) (fs : List (String × Value × β)) (hkeys : (fs.map (·.1)).Nodup)
    (hval : ∀ f ∈ fs, Decodes d (fun _ => True) value (' ' :: (f.2.1.pretty (l + 1)).toList) f.2.2)
    (hd : 1 ≤ d) :
    Decodes (d + 1) P (readObject value)
      (bl ++ ((Value.object (fs.map fun f => (f.1, f.2.1))).pretty l).toList)
      (fs.map fun f => (f.1, f.2.2)) := by
  intro n hn
  -- the loop runs over the keys and the values' texts
  let ms := fs.map fun f => (f.1, ' ' :: (f.2.1.pretty (l + 1)).toList, f.2.2)
  have hms : (fs.map fun f => (f.1, f.2.1)).map (memberText (l + 1)) = ms.map entryText := by
    simp [ms, memberText, entryText]
  have hv : [] ++ ms.map (fun m => (m.1, m.2.2)) = fs.map fun f => (f.1, f.2.2) := by simp [ms]
  have hval' : ∀ m ∈ ms, Decodes d (fun _ => True) value m.2.1 m.2.2 := by
    intro m hm
    obtain ⟨f, hf, rfl⟩ := List.mem_map.1 hm
    exact hval f hf
  rw [pretty_object_toList, hms] at hn ⊢
  rw [← hv]
  unfold readObject
  apply Reads.placed
  refine blanks_bind hbl (by simp [IsBlank]) ?_
  have hloop := entries_listed (newline_indent_blank (l + 1)) (List.cons_ne_nil _ _)
    (closing_blank l (fs.map fun f => (f.1, f.2.1))) ms hval' true []
    (by simpa [ms, Function.comp_def] using hkeys) n
    (by simp only [List.length_append, List.length_cons] at hn; omega)
  refine Reads.bracketed hd hloop closeObject_close ?_
  intro r _
  rfl

end Objects

/-! ## Records -/

section Records

variable {d : Nat} {P : List Char → Prop}

/-- Two keys found at one place of a list are the same key. -/
theorem eq_of_idxOf?_eq_some {l : List String} {a b : String} {i : Nat}
    (ha : l.idxOf? a = some i) (hb : l.idxOf? b = some i) : a = b := by
  obtain ⟨_, ha, -⟩ := List.idxOf?_eq_some_iff.1 ha
  obtain ⟨_, hb, -⟩ := List.idxOf?_eq_some_iff.1 hb
  exact ha.symm.trans hb

theorem idxOf_of_idxOf?_eq_some {l : List String} {a : String} {i : Nat}
    (h : l.idxOf? a = some i) : l.idxOf a = i := by
  rw [List.idxOf_eq_getD_idxOf?, h]
  rfl

section ByKey

variable {r : Record α} {bl be : List Char}

/-- The member loop of a record reads members with distinct known keys as
laid out, each read into the record by its field's reader; the fields it has
seen are `seen`, and every required field is among them by the end. -/
theorem byKey_listed (hbl : ∀ b ∈ bl, IsBlank b) (hbl₀ : bl ≠ []) (hbe : ∀ b ∈ be, IsBlank b)
    (ms : List (String × List Char × (α → α)))
    (hfield : ∀ m ∈ ms, ∃ i, r.fields.idxOf? m.1 = some i ∧
      ∀ acc, Decodes d (fun _ => True) (r.readField i acc) m.2.1 (m.2.2 acc))
    (hkeys : (ms.map (·.1)).Nodup) (first : Bool) (acc : α) (seen : List Nat)
    (hseen : ∀ m ∈ ms, ∀ i, r.fields.idxOf? m.1 = some i → i ∉ seen)
    (hreq : ∀ f ∈ r.fields, r.required f = true → r.fields.idxOf f ∈ seen ∨ f ∈ ms.map (·.1))
    (n : Nat) (hn : (listed first bl be (ms.map entryText)).length < n) :
    Reads d (Ahead '\x7d') (readRecord.byKey r n first acc seen) (listed first bl be (ms.map entryText))
      (ms.foldl (fun acc m => m.2.2 acc) acc) := by
  induction ms generalizing first acc seen n with
  | nil =>
    obtain ⟨n, rfl⟩ : ∃ m, n = m + 1 := ⟨n - 1, by omega⟩
    -- every required field has been seen
    have hmissing : r.fields.find? (fun f => r.required f && !seen.contains (r.fields.idxOf f)) =
        none := by
      rw [List.find?_eq_none]
      intro f hf
      have := hreq f hf
      cases hf' : r.required f <;> simp_all
    simp only [List.map_nil, listed, List.foldl_nil] at hn ⊢
    unfold readRecord.byKey
    rw [← List.append_nil be]
    refine (nextKey_close first hbe n).bind ?_ fun _ h => h
    dsimp only
    rw [hmissing]
    exact Reads.pure _
  | cons m ms ih =>
    obtain ⟨n, rfl⟩ : ∃ m, n = m + 1 := ⟨n - 1, by omega⟩
    obtain ⟨i, hi, hread⟩ := hfield m List.mem_cons_self
    rw [List.map_cons, length_listed_cons, length_entryText] at hn
    have hq := length_lt_quote m.1
    have hbl₁ : 1 ≤ bl.length := List.length_pos_iff.2 hbl₀
    -- the field is seen for the first time
    have hfresh : seen.contains i = false := by
      simpa using hseen m List.mem_cons_self i hi
    have hkeys' := List.nodup_cons.1 (List.map_cons ▸ hkeys)
    have hseen' : ∀ m' ∈ ms, ∀ i', r.fields.idxOf? m'.1 = some i' → i' ∉ i :: seen := by
      intro m' hm' i' hi' hmem
      rcases List.mem_cons.1 hmem with rfl | hmem
      · exact hkeys'.1 (eq_of_idxOf?_eq_some hi' hi ▸ List.mem_map_of_mem hm')
      · exact hseen m' (List.mem_cons_of_mem _ hm') i' hi' hmem
    have hreq' : ∀ f ∈ r.fields, r.required f = true →
        r.fields.idxOf f ∈ i :: seen ∨ f ∈ ms.map (·.1) := by
      intro f hf hfr
      rcases hreq f hf hfr with h | h
      · exact Or.inl (List.mem_cons_of_mem _ h)
      · rcases List.mem_cons.1 (List.map_cons ▸ h) with rfl | h
        · exact Or.inl (idxOf_of_idxOf?_eq_some hi ▸ List.mem_cons_self)
        · exact Or.inr h
    rw [listed_entry, List.foldl_cons]
    unfold readRecord.byKey
    refine (nextKey_next (P := fun _ => True) first hbl m.1 (by omega)).bind ?_ fun _ _ => trivial
    dsimp only
    rw [hi]
    dsimp only
    rw [hfresh, if_neg Bool.false_ne_true]
    refine (colon_colon (P := fun _ => True)).bind ?_ fun _ _ => trivial
    have hv : Reads d (fun _ => True) (r.readField i acc n) m.2.1 (m.2.2 acc) :=
      hread acc n (by omega)
    refine hv.bind ?_ fun _ _ => trivial
    exact ih (fun m' hm' => hfield m' (List.mem_cons_of_mem _ hm')) hkeys'.2 false _ _ hseen'
      hreq' n (by omega)

end ByKey

/-- A record written as an object, its members known fields with distinct
keys and every required field among them, reads as the defaults updated by
each member in turn: one level deeper, after any blanks. -/
theorem readRecord_object {r : Record α} {l : Nat} {bl : List Char} (hbl : ∀ b ∈ bl, IsBlank b)
    (fs : List (String × Value × (α → α))) (hkeys : (fs.map (·.1)).Nodup)
    (hfield : ∀ f ∈ fs, ∃ i, r.fields.idxOf? f.1 = some i ∧
      ∀ acc, Decodes d (fun _ => True) (r.readField i acc) (' ' :: (f.2.1.pretty (l + 1)).toList)
        (f.2.2 acc))
    (hreq : ∀ f ∈ r.fields, r.required f = true → f ∈ fs.map (·.1)) (hd : 1 ≤ d) :
    Decodes (d + 1) P (readRecord r)
      (bl ++ ((Value.object (fs.map fun f => (f.1, f.2.1))).pretty l).toList)
      (fs.foldl (fun acc f => f.2.2 acc) r.defaults) := by
  intro n hn
  -- the loop runs over the keys and the values' texts
  let ms := fs.map fun f => (f.1, ' ' :: (f.2.1.pretty (l + 1)).toList, f.2.2)
  have hms : (fs.map fun f => (f.1, f.2.1)).map (memberText (l + 1)) = ms.map entryText := by
    simp [ms, memberText, entryText]
  have hkeys' : ms.map (·.1) = fs.map (·.1) := by simp [ms, Function.comp_def]
  have hv : ms.foldl (fun acc m => m.2.2 acc) r.defaults = fs.foldl (fun acc f => f.2.2 acc) r.defaults := by
    simp [ms, List.foldl_map]
  have hfield' : ∀ m ∈ ms, ∃ i, r.fields.idxOf? m.1 = some i ∧
      ∀ acc, Decodes d (fun _ => True) (r.readField i acc) m.2.1 (m.2.2 acc) := by
    intro m hm
    obtain ⟨f, hf, rfl⟩ := List.mem_map.1 hm
    exact hfield f hf
  rw [pretty_object_toList, hms] at hn ⊢
  rw [← hv]
  unfold readRecord
  apply Reads.placed
  refine blanks_bind hbl (by simp [IsBlank]) ?_
  have hloop := byKey_listed (newline_indent_blank (l + 1)) (List.cons_ne_nil _ _)
    (closing_blank l (fs.map fun f => (f.1, f.2.1))) ms hfield' (hkeys' ▸ hkeys) true
    r.defaults [] (by simp) (fun f hf hfr => Or.inr (hkeys' ▸ hreq f hf hfr)) n
    (by simp only [List.length_append, List.length_cons] at hn; omega)
  refine Reads.bracketed hd hloop closeObject_close ?_
  intro r _
  rfl

end Records

end Json

end GameScript
