import Mathlib
import GameScript.Project.SourceKey
/-!
# File ids: each handed out once, until the counter saturates

The registry gives a key with no id the counter's value and moves the counter
on by one, but never past `FileId.last`; it keeps the id of each key and the
key of each id, and `remove` deletes both entries.

* Lookups after each operation: `idOf?_ensure`, `keyOf?_ensure`,
  `idOf?_remove`, `keyOf?_remove`. `ensure` keeps the two tables inverse
  exactly when the counter's id is free (`Inverse.ensure`); `remove` always
  does (`Inverse.remove`).
* `Registry.Tracks r n`: after `n` new ids the counter is `min n FileId.last`,
  every id in use is below `n`, and the tables are inverse. A call keeps it
  as long as it does not hand out an `n`-th id past `FileId.last`
  (`Tracks.perform`).
* Over any run of calls from the empty registry, the `j`-th new id is
  `min j FileId.last` (`handedOut_empty`). So the first `2 ^ 32` new ids are
  distinct, and over a run that hands out no more than that the tables stay
  inverse (`run_inverse_of_handedOut_le`).
* The next one repeats `FileId.last`: ensuring `2 ^ 32 + 1` different keys
  gives the last two the same id, after which the tables are no longer
  inverse (`ensure_repeats_last_id`).
-/

set_option autoImplicit false

namespace GameScript

/-- The saturating increment of a counter that stands at `min n FileId.last`. -/
theorem FileId.following_min (n : Nat) :
    FileId.following (min n FileId.last) = min (n + 1) FileId.last := by
  unfold FileId.following
  dsimp only [FileId]
  omega

namespace Registry

variable {r : Registry} {k : SourceKey} {i : FileId}

/-! ## Lookups after each operation -/

/-- A key holds an id exactly when the id's entry names the key. -/
def Inverse (r : Registry) : Prop := ∀ k i, r.idOf? k = some i ↔ r.keyOf? i = some k

/-- Dropping the entries under `a` hides `a` and nothing else. -/
theorem find?_filter_fst_ne {α β : Type} [BEq α] [LawfulBEq α] [DecidableEq α]
    (l : List (α × β)) (a b : α) :
    (l.filter (·.1 != a)).find? (·.1 == b) = if b = a then none else l.find? (·.1 == b) := by
  induction l with
  | nil => simp
  | cons e l ih => by_cases h1 : e.1 = a <;> by_cases h2 : e.1 = b <;> simp_all

/-- A key that has an id keeps it, and nothing changes. -/
theorem ensure_of_idOf? (h : r.idOf? k = some i) : r.ensure k = (r, i) := by
  simp [ensure, h]

theorem ensure_fresh (h : r.idOf? k = none) :
    r.ensure k =
      ({ nextId := FileId.following r.nextId, ids := r.ids ++ [(k, r.nextId)],
         keys := r.keys.filter (·.1 != r.nextId) ++ [(r.nextId, k)] }, r.nextId) := by
  simp [ensure, h]

theorem idOf?_ensure (h : r.idOf? k = none) (k' : SourceKey) :
    (r.ensure k).1.idOf? k' = if k' = k then some r.nextId else r.idOf? k' := by
  have hnone : r.ids.find? (·.1 == k) = none := by simpa [idOf?] using h
  rw [ensure_fresh h]
  by_cases hk : k' = k
  · subst hk
    simp [idOf?, hnone]
  · have hne : (k == k') = false := by simpa using Ne.symm hk
    simp [idOf?, hk, hne]

theorem keyOf?_ensure (h : r.idOf? k = none) (i : FileId) :
    (r.ensure k).1.keyOf? i = if i = r.nextId then some k else r.keyOf? i := by
  rw [ensure_fresh h]
  simp only [keyOf?, List.find?_append, find?_filter_fst_ne]
  by_cases hi : i = r.nextId
  · subst hi
    simp
  · have hne : (r.nextId == i) = false := by simpa using Ne.symm hi
    simp [hi, hne]

theorem remove_of_idOf? (h : r.idOf? k = some i) :
    r.remove k = ({ r with ids := r.ids.filter (·.1 != k), keys := r.keys.filter (·.1 != i) },
      some i) := by
  simp [remove, h]

theorem remove_of_idOf?_none (h : r.idOf? k = none) : r.remove k = (r, none) := by
  simp [remove, h]

theorem idOf?_remove (h : r.idOf? k = some i) (k' : SourceKey) :
    (r.remove k).1.idOf? k' = if k' = k then none else r.idOf? k' := by
  rw [remove_of_idOf? h]
  simp only [idOf?, find?_filter_fst_ne]
  split <;> rfl

theorem keyOf?_remove (h : r.idOf? k = some i) (i' : FileId) :
    (r.remove k).1.keyOf? i' = if i' = i then none else r.keyOf? i' := by
  rw [remove_of_idOf? h]
  simp only [keyOf?, find?_filter_fst_ne]
  split <;> rfl

/-! ## The tables stay inverse while the counter's id is free -/

/-- Entering a new key keeps the tables inverse when no key holds the
counter's id. -/
theorem Inverse.ensure (hr : r.Inverse) (h : r.idOf? k = none) (hfree : r.keyOf? r.nextId = none) :
    (r.ensure k).1.Inverse := by
  intro k' i'
  rw [idOf?_ensure h, keyOf?_ensure h]
  by_cases hk : k' = k
  · subst hk
    by_cases hi : i' = r.nextId
    · simp [hi]
    · -- the old entry of `i'` cannot name `k'`, which had no id
      have : r.keyOf? i' ≠ some k' := fun he => by simp [(hr k' i').2 he] at h
      simp [hi, Ne.symm hi, this]
  · by_cases hi : i' = r.nextId
    · -- no key held the counter's id, so `k'` does not hold it either
      subst hi
      have : r.idOf? k' ≠ some r.nextId := fun he => by simp [(hr k' _).1 he] at hfree
      simp [hk, this, Ne.symm hk]
    · simp [hk, hi, hr k' i']

/-- Removing a key keeps the tables inverse. -/
theorem Inverse.remove (hr : r.Inverse) : (r.remove k).1.Inverse := by
  cases hid : r.idOf? k with
  | none => rwa [remove_of_idOf?_none hid]
  | some i =>
    have hkey : r.keyOf? i = some k := (hr k i).1 hid
    intro k' i'
    rw [idOf?_remove hid, keyOf?_remove hid]
    by_cases hk : k' = k
    · subst hk
      by_cases hi : i' = i
      · simp [hi]
      · have : r.keyOf? i' ≠ some k' := fun he => hi (by simpa [hid] using ((hr k' i').2 he).symm)
        simp [hi, this]
    · by_cases hi : i' = i
      · subst hi
        have : r.idOf? k' ≠ some i' := fun he => hk (by simpa [hkey] using ((hr k' i').1 he).symm)
        simp [hk, this]
      · simp [hk, hi, hr k' i']

/-! ## Runs of calls -/

/-- A call on the registry. -/
inductive Call where
  | ensure (key : SourceKey)
  | remove (key : SourceKey)

/-- The registry after one call. -/
def perform (r : Registry) : Call → Registry
  | .ensure k => (r.ensure k).1
  | .remove k => (r.remove k).1

/-- The id a call hands out to a key that had none. -/
def newId? (r : Registry) : Call → Option FileId
  | .ensure k => if r.idOf? k = none then some (r.ensure k).2 else none
  | .remove _ => none

/-- The registry after a run of calls. -/
def run (r : Registry) (cs : List Call) : Registry := cs.foldl perform r

/-- The ids a run of calls hands out to keys that had none, in order. -/
def handedOut : Registry → List Call → List FileId
  | _, [] => []
  | r, c :: cs => (r.newId? c).toList ++ handedOut (r.perform c) cs

@[simp] theorem run_nil : run r [] = r := rfl

@[simp] theorem run_cons (c : Call) (cs : List Call) : run r (c :: cs) = run (r.perform c) cs := rfl

theorem run_append (cs ds : List Call) : run r (cs ++ ds) = run (run r cs) ds := by
  simp [run, List.foldl_append]

theorem handedOut_append (cs ds : List Call) :
    handedOut r (cs ++ ds) = handedOut r cs ++ handedOut (run r cs) ds := by
  induction cs generalizing r with
  | nil => rfl
  | cons c cs ih => simp [handedOut, ih]

/-- A call that hands out no id leaves the counter where it is. -/
theorem perform_nextId_of_newId?_none {c : Call} (h : r.newId? c = none) :
    (r.perform c).nextId = r.nextId := by
  cases c with
  | ensure k =>
    cases hid : r.idOf? k with
    | none => simp [newId?, hid] at h
    | some i => simp [perform, ensure_of_idOf? hid]
  | remove k =>
    cases hid : r.idOf? k with
    | none => simp [perform, remove_of_idOf?_none hid]
    | some i => simp [perform, remove_of_idOf? hid]

/-- A call that hands out an id hands out the counter's value, to a key that
had none, and moves the counter on. -/
theorem newId?_eq_some {c : Call} (h : r.newId? c = some i) :
    ∃ k, c = .ensure k ∧ r.idOf? k = none ∧ i = r.nextId ∧
      (r.perform c).nextId = FileId.following r.nextId := by
  cases c with
  | ensure k =>
    by_cases hid : r.idOf? k = none
    · simp only [newId?, hid, ↓reduceIte, ensure_fresh hid, Option.some.injEq] at h
      exact ⟨k, rfl, hid, h.symm, by simp [perform, ensure_fresh hid]⟩
    · simp [newId?, hid] at h
  | remove k => simp [newId?] at h

/-- After `n` new ids, the next one is `min n FileId.last`: over any run, the
new ids count up from there and stop at `FileId.last`. -/
theorem handedOut_counts {n : Nat} (cs : List Call) (hr : r.nextId = min n FileId.last) :
    handedOut r cs = (List.range' n (handedOut r cs).length).map (min · FileId.last) ∧
      (run r cs).nextId = min (n + (handedOut r cs).length) FileId.last := by
  induction cs generalizing r n with
  | nil => simpa [handedOut] using hr
  | cons c cs ih =>
    cases hc : r.newId? c with
    | none =>
      have := ih (r := r.perform c) (n := n) (by rw [perform_nextId_of_newId?_none hc, hr])
      simpa [handedOut, hc] using this
    | some i =>
      obtain ⟨k, -, -, rfl, hnext⟩ := newId?_eq_some hc
      have := ih (r := r.perform c) (n := n + 1) (by rw [hnext, hr, FileId.following_min])
      simp only [handedOut, hc, Option.toList_some, List.singleton_append, List.length_cons,
        run_cons]
      refine ⟨?_, by rw [this.2]; dsimp only [FileId]; congr 1; omega⟩
      rw [List.range'_succ, List.map_cons, ← this.1, hr]

/-- From the empty registry, the `j`-th id handed out to a new key is
`min j FileId.last`. -/
theorem handedOut_empty (cs : List Call) :
    handedOut {} cs = (List.range (handedOut {} cs).length).map (min · FileId.last) := by
  simpa [List.range_eq_range'] using (handedOut_counts (r := {}) (n := 0) cs rfl).1

/-! ## While the counter has not saturated -/

/-- What `n` new ids leave behind: the counter at `min n FileId.last`, every
id in use below `n`, and inverse tables. -/
structure Tracks (r : Registry) (n : Nat) : Prop where
  nextId_eq : r.nextId = min n FileId.last
  lt_of_idOf? : ∀ k i, r.idOf? k = some i → i < n
  inverse : r.Inverse

theorem tracks_empty : Tracks {} 0 where
  nextId_eq := rfl
  lt_of_idOf? _ _ h := by simp [idOf?] at h
  inverse _ _ := by simp [idOf?, keyOf?]

/-- One call keeps `Tracks` unless it hands out an id past `FileId.last`. -/
theorem Tracks.perform {n : Nat} (h : Tracks r n) (c : Call)
    (hle : n + (r.newId? c).toList.length ≤ FileId.last + 1) :
    Tracks (r.perform c) (n + (r.newId? c).toList.length) := by
  cases hc : r.newId? c with
  | some i =>
    obtain ⟨k, rfl, hid, rfl, hnext⟩ := newId?_eq_some hc
    simp only [hc, Option.toList_some, List.length_singleton] at hle ⊢
    -- below the limit the counter's value is `n`, which no key holds
    have hn : r.nextId = n := by rw [h.nextId_eq]; dsimp only [FileId] at *; omega
    have hfree : r.keyOf? r.nextId = none := by
      cases hkey : r.keyOf? r.nextId with
      | none => rfl
      | some k' =>
        have := h.lt_of_idOf? k' _ ((h.inverse k' _).2 hkey)
        dsimp only [FileId] at *
        omega
    refine ⟨by rw [hnext, h.nextId_eq, FileId.following_min], fun k' i' hk' => ?_,
      h.inverse.ensure hid hfree⟩
    rw [Registry.perform, idOf?_ensure hid] at hk'
    split at hk'
    · cases hk'
      dsimp only [FileId] at *
      omega
    · have := h.lt_of_idOf? k' i' hk'
      dsimp only [FileId] at *
      omega
  | none =>
    simp only [Option.toList_none, List.length_nil, Nat.add_zero]
    cases c with
    | ensure k =>
      cases hid : r.idOf? k with
      | none => simp [newId?, hid] at hc
      | some i => simpa [Registry.perform, ensure_of_idOf? hid] using h
    | remove k =>
      refine ⟨by rw [perform_nextId_of_newId?_none hc, h.nextId_eq], fun k' i' hk' => ?_,
        h.inverse.remove⟩
      cases hid : r.idOf? k with
      | none =>
        rw [Registry.perform, remove_of_idOf?_none hid] at hk'
        exact h.lt_of_idOf? k' i' hk'
      | some i =>
        rw [Registry.perform, idOf?_remove hid] at hk'
        split at hk'
        · cases hk'
        · exact h.lt_of_idOf? k' i' hk'

/-- A run that hands out no id past `FileId.last` keeps `Tracks`. -/
theorem Tracks.run {n : Nat} (h : Tracks r n) (cs : List Call)
    (hle : n + (handedOut r cs).length ≤ FileId.last + 1) :
    Tracks (r.run cs) (n + (handedOut r cs).length) := by
  induction cs generalizing r n with
  | nil => simpa [handedOut] using h
  | cons c cs ih =>
    simp only [handedOut, List.length_append] at hle ⊢
    have := ih (h.perform c (by omega)) (by omega)
    rwa [← Nat.add_assoc]

/-- Over a run from the empty registry that hands out at most `2 ^ 32` new
ids, the id tables stay inverse and no new id repeats an earlier one. -/
theorem run_inverse_of_handedOut_le (cs : List Call)
    (h : (handedOut {} cs).length ≤ FileId.last + 1) :
    (run {} cs).Inverse ∧ (handedOut {} cs).Nodup := by
  refine ⟨by simpa using (tracks_empty.run cs (by simpa using h)).inverse, ?_⟩
  rw [handedOut_empty]
  -- below the limit every new id is its own index
  refine (List.nodup_range).map_on fun a ha b hb hab => ?_
  simp only [List.mem_range] at ha hb
  dsimp only [FileId] at *
  omega

/-! ## Past the limit -/

/-- `k`, `kk`, `kkk`, …: a different buffer key for every number. -/
def numberedKey (j : Nat) : SourceKey := .buffer (String.ofList (List.replicate (j + 1) 'k'))

theorem numberedKey_inj {a b : Nat} (h : numberedKey a = numberedKey b) : a = b := by
  simpa [numberedKey] using String.ofList_injective (SourceKey.buffer.inj h)

/-- Ensuring `numberedKey 0`, …, `numberedKey (m - 1)` in turn. -/
def ensureNumbered (m : Nat) : List Call := (List.range m).map fun j => .ensure (numberedKey j)

theorem ensureNumbered_succ (m : Nat) :
    ensureNumbered (m + 1) = ensureNumbered m ++ [.ensure (numberedKey m)] := by
  simp [ensureNumbered, List.range_succ]

/-- After ensuring the first `m` numbered keys, each of them holds the id it
was handed, and the counter is at `min m FileId.last`. -/
theorem run_ensureNumbered (m : Nat) :
    (run {} (ensureNumbered m)).nextId = min m FileId.last ∧
      ∀ j, (run {} (ensureNumbered m)).idOf? (numberedKey j) =
        if j < m then some (min j FileId.last) else none := by
  induction m with
  | zero => exact ⟨rfl, fun j => by simp [ensureNumbered, idOf?]⟩
  | succ m ih =>
    obtain ⟨hnext, hids⟩ := ih
    have hfresh : (run {} (ensureNumbered m)).idOf? (numberedKey m) = none := by simp [hids]
    rw [ensureNumbered_succ, run_append]
    refine ⟨?_, fun j => ?_⟩
    · simp [Registry.perform, ensure_fresh hfresh, hnext, FileId.following_min]
    · simp only [run_cons, run_nil, Registry.perform, idOf?_ensure hfresh, hids, hnext]
      by_cases hj : j = m
      · simp [hj]
      · have : numberedKey j ≠ numberedKey m := fun he => hj (numberedKey_inj he)
        simp only [this, ↓reduceIte]
        split <;> split <;> first | rfl | omega

theorem handedOut_ensureNumbered (m : Nat) :
    handedOut {} (ensureNumbered m) = (List.range m).map (min · FileId.last) := by
  induction m with
  | zero => rfl
  | succ m ih =>
    have hfresh : (run {} (ensureNumbered m)).idOf? (numberedKey m) = none := by
      simp [(run_ensureNumbered m).2]
    rw [ensureNumbered_succ, handedOut_append, ih, List.range_succ, List.map_append]
    simp [handedOut, newId?, hfresh, ensure_fresh hfresh, (run_ensureNumbered m).1]

/-- Ensuring `2 ^ 32 + 1` different keys: the last two are both handed
`FileId.last`, and afterwards both keys hold that id while its entry names
only one of them, so the tables are no longer inverse. -/
theorem ensure_repeats_last_id :
    (handedOut {} (ensureNumbered (FileId.last + 2)))[FileId.last]? = some FileId.last ∧
      (handedOut {} (ensureNumbered (FileId.last + 2)))[FileId.last + 1]? = some FileId.last ∧
      ¬ (run {} (ensureNumbered (FileId.last + 2))).Inverse := by
  refine ⟨by simp [handedOut_ensureNumbered], by simp [handedOut_ensureNumbered], fun hinv => ?_⟩
  -- both keys hold `FileId.last`, so its entry would have to name both
  have hids := (run_ensureNumbered (FileId.last + 2)).2
  have hsat : min (FileId.last + 1) FileId.last = FileId.last := by dsimp only [FileId]; omega
  have h1 := (hinv _ _).1 (hids FileId.last)
  have h2 := (hinv _ _).1 (hids (FileId.last + 1))
  simp only [Nat.min_self, hsat] at h1 h2
  exact absurd (numberedKey_inj (Option.some.inj (h1.symm.trans h2))) (Nat.ne_add_one _)

end Registry

end GameScript
