import Mathlib
import GameScript.Json.Reader
import GameScript.Json.Pretty
/-!
# Reading back what the JSON writer prints

The JSON reader is a state machine over the unread characters; the writer
lays a value out on indented lines. This file sets up what it means for a
reader to read a given text and proves it for the writer's strings; arrays,
objects and records follow in `GameScript.Proofs.JsonContainers`.

Everything is stated through `Reads d next x cs v`: run on a text that starts
with `cs`, at a nesting depth of at least `d`, the reader `x` takes exactly
the characters `cs` and yields `v`, whatever follows as long as `next`
accepts it. `next` is there because a reader may look one character past
what it takes (an object's entries stop at the `}` that its closer takes).
Readers compose (`Reads.bind`), and each reader of the JSON module gets one
lemma saying what it takes of the writer's text; for strings that is
`readString_quote`, and for the name of a variant `readVariant_quote`. A
decoder is given fuel; it reads a text whenever its fuel exceeds the text's
length, since each unit of fuel is spent after a character has been taken
(`Decodes`).
-/

set_option autoImplicit false

namespace GameScript

namespace Json

variable {α β : Type}

/-! ## Running readers -/

section Run

@[simp] theorem advance_rest (i : Input) : i.advance.rest = i.rest.tail := by
  unfold Input.advance
  split
  · rename_i h
    split <;> simp [h]
  · rename_i h
    simp [h]

@[simp] theorem advance_depth (i : Input) : i.advance.depth = i.depth := by
  unfold Input.advance
  split
  · split <;> rfl
  · rfl

/-- Advancing once for each element of a list takes that many characters. -/
theorem foldl_advance (l : List β) (i : Input) :
    (l.foldl (fun acc _ => acc.advance) i).rest = i.rest.drop l.length ∧
      (l.foldl (fun acc _ => acc.advance) i).depth = i.depth := by
  induction l generalizing i with
  | nil => simp
  | cons x l ih =>
    obtain ⟨h1, h2⟩ := ih i.advance
    refine ⟨?_, ?_⟩
    · rw [List.foldl_cons, h1, advance_rest, List.length_cons, List.drop_tail]
    · rw [List.foldl_cons, h2, advance_depth]

theorem run_bind (x : Reader α) (f : α → Reader β) (i : Input) :
    (x >>= f).run.run i = match x.run.run i with
      | (.ok a, j) => (f a).run.run j
      | (.error e, j) => (.error e, j) := by
  simp only [ExceptT.run_bind, StateT.run_bind]
  rcases x.run.run i with ⟨_ | a, j⟩ <;> rfl

theorem run_tryCatch (x : Reader α) (f : Error → Reader α) (i : Input) :
    (tryCatch x f).run.run i = match x.run.run i with
      | (.ok a, j) => (.ok a, j)
      | (.error e, j) => (f e).run.run j := by
  show (ExceptT.tryCatch x f).run.run i = _
  simp only [ExceptT.tryCatch, ExceptT.run_mk, StateT.run_bind]
  have hx : StateT.run x i = x.run.run i := rfl
  rw [hx]
  rcases x.run.run i with ⟨_ | a, j⟩ <;> rfl

theorem run_get (i : Input) : (get : Reader Input).run.run i = (.ok i, i) := rfl

/-- Opening a bracket below the depth limit takes the bracket, one level
deeper. -/
theorem run_enter (i : Input) (h : ¬ i.depth ≤ 1) :
    enter.run.run i = (.ok (), { i with depth := i.depth - 1 }.advance) := by
  unfold enter
  rw [run_bind, run_get]
  dsimp only
  rw [if_neg h]
  rfl

end Run

/-! ## What a reader takes -/

/-- Run at a depth of at least `d` on a text that starts with `cs` and goes
on with something `next` accepts, `x` takes exactly `cs`, yields `v` and
leaves the depth as it was. -/
def Reads (d : Nat) (next : List Char → Prop) (x : Reader α) (cs : List Char) (v : α) : Prop :=
  ∀ (i : Input) (rest : List Char), i.rest = cs ++ rest → next rest → d ≤ i.depth →
    ∃ j : Input, x.run.run i = (.ok v, j) ∧ j.rest = rest ∧ j.depth = i.depth

/-- A decoder reads `cs` as `v` with any fuel beyond the length of `cs`. -/
def Decodes (d : Nat) (next : List Char → Prop) (dec : Decoder α) (cs : List Char) (v : α) : Prop :=
  ∀ n, cs.length < n → Reads d next (dec n) cs v

namespace Reads

variable {d : Nat} {P Q : List Char → Prop}

theorem pure (v : α) : Reads d P (Pure.pure v) [] v :=
  fun i rest hi _ _ => ⟨i, rfl, by simpa using hi, rfl⟩

/-- A reader followed by another takes what the first takes and then what
the second takes; the second's text must suit the first's look-ahead. -/
theorem bind {x : Reader α} {f : α → Reader β} {cs cs' : List Char} {a : α} {b : β}
    (hx : Reads d P x cs a) (hf : Reads d Q (f a) cs' b) (hnext : ∀ r, Q r → P (cs' ++ r)) :
    Reads d Q (x >>= f) (cs ++ cs') b := by
  intro i rest hi hq hd
  obtain ⟨j, hrun, hj, hjd⟩ := hx i (cs' ++ rest) (by rw [hi, List.append_assoc]) (hnext rest hq) hd
  obtain ⟨k, hrun', hk, hkd⟩ := hf j rest hj hq (by omega)
  refine ⟨k, ?_, hk, by omega⟩
  rw [run_bind, hrun]
  exact hrun'

theorem mono {x : Reader α} {cs : List Char} {v : α} (h : Reads d P x cs v)
    {d' : Nat} (hd : d ≤ d') (hPQ : ∀ r, Q r → P r) : Reads d' Q x cs v :=
  fun i rest hi hq hd' => h i rest hi (hPQ rest hq) (by omega)

theorem map {x : Reader α} {g : α → β} {cs : List Char} {a : α} (h : Reads d P x cs a) :
    Reads d P (g <$> x) cs (g a) := by
  intro i rest hi hp hd
  obtain ⟨j, hrun, hj, hjd⟩ := h i rest hi hp hd
  refine ⟨j, ?_, hj, hjd⟩
  simp only [ExceptT.run_map, StateT.run_map, hrun]
  rfl

theorem skip (c : Char) : Reads d P Json.skip [c] () := by
  intro i rest hi _ _
  refine ⟨i.advance, rfl, by simp [hi], advance_depth i⟩

/-- The text that follows starts with `c`: what a reader that looks one
character ahead needs. -/
def Ahead (c : Char) (r : List Char) : Prop := r.head? = some c

/-- A reader that looks at the next character goes on as that character
says, whether it is the reader's own or the first of what follows. -/
theorem peek_bind_ahead {f : Option Char → Reader α} {c : Char} {cs : List Char} {v : α}
    (hhead : ∀ r, P r → (cs ++ r).head? = some c) (h : Reads d P (f (some c)) cs v) :
    Reads d P (peek >>= f) cs v := by
  intro i rest hi hp hd
  obtain ⟨j, hrun, hj, hjd⟩ := h i rest hi hp hd
  refine ⟨j, ?_, hj, hjd⟩
  have hpeek : peek.run.run i = (.ok i.rest.head?, i) := rfl
  rw [hi, hhead rest hp] at hpeek
  rw [run_bind, hpeek]
  exact hrun

theorem peek_bind {f : Option Char → Reader α} {c : Char} {cs : List Char} {v : α}
    (h : Reads d P (f (some c)) (c :: cs) v) : Reads d P (peek >>= f) (c :: cs) v :=
  peek_bind_ahead (fun _ _ => rfl) h

/-- The blanks JSON allows between tokens. -/
def IsBlank (c : Char) : Prop := c = ' ' ∨ c = '\n' ∨ c = '\t' ∨ c = '\r'

theorem nil_blank : ∀ b ∈ ([] : List Char), IsBlank b := fun _ h => absurd h List.not_mem_nil

/-- Skipping blanks passes a run of blanks and stops at the character after
it, whether that is the reader's own or the first of what follows. -/
theorem blanks_bind_ahead {f : Option Char → Reader α} {bl cs : List Char} {c : Char} {v : α}
    (hbl : ∀ b ∈ bl, IsBlank b) (hc : ¬ IsBlank c) (hhead : ∀ r, P r → (cs ++ r).head? = some c)
    (h : Reads d P (f (some c)) cs v) : Reads d P (blanks >>= f) (bl ++ cs) v := by
  intro i rest hi hp hd
  obtain ⟨t, ht⟩ := List.head?_eq_some_iff.1 (hhead rest hp)
  let p : Char → Bool := fun c => c == ' ' || c == '\n' || c == '\t' || c == '\r'
  have hbl' : ∀ b ∈ bl, p b = true := by
    intro b hb
    rcases hbl b hb with rfl | rfl | rfl | rfl <;> rfl
  have hc' : p c = false := by
    simp only [IsBlank, not_or] at hc
    simp [p, hc.1, hc.2.1, hc.2.2.1, hc.2.2.2]
  -- the blanks taken are exactly `bl`
  have htake : i.rest.takeWhile p = bl := by
    rw [hi, List.append_assoc, List.takeWhile_append_of_pos hbl', ht,
      List.takeWhile_cons_of_neg (by simp [hc']), List.append_nil]
  obtain ⟨hrest, hdepth⟩ := foldl_advance (i.rest.takeWhile p) i
  let i' := (i.rest.takeWhile p).foldl (fun acc _ => acc.advance) i
  have hi' : i'.rest = cs ++ rest := by
    rw [hrest, htake, hi, List.append_assoc, List.drop_left]
  obtain ⟨j, hrun, hj, hjd⟩ := h i' rest hi' hp (by rw [hdepth]; exact hd)
  refine ⟨j, ?_, hj, by rw [hjd, hdepth]⟩
  have hblanks : blanks.run.run i = (.ok i'.rest.head?, i') := rfl
  rw [hi', hhead rest hp] at hblanks
  rw [run_bind, hblanks]
  exact hrun

theorem blanks_bind {f : Option Char → Reader α} {bl cs : List Char} {c : Char} {v : α}
    (hbl : ∀ b ∈ bl, IsBlank b) (hc : ¬ IsBlank c) (h : Reads d P (f (some c)) (c :: cs) v) :
    Reads d P (blanks >>= f) (bl ++ c :: cs) v :=
  blanks_bind_ahead hbl hc (fun _ _ => rfl) h

theorem placed {x : Reader α} {cs : List Char} {v : α} (h : Reads d P x cs v) :
    Reads d P (Json.placed x) cs v := by
  intro i rest hi hp hd
  obtain ⟨j, hrun, hj, hjd⟩ := h i rest hi hp hd
  exact ⟨j, by rw [Json.placed, run_tryCatch, hrun], hj, hjd⟩

theorem attempt {x : Reader α} {cs : List Char} {v : α} (h : Reads d P x cs v) :
    Reads d P (Json.attempt x) cs (.ok v) := by
  intro i rest hi hp hd
  obtain ⟨j, hrun, hj, hjd⟩ := h i rest hi hp hd
  refine ⟨j, ?_, hj, hjd⟩
  rw [Json.attempt, run_tryCatch]
  simp only [ExceptT.run_map, StateT.run_map, hrun]
  rfl

/-- A bracketed value: the opening bracket, the contents one level deeper,
then the closer back at the outer level. -/
theorem bracketed {contents : Reader α} {closer : Reader Unit} {o : Char} {cs cs' : List Char}
    {v : α} (hd : 1 ≤ d) (hc : Reads d P contents cs v) (hk : Reads (d + 1) Q closer cs' ())
    (hnext : ∀ r, Q r → P (cs' ++ r)) :
    Reads (d + 1) Q (Json.bracketed contents closer) (o :: cs ++ cs') v := by
  intro i rest hi hq hdep
  -- the bracket is taken one level deeper
  have henter := run_enter i (by omega)
  let i₁ := ({ i with depth := i.depth - 1 } : Input).advance
  have hi₁ : i₁.rest = cs ++ (cs' ++ rest) := by
    simp [i₁, hi]
  obtain ⟨j₁, hrun₁, hj₁, hjd₁⟩ := (attempt hc) i₁ (cs' ++ rest) hi₁ (hnext rest hq)
    (by simp [i₁]; omega)
  -- back at the outer level for the closer
  let j₂ : Input := { j₁ with depth := j₁.depth + 1 }
  obtain ⟨j₃, hrun₃, hj₃, hjd₃⟩ := (attempt hk) j₂ rest (by simp [j₂, hj₁]) hq
    (by simp [j₂, hjd₁, i₁]; omega)
  refine ⟨j₃, ?_, hj₃, ?_⟩
  · rw [Json.bracketed, run_bind, henter]
    dsimp only
    rw [run_bind, hrun₁]
    dsimp only
    rw [run_bind]
    have hleave : leave.run.run j₁ = (.ok (), j₂) := rfl
    rw [hleave]
    dsimp only
    rw [run_bind, hrun₃]
    rfl
  · simp [hjd₃, j₂, hjd₁, i₁]
    omega

/-- A reader whose value is passed on, changed. -/
theorem bind_pure {x : Reader α} {g : α → β} {cs : List Char} {a : α} (h : Reads d P x cs a) :
    Reads d P (x >>= fun a => Pure.pure (g a)) cs (g a) := by
  have := Reads.bind (f := fun a => Pure.pure (g a)) (Q := P) h (Reads.pure (g a)) fun _ h => h
  rwa [List.append_nil] at this

/-- Taking one character and going on. -/
theorem skip_bind {x : Reader α} {c : Char} {cs : List Char} {v : α} (h : Reads d P x cs v) :
    Reads d P (Json.skip >>= fun _ => x) (c :: cs) v :=
  (Reads.skip (P := fun _ => True) c).bind h fun _ _ => trivial

end Reads

/-- A decoder that reads a whole text, with nothing after it, is what
reading that text gives. -/
theorem Decoder.run_of_decodes {dec : Decoder α} {text : String} {v : α} {d : Nat}
    {P : List Char → Prop} (h : Decodes d P dec text.toList v) (hd : d ≤ 128) (hP : P []) :
    dec.run text = .ok v := by
  unfold Decoder.run
  dsimp only
  obtain ⟨j, hrun, hj, -⟩ := h (fuelFor text.toList.length) (by unfold fuelFor; omega)
    { rest := text.toList } [] (by simp) hP hd
  -- at the end of the text no blank and no character is left
  have hblanks : blanks.run.run j = (.ok none, j) := by
    obtain ⟨rest, line, column, depth⟩ := j
    simp only at hj
    subst hj
    rfl
  rw [run_bind, hrun]
  dsimp only
  rw [run_bind, hblanks]
  rfl

/-! ## Strings -/

section Strings

variable {d : Nat} {P : List Char → Prop}

theorem hexValue?_hexDigit : ∀ k < 16, hexValue? (hexDigit k) = some k := by decide

/-- How the writer writes a character inside a string: as itself, as a
backslash and a letter, or as a `\u` escape of its code. -/
theorem escapeChar_cases (c : Char) :
    (escapeChar c = [c] ∧ c ≠ '"' ∧ c ≠ '\\' ∧ 0x20 ≤ c.toNat) ∨
    (∃ e, escapeChar c = ['\\', e] ∧ e ≠ 'u' ∧ simpleEscape? e = some c) ∨
    (escapeChar c = ['\\', 'u', '0', '0', hexDigit (c.toNat / 16), hexDigit (c.toNat % 16)] ∧
      c.toNat < 0x20) := by
  unfold escapeChar
  split
  · exact Or.inr (Or.inl ⟨'"', rfl, by decide, rfl⟩)
  · exact Or.inr (Or.inl ⟨'\\', rfl, by decide, rfl⟩)
  · exact Or.inr (Or.inl ⟨'b', rfl, by decide, rfl⟩)
  · exact Or.inr (Or.inl ⟨'f', rfl, by decide, rfl⟩)
  · exact Or.inr (Or.inl ⟨'n', rfl, by decide, rfl⟩)
  · exact Or.inr (Or.inl ⟨'r', rfl, by decide, rfl⟩)
  · exact Or.inr (Or.inl ⟨'t', rfl, by decide, rfl⟩)
  · rename_i hquote hslash _ _ _ _ _
    split
    · exact Or.inr (Or.inr ⟨rfl, by assumption⟩)
    · exact Or.inl ⟨rfl, hquote, hslash, by omega⟩

theorem length_le_flatMap_escapeChar (s : List Char) : s.length ≤ (s.flatMap escapeChar).length := by
  induction s with
  | nil => rfl
  | cons c s ih =>
    have : 1 ≤ (escapeChar c).length := by
      rcases escapeChar_cases c with ⟨h, -⟩ | ⟨e, h, -⟩ | ⟨h, -⟩ <;> simp [h]
    simp only [List.flatMap_cons, List.length_append, List.length_cons]
    omega

/-- Four hexadecimal digits are read as their value. -/
theorem readHex4_reads {a b c e : Char} {w x y z : Nat} (ha : hexValue? a = some w)
    (hb : hexValue? b = some x) (hc : hexValue? c = some y) (he : hexValue? e = some z) :
    Reads d P readHex4 [a, b, c, e] (((w * 16 + x) * 16 + y) * 16 + z) := by
  intro i rest hi _ _
  refine ⟨i.advance.advance.advance.advance, ?_, by simp [hi], by simp⟩
  have hbytes : ¬ (i.rest.take 4).foldl (fun n c => n + c.utf8Size) 0 < 4 := by
    have := Char.utf8Size_pos a
    have := Char.utf8Size_pos b
    have := Char.utf8Size_pos c
    have := Char.utf8Size_pos e
    simp only [hi, List.cons_append, List.take_succ_cons, List.take_zero, List.foldl_cons,
      List.foldl_nil]
    omega
  unfold readHex4
  rw [run_bind, run_get]
  dsimp only
  rw [if_neg hbytes]
  simp only [hi, List.cons_append, ha, hb, hc, he]
  rfl

/-- A `\u` escape of a control character reads as that character. -/
theorem readUnicodeEscape_control {k : Nat} (hk : k < 0x20) :
    Reads d P readUnicodeEscape ['0', '0', hexDigit (k / 16), hexDigit (k % 16)] (Char.ofNat k) := by
  have hhex := readHex4_reads (d := d) (P := fun _ => True) (show hexValue? '0' = some 0 from rfl)
    (show hexValue? '0' = some 0 from rfl) (hexValue?_hexDigit (k / 16) (by omega))
    (hexValue?_hexDigit (k % 16) (by omega))
  have hval : ((0 * 16 + 0) * 16 + k / 16) * 16 + k % 16 = k := by omega
  rw [hval] at hhex
  unfold readUnicodeEscape
  refine hhex.bind ?_ fun _ _ => trivial
  -- a control character is neither half of a surrogate pair
  have hrange : (decide (0xDC00 ≤ k) && decide (k ≤ 0xDFFF)) = false := by simp; omega
  have hlow : (decide (k < 0xD800) || decide (k > 0xDBFF)) = true := by simp; omega
  rw [hrange, hlow, if_neg Bool.false_ne_true, if_pos rfl]
  exact Reads.pure _

/-- A backslash and a letter read as the character the letter stands for. -/
theorem readEscape_simple {e c : Char} (hu : e ≠ 'u') (h : simpleEscape? e = some c) :
    Reads d P readEscape [e] c := by
  unfold readEscape
  apply Reads.peek_bind
  split
  · contradiction
  · rename_i heq
    cases heq
    exact absurd rfl hu
  · rename_i c' _ heq
    obtain rfl := Option.some.inj heq
    rw [h]
    exact Reads.skip_bind (Reads.pure c)

theorem readEscape_unicode {cs : List Char} {c : Char} (h : Reads d P readUnicodeEscape cs c) :
    Reads d P readEscape ('u' :: cs) c := by
  unfold readEscape
  apply Reads.peek_bind
  exact Reads.skip_bind h

/-- How the writer writes a character, read back. -/
theorem readEscape_escapeChar {c : Char} {e : Char} {esc : List Char}
    (h : escapeChar c = '\\' :: e :: esc) : Reads d P readEscape (e :: esc) c := by
  rcases escapeChar_cases c with ⟨hc, hq, hs, -⟩ | ⟨e', hc, hu, hsimple⟩ | ⟨hc, hlt⟩
  · rw [hc] at h
    cases h
  · rw [hc] at h
    simp only [List.cons.injEq, true_and] at h
    obtain ⟨rfl, rfl⟩ := h
    exact readEscape_simple hu hsimple
  · rw [hc] at h
    simp only [List.cons.injEq, true_and] at h
    obtain ⟨rfl, rfl⟩ := h
    have := readUnicodeEscape_control (d := d) (P := P) hlt
    rw [Char.ofNat_toNat] at this
    exact readEscape_unicode this

/-! ### The body of a string -/

theorem go_quote (n : Nat) (acc : List Char) :
    Reads d P (readStringBody.go (n + 1) acc) ['"'] (String.ofList acc.reverse) := by
  unfold readStringBody.go
  apply Reads.peek_bind
  exact Reads.skip_bind (Reads.pure _)

theorem go_escape {esc cs acc : List Char} {c : Char} {n : Nat} {v : String}
    (he : Reads d (fun _ => True) readEscape esc c)
    (h : Reads d P (readStringBody.go n (c :: acc)) cs v) :
    Reads d P (readStringBody.go (n + 1) acc) ('\\' :: (esc ++ cs)) v := by
  unfold readStringBody.go
  apply Reads.peek_bind
  show Reads d P (Json.skip >>= fun _ => readEscape >>= fun c => readStringBody.go n (c :: acc)) _ _
  exact Reads.skip_bind (he.bind h fun _ _ => trivial)

theorem go_plain {cs acc : List Char} {c : Char} {n : Nat} {v : String}
    (hq : c ≠ '"') (hs : c ≠ '\\') (hc : 0x20 ≤ c.toNat)
    (h : Reads d P (readStringBody.go n (c :: acc)) cs v) :
    Reads d P (readStringBody.go (n + 1) acc) (c :: cs) v := by
  unfold readStringBody.go
  apply Reads.peek_bind
  split
  · contradiction
  · rename_i heq
    cases heq
    exact absurd rfl hq
  · rename_i heq
    cases heq
    exact absurd rfl hs
  · rename_i c' _ _ heq
    obtain rfl := Option.some.inj heq
    rw [if_neg (by omega)]
    exact Reads.skip_bind h

/-- The body of a written string, its closing quote included, reads as the
characters written, given a unit of fuel for each of them and one more. -/
theorem readStringBody_go (s acc : List Char) (n : Nat) (hn : s.length < n) :
    Reads d P (readStringBody.go n acc) (s.flatMap escapeChar ++ ['"'])
      (String.ofList (acc.reverse ++ s)) := by
  induction s generalizing acc n with
  | nil =>
    obtain ⟨m, rfl⟩ : ∃ m, n = m + 1 := ⟨n - 1, by simp at hn; omega⟩
    simpa using go_quote m acc
  | cons c s ih =>
    obtain ⟨m, rfl⟩ : ∃ m, n = m + 1 := ⟨n - 1, by simp at hn; omega⟩
    have hrest := ih (c :: acc) m (by simp at hn; omega)
    rw [List.reverse_cons, List.append_assoc, List.singleton_append] at hrest
    rw [List.flatMap_cons, List.append_assoc]
    rcases escapeChar_cases c with ⟨hc, hq, hs, hlow⟩ | ⟨e, hc, -, -⟩ | ⟨hc, -⟩
    · rw [hc]
      exact go_plain hq hs hlow hrest
    · rw [hc]
      exact go_escape (readEscape_escapeChar hc) hrest
    · rw [hc]
      exact go_escape (readEscape_escapeChar hc) hrest

/-- The text of a quoted string: the quote, the written characters, the
closing quote. -/
theorem quote_toList (s : String) :
    (quote s).toList = '"' :: (s.toList.flatMap escapeChar ++ ['"']) := by
  rw [quote, String.toList_ofList]

theorem length_lt_quote (s : String) : s.length < (quote s).toList.length := by
  have := length_le_flatMap_escapeChar s.toList
  simp only [quote_toList, List.length_cons, List.length_append, String.length_toList] at this ⊢
  omega

/-- What follows an opening quote reads as the string written. -/
theorem readStringBody_quote (s : String) {n : Nat} (hn : s.length < n) :
    Reads d P (readStringBody n) (s.toList.flatMap escapeChar ++ ['"']) s := by
  have := readStringBody_go (d := d) (P := P) s.toList [] n (by rwa [String.length_toList])
  simpa [readStringBody] using this

/-- A written string, after blanks, reads as the string. -/
theorem readString_quote {bl : List Char} (hbl : ∀ b ∈ bl, Reads.IsBlank b) (s : String) :
    Decodes d P readString (bl ++ (quote s).toList) s := by
  intro n hn
  have hlen := length_lt_quote s
  simp only [List.length_append] at hn
  unfold readString
  apply Reads.placed
  rw [quote_toList]
  refine Reads.blanks_bind hbl (by simp [Reads.IsBlank]) ?_
  exact Reads.skip_bind (readStringBody_quote s (by omega))

/-- A written name of one of the variants reads as the variant's index. -/
theorem readVariant_quote {bl : List Char} (hbl : ∀ b ∈ bl, Reads.IsBlank b) {variants : List String}
    {name : String} {k : Nat} (hk : variants.idxOf? name = some k) :
    Decodes d P (readVariant variants) (bl ++ (quote name).toList) k := by
  intro n hn
  have hlen := length_lt_quote name
  simp only [List.length_append] at hn
  -- the name's text is rewritten first: the reader holds texts of its own
  rw [quote_toList]
  unfold readVariant
  dsimp only
  apply Reads.blanks_bind hbl (by simp [Reads.IsBlank])
  apply Reads.placed
  apply Reads.skip_bind
  rw [← List.append_nil (List.flatMap escapeChar name.toList ++ ['"'])]
  refine (readStringBody_quote name (by omega)).bind ?_ fun _ h => h
  simp only [hk]
  exact Reads.pure k

end Strings

end Json

end GameScript
