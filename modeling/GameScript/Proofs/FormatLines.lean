import Mathlib
import GameScript.Editor.Format
import GameScript.Proofs.Lossless
import GameScript.Proofs.Relex
import GameScript.Proofs.Splice
/-!
# The text a format produces, line by line

`formatTree` walks the leaves of a tree with their depths, cuts them into
lines at the line-break tokens and asks `Format.lineEdits` for each line's
edits. Over the tree of a parse, the leaves are the tokens of `lex` before
the end of input, so they tile the text (`Format.tokens_parseScript`), and the
last line ends where the text does (`stop_parseScript`).

Each line's edits stay within the line and follow one another
(`Format.inOrder_lineEdits`), and splicing them in gives the line as a list
of lexemes (`Format.lineLexemes`): the indentation of its first kept token,
when it has any, then the tokens after its leading blank and before its
trailing one, keywords and type names recased (`Format.splice_lineEdits`).
So the edits of a whole text are in order within it, all applied, and the
formatted text is the lines' lexemes with the line breaks between them
(`formatSource_eq_join`).
-/

set_option autoImplicit false

namespace GameScript

/-! ## Leaves and their depths -/

namespace Format

mutual

theorem leavesWithDepth_fst : ∀ (e : SyntaxTree) (d : Nat),
    (leavesWithDepth e d).map Prod.fst = e.leaves
  | .token t, d => by simp [leavesWithDepth]
  | .node k a b cs, d => by rw [leavesWithDepth, children_fst, SyntaxTree.leaves_node]

theorem children_fst : ∀ (cs : List SyntaxTree) (d : Nat),
    (leavesWithDepth.children cs d).map Prod.fst = SyntaxTree.leavesOf cs
  | [], d => by simp [leavesWithDepth.children]
  | c :: more, d => by
    rw [leavesWithDepth.children, List.map_append, leavesWithDepth_fst, children_fst,
      SyntaxTree.leavesOf_cons]

end

end Format

/-! ## The root ends where the text ends -/

namespace Attach

/-- Where the last of `ts` stops, or `off` when there is none. -/
def endAfter (off : Nat) (ts : List Token) : Nat := ts.foldl (fun _ t => t.stop) off

@[simp] theorem endAfter_nil (off : Nat) : endAfter off [] = off := rfl

@[simp] theorem endAfter_cons (off : Nat) (t : Token) (ts : List Token) :
    endAfter off (t :: ts) = endAfter t.stop ts := rfl

@[simp] theorem endAfter_append (off : Nat) (ts us : List Token) :
    endAfter off (ts ++ us) = endAfter (endAfter off ts) us := by
  simp [endAfter, List.foldl_append]

/-- Tokens that tile a range end at its end. -/
theorem endAfter_of_tiles {p q : Nat} {ts : List Token} (h : Token.Tiles p ts q) :
    endAfter p ts = q := by
  induction h with
  | nil => rfl
  | cons _ _ ih => simpa using ih

/-- What the attaching functions return as the offset after their work: the
end of the last token they took, or the offset they were given. -/
def Ends (off : Nat) (out : List SyntaxTree) (off' : Nat) : Prop :=
  off' = endAfter off (SyntaxTree.leavesOf out)

theorem Ends.nil (off : Nat) : Ends off [] off := rfl

theorem Ends.append {o o' o'' : Nat} {a b : List SyntaxTree} (ha : Ends o a o')
    (hb : Ends o' b o'') : Ends o (a ++ b) o'' := by
  unfold Ends at *
  rw [hb, ha, SyntaxTree.leavesOf_append, endAfter_append]

theorem Ends.cons {t : Token} {o o' : Nat} {out : List SyntaxTree} (h : Ends t.stop out o') :
    Ends o (.token t :: out) o' := by
  simpa [Ends] using h

theorem Ends.wrap {o o1 o2 o3 : Nat} {pre kids tail : List SyntaxTree} (k : NodeKind) (a b : Nat)
    (h1 : Ends o pre o1) (h2 : Ends o1 kids o2) (h3 : Ends o2 tail o3) :
    Ends o (pre ++ [.node k a b (kids ++ tail)]) o3 := by
  have h := h1.append (h2.append h3)
  simpa [Ends] using h

theorem takeTrivia_ends (rest : List Token) (off : Nat) :
    Ends off (takeTrivia rest off).1 (takeTrivia rest off).2.2 := by
  fun_induction takeTrivia rest off with
  | case1 t more off h ts r o ih hmore =>
    rw [ih] at hmore
    exact Ends.cons hmore
  | case2 => exact Ends.nil _
  | case3 => exact Ends.nil _

theorem takeAll_ends (rest : List Token) (off : Nat) :
    Ends off (takeAll rest off).1 (takeAll rest off).2.2 := by
  fun_induction takeAll rest off with
  | case1 => exact Ends.nil _
  | case2 t more off h ts r o ih hmore =>
    rw [ih] at hmore
    exact Ends.cons hmore
  | case3 => exact Ends.nil _

theorem takeOne_ends (rest1 : List Token) (off1 : Nat) :
    Ends off1
      (match rest1 with
        | t :: r => if t.kind == .eof then ([], rest1, off1) else ([.token t], r, t.stop)
        | [] => ([], [], off1) : List SyntaxTree × List Token × Nat).1
      (match rest1 with
        | t :: r => if t.kind == .eof then ([], rest1, off1) else ([.token t], r, t.stop)
        | [] => ([], [], off1) : List SyntaxTree × List Token × Nat).2.2 := by
  match rest1 with
  | t :: r =>
    by_cases h : t.kind = .eof
    · simp [h, Ends.nil]
    · simpa [h] using Ends.cons (o := off1) (Ends.nil t.stop)
  | [] => exact Ends.nil _

mutual

theorem node_ends (kind : NodeKind) (children : List BareTree) (root : Bool)
    (rest : List Token) (off : Nat) :
    Ends off ((node kind children root rest off).1 ++ [(node kind children root rest off).2.1])
      (node kind children root rest off).2.2.2 := by
  rw [node]
  dsimp only
  cases root with
  | true =>
    simp only [Bool.not_true, Bool.false_and, Bool.false_eq_true, ↓reduceIte]
    exact Ends.wrap _ _ _ (Ends.nil off) (elements_ends _ _ _) (takeAll_ends _ _)
  | false =>
    simp only [Bool.not_false, Bool.true_and, Bool.false_eq_true, ↓reduceIte]
    split
    · exact Ends.wrap _ _ _ (takeTrivia_ends _ _) (elements_ends _ _ _) (Ends.nil _)
    · exact Ends.wrap _ _ _ (Ends.nil off) (elements_ends _ _ _) (Ends.nil _)
termination_by sizeOf children + 1

theorem elements_ends (children : List BareTree) (rest : List Token) (off : Nat) :
    Ends off (elements children rest off).1 (elements children rest off).2.2 := by
  match children with
  | [] => simp [elements, Ends.nil]
  | .token _ :: more =>
    rw [elements]
    exact ((takeTrivia_ends _ _).append (takeOne_ends _ _)).append (elements_ends more _ _)
  | .node k cs :: more =>
    rw [elements]
    exact (node_ends k cs false rest off).append (elements_ends more _ _)
termination_by sizeOf children

end

/-- A node stops at the offset returned after it. -/
theorem node_stop (kind : NodeKind) (children : List BareTree) (root : Bool) (rest : List Token)
    (off : Nat) : (node kind children root rest off).2.1.stop = (node kind children root rest off).2.2.2 := by
  rw [node]
  rfl

end Attach

/-- The tree of a parse ends where the text ends. -/
theorem stop_parseScript (source : String) (isFunction : String → Bool) :
    (parseScript source isFunction).root.stop = source.utf8ByteSize := by
  obtain ⟨k, cs, hroot⟩ : ∃ k cs,
      (parseScript source isFunction).root = (BareTree.node k cs).attach (lex source) := ⟨_, _, rfl⟩
  have hends := Attach.node_ends k cs true (lex source) 0
  rw [show (Attach.node k cs true (lex source) 0).1 = [] by rw [Attach.node]; simp,
    List.nil_append] at hends
  rw [hroot, BareTree.attach, Attach.node_stop, hends, SyntaxTree.leavesOf_cons,
    SyntaxTree.leavesOf_nil, List.append_nil]
  -- the root's leaves are the tokens before the end of input, which tile the text
  have hbody : (lex source).dropLast = ((BareTree.node k cs).attach (lex source)).leaves := by
    simpa using (congrArg List.dropLast (attach_leaves k cs source)).symm
  have := Attach.endAfter_of_tiles (tiles_lex source)
  rwa [hbody] at this

namespace Format

/-- The leaves a format walks, with their depths, are the tokens of `lex`
before the end of input. -/
theorem tokens_parseScript (source : String) :
    ((leavesWithDepth (parseScript source fun _ => false).root 0).filter
      fun x => x.1.kind != .eof).map Prod.fst = (lex source).dropLast := by
  obtain ⟨k, cs, hroot⟩ : ∃ k cs,
      (parseScript source fun _ => false).root = (BareTree.node k cs).attach (lex source) :=
    ⟨_, _, rfl⟩
  have hne := (parse_lossless source fun _ => false).1.leaves_ne_eof
  rw [List.filter_eq_self.2, leavesWithDepth_fst]
  · rw [hroot]
    simpa using congrArg List.dropLast (attach_leaves k cs source)
  · intro x hx
    have hx' : x.1 ∈ (parseScript source fun _ => false).root.leaves := by
      rw [← leavesWithDepth_fst _ 0]
      exact List.mem_map_of_mem hx
    simpa using hne x.1 hx'

/-! ## Lines -/

/-- Lines of tokens, each followed by the line break that ends it, then the
last line. -/
def joinLines (ls : List (List (Token × Nat) × (Token × Nat))) (last : List (Token × Nat)) :
    List (Token × Nat) :=
  ls.flatMap (fun l => l.1 ++ [l.2]) ++ last

/-- Lines cut at their line breaks: no line holds one, and each line but the
last is followed by one. -/
def AreLines (ls : List (List (Token × Nat) × (Token × Nat))) (last : List (Token × Nat)) : Prop :=
  (∀ l ∈ ls, (∀ x ∈ l.1, x.1.kind ≠ .newline) ∧ l.2.1.kind = .newline) ∧
    ∀ x ∈ last, x.1.kind ≠ .newline

@[simp] theorem joinLines_nil (last : List (Token × Nat)) : joinLines [] last = last := by
  simp [joinLines]

@[simp] theorem joinLines_cons (l : List (Token × Nat) × (Token × Nat))
    (ls : List (List (Token × Nat) × (Token × Nat))) (last : List (Token × Nat)) :
    joinLines (l :: ls) last = l.1 ++ l.2 :: joinLines ls last := by
  simp [joinLines]

theorem AreLines.tail {l : List (Token × Nat) × (Token × Nat)}
    {ls : List (List (Token × Nat) × (Token × Nat))} {last : List (Token × Nat)}
    (h : AreLines (l :: ls) last) : AreLines ls last :=
  ⟨fun l' hl' => h.1 l' (List.mem_cons_of_mem _ hl'), h.2⟩

/-- Every token sequence is cut into lines at its line breaks. -/
theorem exists_lines (tokens : List (Token × Nat)) :
    ∃ ls last, tokens = joinLines ls last ∧ AreLines ls last := by
  induction tokens with
  | nil => exact ⟨[], [], rfl, by simp [AreLines]⟩
  | cons x more ih =>
    obtain ⟨ls, last, rfl, hls, hlast⟩ := ih
    by_cases hx : x.1.kind = .newline
    · -- a line break ends an empty first line
      refine ⟨([], x) :: ls, last, by simp, ?_, hlast⟩
      intro l hl
      rcases List.mem_cons.1 hl with rfl | hl
      · exact ⟨by simp, hx⟩
      · exact hls l hl
    · cases ls with
      | nil => exact ⟨[], x :: last, by simp, by simp, by simpa [hx] using hlast⟩
      | cons l ls =>
        refine ⟨(x :: l.1, l.2) :: ls, last, by simp, ?_, hlast⟩
        intro l' hl'
        rcases List.mem_cons.1 hl' with rfl | hl'
        · have := hls l (by simp)
          exact ⟨by simpa [hx] using this.1, this.2⟩
        · exact hls l' (List.mem_cons_of_mem _ hl')

theorem lines_go_of_noBreak (textEnd : Nat) {l : List (Token × Nat)}
    (hl : ∀ x ∈ l, x.1.kind ≠ .newline) (rest acc : List (Token × Nat)) :
    lines.go textEnd (l ++ rest) acc = lines.go textEnd rest (l.reverse ++ acc) := by
  induction l generalizing acc with
  | nil => rfl
  | cons x l ih =>
    have hx : x.1.kind.isNewline = false := by simpa [TokenKind.isNewline] using hl x (by simp)
    rw [List.cons_append, lines.go, if_neg (by simp [hx]),
      ih (fun y hy => hl y (List.mem_cons_of_mem _ hy))]
    simp

/-- `lines` returns the lines of a token sequence, each with the offset of
the line break after it, and the last with the end of the text. -/
theorem lines_joinLines (textEnd : Nat) {ls : List (List (Token × Nat) × (Token × Nat))}
    {last : List (Token × Nat)} (h : AreLines ls last) :
    lines (joinLines ls last) textEnd = ls.map (fun l => (l.1, l.2.1.start)) ++ [(last, textEnd)] := by
  unfold lines
  induction ls with
  | nil =>
    have := lines_go_of_noBreak textEnd h.2 [] []
    rw [List.append_nil] at this
    simp [this, lines.go]
  | cons l ls ih =>
    obtain ⟨hl, hbreak⟩ := h.1 l (by simp)
    rw [joinLines_cons, lines_go_of_noBreak textEnd hl, lines.go,
      if_pos (by simp [TokenKind.isNewline, hbreak]), ih h.tail]
    simp

/-! ## The parts of a line -/

/-- The indentation of a line at `depth` statement lists. -/
def indentText (config : WorkspaceConfig) (depth : Nat) : String :=
  String.join (List.replicate depth config.indentUnit)

/-- The text a token is formatted to: keywords and type names in the
configured case, every other token as it is. -/
def recased (config : WorkspaceConfig) (t : Token) : String :=
  if t.kind.isKeyword || t.kind.isType then config.keywordStyle.apply t.text else t.text

/-- The leading blank of a line, if it has one. -/
def indentPart : List (Token × Nat) → List (Token × Nat)
  | (t, d) :: _ => if t.kind == .whitespace then [(t, d)] else []
  | [] => []

/-- The tokens of a line after its leading blank. -/
def afterIndent : List (Token × Nat) → List (Token × Nat)
  | (t, d) :: rest => if t.kind == .whitespace then rest else (t, d) :: rest
  | [] => []

/-- The trailing blank of the tokens after a line's leading blank, if they
end with one. -/
def trailPart (content : List (Token × Nat)) : List (Token × Nat) :=
  match content.getLast? with
  | some x => if x.1.kind == .whitespace then [x] else []
  | none => []

/-- The tokens that formatting keeps of a line: those after its leading blank
and before its trailing one. -/
def kept (line : List (Token × Nat)) : List (Token × Nat) :=
  (afterIndent line).take ((afterIndent line).length - (trailPart (afterIndent line)).length)

/-- The indentation a formatted line starts with: none on a line with nothing
after its leading blank. -/
def indentChars (config : WorkspaceConfig) (line : List (Token × Nat)) : List Char :=
  match afterIndent line with
  | (_, depth) :: _ => (indentText config depth).toList
  | [] => []

/-- A formatted line as lexemes: its indentation, when it has any, then the
tokens it keeps, recased. -/
def lineLexemes (config : WorkspaceConfig) (line : List (Token × Nat)) :
    List (TokenKind × List Char) :=
  (if indentChars config line = [] then [] else [(.whitespace, indentChars config line)]) ++
    (kept line).map fun x => (x.1.kind, (recased config x.1).toList)

theorem indentPart_append_afterIndent (line : List (Token × Nat)) :
    indentPart line ++ afterIndent line = line := by
  match line with
  | [] => rfl
  | (t, d) :: rest =>
    by_cases h : t.kind = .whitespace <;> simp [indentPart, afterIndent, h]

theorem kept_append_trailPart (line : List (Token × Nat)) :
    kept line ++ trailPart (afterIndent line) = afterIndent line := by
  unfold kept trailPart
  split
  · rename_i x hx
    obtain ⟨init, hinit⟩ := List.getLast?_eq_some_iff.1 hx
    split <;> simp [hinit]
  · simp

/-! ## The edits of a line, part by part -/

/-- The case edit of one token, as `lineEdits` makes it. -/
def caseEdit (config : WorkspaceConfig) : Token × Nat → Option TextEdit := fun (t, _) =>
  if t.kind.isKeyword || t.kind.isType then
    let cased := config.keywordStyle.apply t.text
    if cased != t.text then some ⟨⟨t.start, t.stop⟩, cased⟩ else none
  else none

/-- The edit of a line's indentation: a leading blank is removed on a line with
nothing else and otherwise replaced by the indentation, when it differs; a
line with no leading blank gets the indentation inserted. -/
def indentEdits (config : WorkspaceConfig) : List (Token × Nat) → List TextEdit
  | [] => []
  | (t, d) :: rest =>
    if t.kind == .whitespace then
      match rest with
      | [] => [⟨⟨t.start, t.stop⟩, ""⟩]
      | (_, depth) :: _ =>
        if t.text != indentText config depth then [⟨⟨t.start, t.stop⟩, indentText config depth⟩]
        else []
    else if (indentText config d).isEmpty then [] else [⟨⟨t.start, t.start⟩, indentText config d⟩]

/-- The edit that removes a trailing blank, up to the end of the line. -/
def trailEdits (line : List (Token × Nat)) (lineEnd : Nat) : List TextEdit :=
  match (afterIndent line).getLast? with
  | some (t, _) => if t.kind == .whitespace then [⟨⟨t.start, lineEnd⟩, ""⟩] else []
  | none => []

theorem caseEdit_whitespace (config : WorkspaceConfig) {x : Token × Nat}
    (hx : x.1.kind = .whitespace) : caseEdit config x = none := by
  simp [caseEdit, hx, TokenKind.isKeyword, TokenKind.isType]

theorem filterMap_caseEdit_kept (config : WorkspaceConfig) (line : List (Token × Nat)) :
    (afterIndent line).filterMap (caseEdit config) = (kept line).filterMap (caseEdit config) := by
  -- a trailing blank has no case edit
  have htrail : (trailPart (afterIndent line)).filterMap (caseEdit config) = [] := by
    rw [List.filterMap_eq_nil_iff]
    intro x hx
    unfold trailPart at hx
    split at hx
    · split at hx
      · rename_i hw
        rw [List.mem_singleton.1 hx]
        exact caseEdit_whitespace config (by simpa using hw)
      · simp at hx
    · simp at hx
  conv_lhs => rw [← kept_append_trailPart line]
  rw [List.filterMap_append, htrail, List.append_nil]

/-- The edits of a line are those of its indentation, of the tokens it keeps
and of its trailing blank. -/
theorem lineEdits_eq (config : WorkspaceConfig) (line : List (Token × Nat)) (lineEnd : Nat) :
    lineEdits config line lineEnd =
      indentEdits config line ++ (kept line).filterMap (caseEdit config) ++
        trailEdits line lineEnd := by
  rw [← filterMap_caseEdit_kept]
  match line with
  | [] => rfl
  | (t, d) :: rest =>
    by_cases h : t.kind = .whitespace
    · have hb : (t.kind == .whitespace) = true := by simp [h]
      cases rest with
      | nil => simp [lineEdits, indentEdits, afterIndent, trailEdits, h]
      | cons x more =>
        simp only [lineEdits, indentEdits, afterIndent, trailEdits, hb, ite_true]
        rfl
    · have hb : (t.kind == .whitespace) = false := by simp [h]
      simp only [lineEdits, indentEdits, afterIndent, trailEdits, hb, Bool.false_eq_true, ite_false]
      rfl


/-! ## Splicing a line -/

/-- The characters of some tokens, each with its byte offset. -/
def placed (line : List (Token × Nat)) : List (Char × Nat) := (line.map Prod.fst).flatMap Token.charsAt

@[simp] theorem placed_nil : placed [] = [] := rfl

@[simp] theorem placed_cons (x : Token × Nat) (line : List (Token × Nat)) :
    placed (x :: line) = x.1.charsAt ++ placed line := rfl

@[simp] theorem placed_append (line line' : List (Token × Nat)) :
    placed (line ++ line') = placed line ++ placed line' := by
  simp [placed]

theorem splice_charsAt_nil (t : Token) : Text.splice t.charsAt [] = t.text.toList := by
  simp [Text.splice, Token.charsAt]

/-- One token's case edit replaces it by its recased text. -/
theorem caseEdit_spec (config : WorkspaceConfig) (x : Token × Nat) :
    Text.InOrder x.1.start (caseEdit config x).toList x.1.stop ∧
      Text.splice x.1.charsAt (caseEdit config x).toList = (recased config x.1).toList := by
  have hle : x.1.start ≤ x.1.stop := by simp [Token.stop]
  obtain ⟨t, d⟩ := x
  unfold caseEdit recased
  dsimp only
  split
  · split
    · -- the text changes: one edit covers the token
      refine ⟨.cons le_rfl hle (.nil le_rfl), ?_⟩
      exact Text.splice_replace t.charsAt_bounds _
    · rename_i hsame
      simp only [bne_iff_ne, ne_eq, Decidable.not_not] at hsame
      exact ⟨.nil hle, by simpa [hsame] using splice_charsAt_nil t⟩
  · exact ⟨.nil hle, by simpa using splice_charsAt_nil t⟩

/-- The case edits of tiling tokens are in order and recase them. -/
theorem kept_spec (config : WorkspaceConfig) {ts : List (Token × Nat)} {a b : Nat}
    (h : Token.Tiles a (ts.map Prod.fst) b) :
    Text.InOrder a (ts.filterMap (caseEdit config)) b ∧
      Text.splice (placed ts) (ts.filterMap (caseEdit config)) =
        ts.flatMap fun x => (recased config x.1).toList := by
  induction ts generalizing a with
  | nil =>
    cases h
    exact ⟨.nil le_rfl, rfl⟩
  | cons x ts ih =>
    cases h with
    | cons hs hrest =>
      obtain ⟨hord, hsplice⟩ := ih hrest
      obtain ⟨hx, hxs⟩ := caseEdit_spec config x
      have hfm : (x :: ts).filterMap (caseEdit config) =
          (caseEdit config x).toList ++ ts.filterMap (caseEdit config) := by
        rcases hc : caseEdit config x with _ | e <;> simp [hc]
      rw [hs] at hx
      refine ⟨hfm ▸ hx.append hord, ?_⟩
      rw [hfm, placed_cons, Text.splice_append (A := x.1.charsAt) (B := placed ts) (p := x.1.stop)
        (fun y hy => (x.1.charsAt_bounds y hy).2)
        (fun y hy => (hrest.charsAt_bounds y hy).1)
        (fun e he => ⟨(hx.bounds e he).2.2, (hx.bounds e he).2.1⟩)
        (fun f hf => (hord.bounds f hf).1), hxs, hsplice, List.flatMap_cons]

/-- The edit of the indentation is in order and gives the indentation. -/
theorem indent_spec (config : WorkspaceConfig) {line : List (Token × Nat)} {s le : Nat}
    (h : Token.Tiles s (line.map Prod.fst) le) :
    ∃ a, Token.Tiles s ((indentPart line).map Prod.fst) a ∧
      Token.Tiles a ((afterIndent line).map Prod.fst) le ∧
      Text.InOrder s (indentEdits config line) a ∧
      Text.splice (placed (indentPart line)) (indentEdits config line) = indentChars config line := by
  match line, h with
  | [], h => exact ⟨s, .nil s, h, .nil le_rfl, rfl⟩
  | (t, d) :: rest, .cons hs hrest =>
    have hstart : t.start = s := hs
    have hle : t.start ≤ t.stop := by simp [Token.stop]
    by_cases hw : t.kind = .whitespace
    · have hb : (t.kind == .whitespace) = true := by simp [hw]
      have hind : Token.Tiles s ((indentPart ((t, d) :: rest)).map Prod.fst) t.stop := by
        simpa [indentPart, hb] using Token.Tiles.cons hs (.nil _)
      have hafter : Token.Tiles t.stop ((afterIndent ((t, d) :: rest)).map Prod.fst) le := by
        simpa [afterIndent, hb] using hrest
      refine ⟨t.stop, hind, hafter, ?_⟩
      cases rest with
      | nil =>
        -- a blank alone on its line is removed
        have hdel := Text.splice_replace t.charsAt_bounds ""
        simp only [indentPart, indentEdits, indentChars, afterIndent, hb, ite_true, placed_cons,
          placed_nil, List.append_nil]
        exact ⟨.cons (by dsimp only; omega) hle (.nil le_rfl), by simpa using hdel⟩
      | cons y more =>
        simp only [indentPart, indentEdits, indentChars, afterIndent, hb, ite_true, placed_cons,
          placed_nil, List.append_nil]
        split
        · have hnew := Text.splice_replace t.charsAt_bounds (indentText config y.2)
          exact ⟨.cons (by dsimp only; omega) hle (.nil le_rfl), hnew⟩
        · rename_i hsame
          simp only [bne_iff_ne, ne_eq, Decidable.not_not] at hsame
          exact ⟨.nil (by omega), by simpa [hsame] using splice_charsAt_nil t⟩
    · have hb : (t.kind == .whitespace) = false := by simp [hw]
      have hafter : Token.Tiles s ((afterIndent ((t, d) :: rest)).map Prod.fst) le := by
        simpa [afterIndent, hb] using Token.Tiles.cons hs hrest
      refine ⟨s, by simpa [indentPart, hb] using Token.Tiles.nil s, hafter, ?_⟩
      simp only [indentPart, indentEdits, indentChars, afterIndent, hb, Bool.false_eq_true,
        ite_false, placed_nil]
      split
      · rename_i hempty
        exact ⟨.nil le_rfl, by rw [String.isEmpty_iff.1 hempty]; rfl⟩
      · -- the indentation is inserted in front of the first token
        exact ⟨.cons (by dsimp only; omega) le_rfl (.nil (by dsimp only; omega)), by simp [Text.splice]⟩

/-- The edit of a trailing blank removes it. -/
theorem trail_spec {line : List (Token × Nat)} {b le : Nat}
    (h : Token.Tiles b ((trailPart (afterIndent line)).map Prod.fst) le) :
    Text.InOrder b (trailEdits line le) le ∧
      Text.splice (placed (trailPart (afterIndent line))) (trailEdits line le) = [] := by
  unfold trailEdits trailPart at *
  rcases hl : (afterIndent line).getLast? with _ | ⟨t, d⟩
  · simp only [hl, List.map_nil] at h ⊢
    cases h
    exact ⟨.nil le_rfl, rfl⟩
  · by_cases hw : t.kind = .whitespace
    · simp only [hl, hw, beq_self_eq_true, ite_true, List.map_cons, List.map_nil] at h ⊢
      cases h with
      | cons hs hrest =>
        cases hrest
        have hle : t.start ≤ t.stop := by simp [Token.stop]
        refine ⟨.cons (by dsimp only; omega) (by dsimp only; omega) (.nil le_rfl), ?_⟩
        simpa using Text.splice_replace t.charsAt_bounds ""
    · have hb : (t.kind == .whitespace) = false := by simp [hw]
      simp only [hl, hb, Bool.false_eq_true, ite_false, List.map_nil] at h ⊢
      cases h
      exact ⟨.nil le_rfl, rfl⟩

/-- A line's edits are in order within it, and splicing them gives its
lexemes. -/
theorem line_spec (config : WorkspaceConfig) {line : List (Token × Nat)} {s le : Nat}
    (h : Token.Tiles s (line.map Prod.fst) le) :
    Text.InOrder s (lineEdits config line le) le ∧
      Text.splice (placed line) (lineEdits config line le) = Lexer.chars (lineLexemes config line) := by
  obtain ⟨a, hind, hafter, hiord, hisplice⟩ := indent_spec config h
  rw [← kept_append_trailPart line, List.map_append] at hafter
  obtain ⟨b, hkept, htrail⟩ := hafter.split
  obtain ⟨hkord, hksplice⟩ := kept_spec config hkept
  obtain ⟨htord, htsplice⟩ := trail_spec htrail
  have hrest := hkord.append htord
  rw [lineEdits_eq, List.append_assoc]
  refine ⟨hiord.append hrest, ?_⟩
  have hplaced : placed line =
      placed (indentPart line) ++ (placed (kept line) ++ placed (trailPart (afterIndent line))) := by
    rw [← placed_append, kept_append_trailPart, ← placed_append, indentPart_append_afterIndent]
  rw [hplaced,
    Text.splice_append (A := placed (indentPart line))
      (B := placed (kept line) ++ placed (trailPart (afterIndent line))) (p := a) (fun y hy => (hind.charsAt_bounds y hy).2)
      (fun y hy => ((hkept.append htrail).charsAt_bounds y (by simpa [placed] using hy)).1)
      (fun e he => ⟨(hiord.bounds e he).2.2, (hiord.bounds e he).2.1⟩)
      (fun f hf => (hrest.bounds f hf).1),
    Text.splice_append (A := placed (kept line)) (B := placed (trailPart (afterIndent line)))
      (p := b) (fun y hy => (hkept.charsAt_bounds y hy).2)
      (fun y hy => (htrail.charsAt_bounds y hy).1)
      (fun e he => ⟨(hkord.bounds e he).2.2, (hkord.bounds e he).2.1⟩)
      (fun f hf => (htord.bounds f hf).1),
    hisplice, hksplice, htsplice, lineLexemes]
  by_cases hi : indentChars config line = [] <;> simp [hi, Lexer.chars, List.flatMap_map]


/-! ## The whole text -/

/-- The text of formatted lines: each line's lexemes, then its line break. -/
def joinText (config : WorkspaceConfig) (ls : List (List (Token × Nat) × (Token × Nat)))
    (last : List (Token × Nat)) : List Char :=
  ls.flatMap (fun l => Lexer.chars (lineLexemes config l.1) ++ l.2.1.text.toList) ++
    Lexer.chars (lineLexemes config last)

/-- The edits of all lines, each line ending at the line break after it. -/
def linesEdits (config : WorkspaceConfig) (ls : List (List (Token × Nat) × (Token × Nat)))
    (last : List (Token × Nat)) (textEnd : Nat) : List TextEdit :=
  (ls.map (fun l => (l.1, l.2.1.start)) ++ [(last, textEnd)]).flatMap
    fun x => lineEdits config x.1 x.2

/-- Over tiling tokens, the edits of all lines are in order, and splicing them
gives the lines' lexemes with the line breaks between them. -/
theorem lines_spec (config : WorkspaceConfig) {ls : List (List (Token × Nat) × (Token × Nat))}
    {last : List (Token × Nat)} {p q : Nat} (h : Token.Tiles p ((joinLines ls last).map Prod.fst) q) :
    Text.InOrder p (linesEdits config ls last q) q ∧
      Text.splice (placed (joinLines ls last)) (linesEdits config ls last q) =
        joinText config ls last := by
  induction ls generalizing p with
  | nil =>
    simpa [linesEdits, joinText] using line_spec config (by simpa using h)
  | cons l ls ih =>
    rw [joinLines_cons, List.map_append] at h
    obtain ⟨m, hline, hbreak⟩ := h.split
    rw [List.map_cons] at hbreak
    cases hbreak with
    | cons hs hrest =>
      obtain ⟨hord, hsplice⟩ := ih hrest
      obtain ⟨hlord, hlsplice⟩ := line_spec config (hs ▸ hline)
      have hle : l.2.1.start ≤ l.2.1.stop := by simp [Token.stop]
      have hedits : linesEdits config (l :: ls) last q =
          lineEdits config l.1 l.2.1.start ++ linesEdits config ls last q := by
        simp [linesEdits]
      rw [hedits, joinLines_cons, placed_append, placed_cons]
      refine ⟨hlord.append (hord.mono_left hle), ?_⟩
      -- the line's edits end at its line break, which no edit touches
      rw [Text.splice_append (A := placed l.1) (B := l.2.1.charsAt ++ placed (joinLines ls last))
          (p := l.2.1.start) (fun y hy => hs ▸ (hline.charsAt_bounds y hy).2)
          (fun y hy => ?_)
          (fun e he => ⟨(hlord.bounds e he).2.2, (hlord.bounds e he).2.1⟩)
          (fun f hf => le_trans hle (hord.bounds f hf).1),
        ← List.nil_append (linesEdits config ls last q),
        Text.splice_append (A := l.2.1.charsAt) (B := placed (joinLines ls last)) (p := l.2.1.stop)
          (fun y hy => (l.2.1.charsAt_bounds y hy).2)
          (fun y hy => (hrest.charsAt_bounds y hy).1) (by simp)
          (fun f hf => (hord.bounds f hf).1),
        hlsplice, splice_charsAt_nil, hsplice]
      · simp [joinText]
      · rcases List.mem_append.1 hy with hy | hy
        · exact (l.2.1.charsAt_bounds y hy).1
        · exact le_trans hle (hrest.charsAt_bounds y hy).1

end Format

/-- A text is the texts of its tokens before the end of input. -/
theorem toList_eq_flatMap_lex (source : String) :
    source.toList = (lex source).dropLast.flatMap (·.text.toList) := by
  obtain ⟨body, hlex, -⟩ := lex_eq_append_eof source
  have h := congrArg String.toList (lex_texts source)
  rw [hlex] at h ⊢
  simpa [String.toList_join, List.flatMap_map] using h.symm

/-- The edits that format a parsed text are in order within it, and the
formatted text is its lines' lexemes with the line breaks between them. -/
theorem formatSource_eq_join (source : String) (config : WorkspaceConfig)
    {ls : List (List (Token × Nat) × (Token × Nat))} {last : List (Token × Nat)}
    (hlines : (Format.leavesWithDepth (parseScript source fun _ => false).root 0).filter
      (fun x => x.1.kind != .eof) = Format.joinLines ls last)
    (hare : Format.AreLines ls last) :
    Text.InOrder 0 (formatTree (parseScript source fun _ => false).root config)
        source.utf8ByteSize ∧
      formatSource source config = String.ofList (Format.joinText config ls last) := by
  have htokens := Format.tokens_parseScript source
  rw [hlines] at htokens
  have htiles : Token.Tiles 0 ((Format.joinLines ls last).map Prod.fst) source.utf8ByteSize := by
    rw [htokens]
    exact tiles_lex source
  have hedits : formatTree (parseScript source fun _ => false).root config =
      Format.linesEdits config ls last source.utf8ByteSize := by
    rw [formatTree]
    dsimp only
    rw [hlines, stop_parseScript, Format.lines_joinLines _ hare, Format.linesEdits]
  obtain ⟨hord, hsplice⟩ := Format.lines_spec config htiles
  refine ⟨hedits ▸ hord, ?_⟩
  -- every edit applies, and the characters of the text are those of its tokens
  have hoffsets : Text.withOffsets source = Format.placed (Format.joinLines ls last) := by
    rw [Text.withOffsets, toList_eq_flatMap_lex, ← htokens]
    exact htiles.withOffsets_go
  rw [formatSource, Text.applyEdits, hedits, Text.appliedEdits_of_inOrder hord, hoffsets, hsplice]

end GameScript
