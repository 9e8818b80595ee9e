import Mathlib
import GameScript.Proofs.TokenLeaves
import GameScript.Proofs.TreeShape
import GameScript.Proofs.Fuel
/-!
# Function hints only add calls without arguments

A parse with function hints marks the identifiers the catalog names as
functions (`Lexeme.known`). The grammar reads such a name as a call even when
nothing that could be an argument follows it, and then builds a call whose
argument list holds no token. That is the only place where a hint is read
(`Cursor.atKnownFunction`), so forgetting the hints (`Cursor.plain`) turns
every such call back into the plain name and changes nothing else.

* `BareTree.plain` and `TokenTree.plain` replace a call whose argument list
  holds no token by its name.
* `Grammar.Forgets fuel`: every function of the grammar, run on a cursor with
  its hints forgotten, builds the plain trees of what it builds with the
  hints, and leaves the same cursor with its hints forgotten, wherever the
  fuel covers its need. The need enters at one place only: an argument list
  the grammar starts without a hint takes a token, since a call reads its
  first argument with fuel to spare (`argSequence_takes`), and what takes a
  token builds a token leaf (`GameScript.Proofs.TokenLeaves`).
* Filling the leaves commutes with `plain` when the source has a token for
  every leaf (`BareTree.fill_plain`).

Main statement (`parseScript_hints`): with any hints, a script parse reports
exactly the problems of the parse without hints, and its tree, with the
trivia deleted, becomes the tree without hints once every call whose argument
list holds no token is replaced by its name.
-/

set_option autoImplicit false

namespace GameScript

/-! ## Forgetting the hints -/

/-- A lexeme with its function hint forgotten. -/
def Lexeme.plain (l : Lexeme) : Lexeme := { l with known := false }

@[simp] theorem Lexeme.plain_kind (l : Lexeme) : l.plain.kind = l.kind := rfl
@[simp] theorem Lexeme.plain_start (l : Lexeme) : l.plain.start = l.start := rfl
@[simp] theorem Lexeme.plain_stop (l : Lexeme) : l.plain.stop = l.stop := rfl

namespace Cursor

/-- A cursor with the function hints of its tokens forgotten. -/
def plain (s : Cursor) : Cursor := { s with rest := s.rest.map Lexeme.plain }

@[simp] theorem plain_rest (s : Cursor) : s.plain.rest = s.rest.map Lexeme.plain := rfl
@[simp] theorem plain_parenDepth (s : Cursor) : s.plain.parenDepth = s.parenDepth := rfl
@[simp] theorem plain_beginDepth (s : Cursor) : s.plain.beginDepth = s.beginDepth := rfl
@[simp] theorem plain_nesting (s : Cursor) : s.plain.nesting = s.nesting := rfl
@[simp] theorem plain_lastEnd (s : Cursor) : s.plain.lastEnd = s.lastEnd := rfl
@[simp] theorem plain_errors (s : Cursor) : s.plain.errors = s.errors := rfl

/-! The counters are set the same way with or without the hints. -/

theorem plain_withNesting (s : Cursor) (n : Nat) :
    ({ s.plain with nesting := n } : Cursor) = ({ s with nesting := n } : Cursor).plain := rfl

theorem plain_withParenDepth (s : Cursor) (n : Nat) :
    ({ s.plain with parenDepth := n } : Cursor) = ({ s with parenDepth := n } : Cursor).plain := rfl

theorem plain_withBeginDepth (s : Cursor) (n : Nat) :
    ({ s.plain with beginDepth := n } : Cursor) = ({ s with beginDepth := n } : Cursor).plain := rfl

/-! Everything the grammar looks at but the hints is the same. -/

@[simp] theorem current_plain (s : Cursor) : s.plain.current = s.current := by
  rcases s with ⟨_ | ⟨a, rest⟩, _, _, _, _, _⟩ <;> rfl

@[simp] theorem second_plain (s : Cursor) : s.plain.second = s.second := by
  rcases s with ⟨_ | ⟨a, _ | ⟨b, rest⟩⟩, _, _, _, _, _⟩ <;> rfl

@[simp] theorem atEnd_plain (s : Cursor) : s.plain.atEnd = s.atEnd := by
  simp [atEnd]

@[simp] theorem atLineEnd_plain (s : Cursor) : s.plain.atLineEnd = s.atLineEnd := by
  simp [atLineEnd]

@[simp] theorem tooDeep_plain (s : Cursor) : s.plain.tooDeep = s.tooDeep := rfl

/-- The one question whose answer the hints change. -/
@[simp] theorem atKnownFunction_plain (s : Cursor) : s.plain.atKnownFunction = false := by
  rcases s with ⟨_ | ⟨a, rest⟩, _, _, _, _, _⟩ <;> simp [plain, atKnownFunction, Lexeme.plain]

theorem problemRange_plain (s : Cursor) : s.plain.problemRange = s.problemRange := by
  rcases s with ⟨_ | ⟨a, rest⟩, _, _, _, _, _⟩ <;> rfl

@[simp] theorem report_plain (s : Cursor) (p : SyntaxProblem) :
    s.plain.report p = (s.report p).plain := by
  simp only [report, problemRange_plain]
  rfl

@[simp] theorem length_plain_rest (s : Cursor) : s.plain.rest.length = s.rest.length := by
  simp

end Cursor

/-! ## Calls without arguments, as names -/

namespace BareTree

/-- A node as the grammar would have built it without hints: a call whose
argument list holds no token is its name. -/
def unhint (k : NodeKind) (cs : List BareTree) : BareTree :=
  match k, cs with
  | .funcExpr, [.node .nameRef xs, .node .argList ys] =>
    if kindsOf ys = [] then .node .nameRef xs else .node .funcExpr cs
  | k, cs => .node k cs

mutual
/-- Every call whose argument list holds no token replaced by its name. -/
def plain : BareTree → BareTree
  | .token k => .token k
  | .node k cs => unhint k (plainList cs)

/-- `plain` on each tree of a list. -/
def plainList : List BareTree → List BareTree
  | [] => []
  | b :: bs => plain b :: plainList bs
end

@[simp] theorem plain_token (k : TokenKind) : (token k).plain = token k := by
  simp [plain]

@[simp] theorem plain_node (k : NodeKind) (cs : List BareTree) :
    (node k cs).plain = unhint k (plainList cs) := by
  simp [plain]

@[simp] theorem plainList_nil : plainList [] = [] := by
  simp [plainList]

@[simp] theorem plainList_cons (b : BareTree) (bs : List BareTree) :
    plainList (b :: bs) = b.plain :: plainList bs := by
  simp [plainList]

theorem plainList_eq_map (bs : List BareTree) : plainList bs = bs.map plain := by
  induction bs with
  | nil => simp
  | cons b bs ih => simp [ih]

@[simp] theorem plainList_append (bs cs : List BareTree) :
    plainList (bs ++ cs) = plainList bs ++ plainList cs := by
  induction bs with
  | nil => simp
  | cons b bs ih => simp [ih]

/-- Only calls are touched. -/
@[simp] theorem unhint_of_ne {k : NodeKind} (h : k ≠ .funcExpr) (cs : List BareTree) :
    unhint k cs = node k cs := by
  unfold unhint
  split
  · exact absurd rfl h
  · rfl

/-- A call keeps its arguments while they hold a token. -/
@[simp] theorem unhint_call (xs ys : List BareTree) :
    unhint .funcExpr [.node .nameRef xs, .node .argList ys] =
      if kindsOf ys = [] then .node .nameRef xs else .node .funcExpr [.node .nameRef xs, .node .argList ys] :=
  rfl

mutual
theorem kinds_plain : (b : BareTree) → b.plain.kinds = b.kinds
  | .token k => by simp
  | .node k cs => by
    rw [plain_node]
    unfold unhint
    split
    · rename_i xs ys heq
      have := kindsOf_plainList cs
      rw [heq] at this
      split <;> simp_all
    · simp [kindsOf_plainList cs]

theorem kindsOf_plainList : (bs : List BareTree) → kindsOf (plainList bs) = kindsOf bs
  | [] => by simp
  | b :: bs => by simp [kinds_plain b, kindsOf_plainList bs]
end

end BareTree

/-- A step's result with the hints forgotten. -/
def plainOut (p : List BareTree × Cursor) : List BareTree × Cursor :=
  (BareTree.plainList p.1, p.2.plain)

@[simp] theorem plainOut_mk (out : List BareTree) (s : Cursor) :
    plainOut (out, s) = (BareTree.plainList out, s.plain) := rfl

theorem plainOut_eq_mk {out out' : List BareTree} {s s' : Cursor}
    (h : plainOut (out, s) = (out', s')) : out' = BareTree.plainList out ∧ s' = s.plain := by
  simp only [plainOut_mk, Prod.mk.injEq] at h
  exact ⟨h.1.symm, h.2.symm⟩

/-- A step's result with a flag, with the hints forgotten. -/
def plainFlagOut (p : (Bool × List BareTree) × Cursor) : (Bool × List BareTree) × Cursor :=
  ((p.1.1, BareTree.plainList p.1.2), p.2.plain)

@[simp] theorem plainFlagOut_mk (b : Bool) (out : List BareTree) (s : Cursor) :
    plainFlagOut ((b, out), s) = ((b, BareTree.plainList out), s.plain) := rfl

theorem plainFlagOut_eq_mk {b b' : Bool} {out out' : List BareTree} {s s' : Cursor}
    (h : plainFlagOut ((b, out), s) = ((b', out'), s')) :
    b = b' ∧ out' = BareTree.plainList out ∧ s' = s.plain := by
  simp only [plainFlagOut_mk, Prod.mk.injEq] at h
  exact ⟨h.1.1, h.1.2.symm, h.2.symm⟩

/-- A step's result that may be missing, with the hints forgotten. -/
def plainOptOut (p : Option (List BareTree) × Cursor) : Option (List BareTree) × Cursor :=
  (p.1.map BareTree.plainList, p.2.plain)

@[simp] theorem plainOptOut_mk (out : Option (List BareTree)) (s : Cursor) :
    plainOptOut (out, s) = (out.map BareTree.plainList, s.plain) := rfl

theorem plainOptOut_eq_mk {out out' : Option (List BareTree)} {s s' : Cursor}
    (h : plainOptOut (out, s) = (out', s')) : out' = out.map BareTree.plainList ∧ s' = s.plain := by
  simp only [plainOptOut_mk, Prod.mk.injEq] at h
  exact ⟨h.1.symm, h.2.symm⟩

/-- A choice made the same way with and without the hints. -/
theorem ite_plain {c : Prop} {dc : Decidable c} {p q p' q' : List BareTree × Cursor}
    (hp : c → p' = plainOut p) (hq : ¬c → q' = plainOut q) :
    (if c then p' else q') = plainOut (if c then p else q) := by
  split
  · exact hp ‹_›
  · exact hq ‹_›

/-- Staying put, with the hints forgotten. -/
theorem plainOut_nil (s : Cursor) : (([] : List BareTree), s.plain) = plainOut ([], s) := rfl

/-! ## The steps of the cursor -/

namespace Cursor

/-- Line breaks at the front are taken, each as a token leaf. -/
theorem eatLineBreaks_val (s : Cursor) :
    s.eatLineBreaks.1 = ((s.rest.takeWhile (·.kind == .newline)).map fun _ => .token .newline,
      { s with rest := s.rest.dropWhile (·.kind == .newline) }) := by
  fun_induction Cursor.eatLineBreaks s with
  | case1 s t more h hk ts s1 h1 heq ih =>
    rw [heq] at ih
    simp only [Prod.mk.injEq] at ih
    simp [h, hk, ih]
  | case2 s t more h hk =>
    cases s
    simp_all [stay]
  | case3 s h =>
    cases s
    simp_all [stay]

theorem eatLineBreaks_plain (s : Cursor) : s.plain.eatLineBreaks.1 = plainOut s.eatLineBreaks.1 := by
  rw [eatLineBreaks_val, eatLineBreaks_val]
  simp only [plain_rest, List.takeWhile_map, List.dropWhile_map, Function.comp_def,
    Lexeme.plain_kind, List.map_map, plainOut_mk, BareTree.plainList_eq_map, BareTree.plain_token]
  rfl

/-- The cursor just past the next token `t`, before any line breaks after it. -/
def past (s : Cursor) (t : Lexeme) (more : List Lexeme) : Cursor :=
  { s with rest := more, lastEnd := if t.kind == .newline then s.lastEnd else t.stop }

theorem past_plain (s : Cursor) (t : Lexeme) (more : List Lexeme) :
    s.plain.past t.plain (more.map Lexeme.plain) = (s.past t more).plain := rfl

/-- The next token taken, with the line breaks after it inside parentheses. -/
theorem bumpAt_val {s : Cursor} {t : Lexeme} {more : List Lexeme} (h : s.rest = t :: more)
    (hr : s.rest ≠ []) :
    (s.bumpAt hr).1 =
      if s.parenDepth > 0 then
        (.token t.kind :: (s.past t more).eatLineBreaks.1.1, (s.past t more).eatLineBreaks.1.2)
      else ([.token t.kind], s.past t more) := by
  obtain ⟨rest, paren, depth, nesting, lastEnd, errors⟩ := s
  dsimp only at h
  subst h
  unfold bumpAt
  dsimp only
  by_cases hp : paren > 0
  · simp only [hp, ↓reduceIte]
    rfl
  · simp only [hp, ↓reduceIte]
    rfl

theorem bumpAt_plain (s : Cursor) (hr : s.rest ≠ []) (hr' : s.plain.rest ≠ []) :
    (s.plain.bumpAt hr').1 = plainOut (s.bumpAt hr).1 := by
  obtain ⟨t, more, h⟩ := List.exists_cons_of_ne_nil hr
  rw [bumpAt_val h, bumpAt_val (by simp [h] : s.plain.rest = t.plain :: more.map Lexeme.plain),
    past_plain, plain_parenDepth]
  split_ifs
  · rw [eatLineBreaks_plain]
    simp [plainOut]
  · simp

theorem bumpAny_plain (s : Cursor) : s.plain.bumpAny.1 = plainOut s.bumpAny.1 := by
  unfold bumpAny
  by_cases h : s.rest = []
  · have h' : s.plain.rest = [] := by simp [h]
    simp [h, stay]
  · have h' : s.plain.rest ≠ [] := by simpa using h
    rw [dif_neg h, dif_neg h']
    exact bumpAt_plain s h h'

@[simp] theorem stay_val {α : Type} (s : Cursor) (a : α) : (s.stay a).1 = (a, s) := rfl

/-- A step from a cursor with its hints forgotten, known through what it gives. -/
theorem Step.plain_eq {α : Type} {s : Cursor} {x : Step s.plain α} {a : α} {s' : Cursor}
    (h : x.1 = (a, s'.plain)) : x = ⟨(a, s'.plain), h ▸ x.2⟩ :=
  Subtype.ext h

/-- The step of a loop that takes the next token, with the hints forgotten. -/
theorem bumpAt_plain_eq {s s1 : Cursor} {hr : s.rest ≠ []} {hr' : s.plain.rest ≠ []}
    {ts : List BareTree} {h1 : s1.rest.length < s.rest.length}
    (heq : s.bumpAt hr = ⟨(ts, s1), h1⟩) :
    s.plain.bumpAt hr' = ⟨(BareTree.plainList ts, s1.plain), by simpa using h1⟩ :=
  Subtype.ext (by rw [bumpAt_plain s hr hr', heq]; rfl)

theorem eat_val (s : Cursor) (k : TokenKind) :
    (s.eat k).1 =
      if s.current == k && k != .eof then ((true, s.bumpAny.1.1), s.bumpAny.1.2)
      else ((false, []), s) := by
  unfold eat
  split <;> rfl

theorem eat_plain (s : Cursor) (k : TokenKind) : (s.plain.eat k).1 = plainFlagOut (s.eat k).1 := by
  rw [eat_val, eat_val, current_plain]
  split
  · rw [bumpAny_plain]
    rfl
  · simp

theorem expect_plain (s : Cursor) (k : TokenKind) :
    (s.plain.expect k).1 = plainFlagOut (s.expect k).1 := by
  have he := eat_plain s k
  unfold expect
  rcases e : s.eat k with ⟨⟨⟨ok, ts⟩, s1⟩, h1⟩
  rcases e' : s.plain.eat k with ⟨⟨⟨ok', ts'⟩, s1'⟩, h1'⟩
  rw [e, e'] at he
  simp only [plainFlagOut_mk, Prod.mk.injEq] at he
  obtain ⟨⟨rfl, rfl⟩, rfl⟩ := he
  cases ok'
  · simp
  · rfl

theorem recover_val (s : Cursor) (p : SyntaxProblem) (stopAt : TokenKind → Bool) :
    (s.recover p stopAt).1 =
      if stopAt s.current || s.atLineEnd then ([], s.report p)
      else ([.node .error (s.report p).bumpAny.1.1], (s.report p).bumpAny.1.2) := by
  unfold recover
  by_cases hc : (stopAt s.current || s.atLineEnd) = true
  · simp only [hc, ↓reduceIte, stay_val]
  · simp only [hc, Bool.false_eq_true, ↓reduceIte]

theorem recover_plain (s : Cursor) (p : SyntaxProblem) (stopAt : TokenKind → Bool) :
    (s.plain.recover p stopAt).1 = plainOut (s.recover p stopAt).1 := by
  rw [recover_val, recover_val, current_plain, atLineEnd_plain, report_plain, bumpAny_plain]
  split <;> simp [plainOut]

theorem skipLine_plain (s : Cursor) : s.plain.skipLine.1 = plainOut s.skipLine.1 := by
  fun_induction Cursor.skipLine s with
  | case1 s hl =>
    rw [skipLine, dif_pos (by simpa using hl)]
    simp
  | case2 s hl hne ts s1 h1 heq1 more s2 h2 heq2 ih =>
    rw [heq2] at ih
    rw [skipLine, dif_neg (by simpa using hl)]
    dsimp only
    rw [bumpAt_plain_eq heq1]
    dsimp only
    rw [Step.plain_eq ih]
    simp

theorem skipNested_plain (s : Cursor) (opened : Nat) :
    (s.plain.skipNested opened).1 = plainOut (s.skipNested opened).1 := by
  fun_induction Cursor.skipNested s opened with
  | case1 s opened hl =>
    rw [skipNested, dif_pos (by simpa using hl)]
    simp
  | case2 s opened hl hne k hk =>
    rw [skipNested, dif_neg (by simpa using hl)]
    dsimp only
    rw [current_plain, if_pos hk]
    simp
  | case3 s opened hl hne k hk opened2 ts s1 h1 heq1 more s2 h2 heq2 ih =>
    rw [heq2] at ih
    simp only [opened2, k, dite_eq_ite] at ih
    rw [skipNested, dif_neg (by simpa using hl)]
    dsimp only
    rw [current_plain, if_neg hk, bumpAt_plain_eq heq1]
    dsimp only
    rw [Step.plain_eq ih]
    simp

theorem skipBlock_plain (s : Cursor) (opened : Nat) :
    (s.plain.skipBlock opened).1 = plainOut (s.skipBlock opened).1 := by
  fun_induction Cursor.skipBlock s opened with
  | case1 s opened he =>
    rw [skipBlock, dif_pos (by simpa using he)]
    simp
  | case2 s opened he hne k isOpener isCloser hk =>
    rw [skipBlock, dif_neg (by simpa using he)]
    dsimp only
    rw [current_plain, if_pos hk]
    simp
  | case3 s opened he hne k isOpener isCloser hk opened2 ts s1 h1 heq1 more s2 h2 heq2 ih =>
    rw [heq2] at ih
    simp only [opened2, isOpener, isCloser, k, dite_eq_ite] at ih
    rw [skipBlock, dif_neg (by simpa using he)]
    dsimp only
    rw [current_plain, if_neg hk, bumpAt_plain_eq heq1]
    dsimp only
    rw [Step.plain_eq ih]
    simp

theorem expressionTooDeep_val (s : Cursor) :
    s.expressionTooDeep.1 =
      match ({ s.report .expressionTooDeep with parenDepth := 0 } : Cursor).skipNested 0 |>.1 with
      | (ts, s1) => ([.node .error ts], { s1 with parenDepth := s.parenDepth }) := rfl

theorem expressionTooDeep_plain (s : Cursor) :
    s.plain.expressionTooDeep.1 = plainOut s.expressionTooDeep.1 := by
  rw [expressionTooDeep_val, expressionTooDeep_val, report_plain, plain_withParenDepth,
    skipNested_plain]
  rcases (({ s.report .expressionTooDeep with parenDepth := 0 } : Cursor).skipNested 0).1
    with ⟨ts, s1⟩
  simp only [plainOut_mk, plain_withParenDepth, plain_parenDepth, BareTree.plainList_cons,
    BareTree.plain_node, BareTree.plainList_nil]
  simp

theorem blockTooDeep_val (s : Cursor) :
    s.blockTooDeep.1 =
      match ((s.report .blockTooDeep).skipBlock 0).1 with
      | (ts, s1) => ([.node .error ts], s1) := rfl

theorem blockTooDeep_plain (s : Cursor) : s.plain.blockTooDeep.1 = plainOut s.blockTooDeep.1 := by
  rw [blockTooDeep_val, blockTooDeep_val, report_plain, skipBlock_plain]
  rcases ((s.report .blockTooDeep).skipBlock 0).1 with ⟨ts, s1⟩
  simp

theorem expectNewline_val (s : Cursor) :
    s.expectNewline.1 =
      if (s.eat .newline).1.1.1 || (s.eat .newline).1.2.atEnd then
        ((s.eat .newline).1.1.2, (s.eat .newline).1.2)
      else
        ((s.eat .newline).1.1.2 ++
            [.node .error ((s.eat .newline).1.2.report .expectedNewline).skipLine.1.1] ++
            (((s.eat .newline).1.2.report .expectedNewline).skipLine.1.2.eat .newline).1.1.2,
          (((s.eat .newline).1.2.report .expectedNewline).skipLine.1.2.eat .newline).1.2) := by
  unfold expectNewline
  rcases s.eat .newline with ⟨⟨⟨ok, ts⟩, s1⟩, h1⟩
  dsimp only
  split <;> rfl

theorem expectNewline_plain (s : Cursor) : s.plain.expectNewline.1 = plainOut s.expectNewline.1 := by
  rw [expectNewline_val, expectNewline_val, eat_plain]
  generalize (s.eat .newline).1 = p
  obtain ⟨⟨ok, ts⟩, s1⟩ := p
  simp only [plainFlagOut_mk, atEnd_plain]
  split
  · simp
  · rw [report_plain, skipLine_plain]
    generalize ((s1.report .expectedNewline).skipLine).1 = q
    obtain ⟨junk, s2⟩ := q
    simp only [plainOut_mk]
    rw [eat_plain]
    simp [plainFlagOut]

theorem name_val (s : Cursor) (role : NameRole) :
    (s.name role).1 =
      if (s.eat .ident).1.1.1 then ([.node .name (s.eat .ident).1.1.2], (s.eat .ident).1.2)
      else ([], (s.eat .ident).1.2.report (.expectedName role)) := by
  unfold name
  rcases s.eat .ident with ⟨⟨⟨ok, ts⟩, s1⟩, h1⟩
  cases ok <;> rfl

theorem name_plain (s : Cursor) (role : NameRole) :
    (s.plain.name role).1 = plainOut (s.name role).1 := by
  rw [name_val, name_val, eat_plain]
  generalize (s.eat .ident).1 = p
  obtain ⟨⟨ok, ts⟩, s1⟩ := p
  cases ok <;> simp

theorem varDecl_val (s : Cursor) :
    s.varDecl.1 =
      ([.node .varDecl (s.bumpAny.1.1 ++ (s.bumpAny.1.2.name .variable).1.1)],
        (s.bumpAny.1.2.name .variable).1.2) := rfl

theorem varDecl_plain (s : Cursor) : s.plain.varDecl.1 = plainOut s.varDecl.1 := by
  rw [varDecl_val, varDecl_val, bumpAny_plain]
  generalize s.bumpAny.1 = p
  obtain ⟨ty, s1⟩ := p
  simp only [plainOut_mk]
  rw [name_plain]
  simp [plainOut]

theorem varOrVarDecl_val (s : Cursor) (stopAt : TokenKind → Bool) :
    (s.varOrVarDecl stopAt).1 =
      if s.current.isType then s.varDecl.1
      else if s.current == .ident then ([.node .nameRef s.bumpAny.1.1], s.bumpAny.1.2)
      else (s.recover .expectedVariable stopAt).1 := by
  unfold varOrVarDecl
  split_ifs <;> rfl

theorem varOrVarDecl_plain (s : Cursor) (stopAt : TokenKind → Bool) :
    (s.plain.varOrVarDecl stopAt).1 = plainOut (s.varOrVarDecl stopAt).1 := by
  rw [varOrVarDecl_val, varOrVarDecl_val, current_plain, varDecl_plain, bumpAny_plain,
    recover_plain]
  split_ifs <;> simp [plainOut]

theorem paramEntries_plain (s : Cursor) : s.plain.paramEntries.1 = plainOut s.paramEntries.1 := by
  fun_induction Cursor.paramEntries s with
  | case1 s hs =>
    rw [paramEntries, if_pos (by simpa using hs)]
    simp
  | case2 s hs v s1 h1 heq1 ok c s2 h2 heq2 hp more s3 h3 heq3 ih =>
    rw [heq3] at ih
    have hv : (s.plain.varOrVarDecl (· == .rBrace)).1 = (BareTree.plainList v, s1.plain) := by
      rw [varOrVarDecl_plain, heq1]
      rfl
    have hc : (s1.plain.eat .comma).1 = ((ok, BareTree.plainList c), s2.plain) := by
      rw [eat_plain, heq2]
      rfl
    rw [paramEntries, if_neg (by simpa using hs), Step.plain_eq hv]
    dsimp only
    rw [Step.plain_eq hc]
    dsimp only
    rw [dif_pos (by simpa using hp), Step.plain_eq ih]
    simp
  | case3 s hs v s1 h1 heq1 ok c s2 h2 heq2 hp =>
    have hv : (s.plain.varOrVarDecl (· == .rBrace)).1 = (BareTree.plainList v, s1.plain) := by
      rw [varOrVarDecl_plain, heq1]
      rfl
    have hc : (s1.plain.eat .comma).1 = ((ok, BareTree.plainList c), s2.plain) := by
      rw [eat_plain, heq2]
      rfl
    rw [paramEntries, if_neg (by simpa using hs), Step.plain_eq hv]
    dsimp only
    rw [Step.plain_eq hc]
    dsimp only
    rw [dif_neg (by simpa using hp)]
    simp

theorem paramList_val (s : Cursor) :
    s.paramList.1 =
      ([.node .paramList (s.bumpAny.1.1 ++ s.bumpAny.1.2.paramEntries.1.1 ++
          (s.bumpAny.1.2.paramEntries.1.2.expect .rBrace).1.1.2)],
        (s.bumpAny.1.2.paramEntries.1.2.expect .rBrace).1.2) := rfl

theorem paramList_plain (s : Cursor) : s.plain.paramList.1 = plainOut s.paramList.1 := by
  rw [paramList_val, paramList_val, bumpAny_plain]
  generalize s.bumpAny.1 = p
  obtain ⟨lb, s1⟩ := p
  simp only [plainOut_mk]
  rw [paramEntries_plain]
  generalize s1.paramEntries.1 = q
  obtain ⟨entries, s2⟩ := q
  simp only [plainOut_mk]
  rw [expect_plain]
  simp [plainFlagOut]

end Cursor

/-! ## The grammar -/

namespace Grammar

open Cursor

variable {fuel : Nat}

theorem keywordStmt_plain (s : Cursor) {kind : NodeKind} (hk : kind ≠ .funcExpr) :
    keywordStmt s.plain kind = plainOut (keywordStmt s kind) := by
  unfold keywordStmt
  rw [bumpAny_plain]
  rcases e1 : s.bumpAny.1 with ⟨kw, s1⟩
  split; rename_i he1
  obtain ⟨rfl, rfl⟩ := plainOut_eq_mk he1
  rw [expectNewline_plain]
  rcases e2 : s1.expectNewline.1 with ⟨nl, s2⟩
  split; rename_i he2
  obtain ⟨rfl, rfl⟩ := plainOut_eq_mk he2
  simp [hk]

/-- Where no argument starts, an argument sequence is empty. -/
theorem argSequence_stop {s : Cursor} (h : s.current.canStartArgument = false) (fuel : Nat) :
    argSequence fuel s false = ([], s) := by
  cases fuel with
  | zero => rw [argSequence.eq_1]
  | succ fuel =>
    rw [argSequence.eq_2]
    simp [h]

/-- The arguments of a call read with fuel to spare hold the token they start
at: the opening parenthesis, or the first bare argument. -/
theorem callArgs_kinds_ne_nil {s : Cursor} (hf : 5 ≤ fuel) (h : s.current.canStartArgument = true) :
    BareTree.kindsOf (if s.current == .lParen && s.second != .kwBegin then parenArgs fuel s
      else argSequence fuel s false).1 ≠ [] := by
  have hc := TokenKind.canStartExpr_of_canStartArgument h
  have hr : s.rest ≠ [] := rest_ne_nil_of_ne (TokenKind.canStartExpr_facts hc).2.1
  obtain ⟨f, rfl⟩ : ∃ f, fuel = f + 1 := ⟨fuel - 1, by omega⟩
  split
  · rw [parenArgs.eq_2]
    split; rename_i lp s1 e1
    have hlp := ((keeps_bumpAny _).of_eq e1).kindsOf_ne_nil
      (lt_of_eq (bumpAny_lt (s := { s with parenDepth := s.parenDepth + 1 }) hr) e1)
    split; split
    simp [hlp]
  · rw [argSequence.eq_2, if_pos (by simp [h])]
    split; rename_i a s1 e1
    have ha := ((kept f).unary s false).of_eq_getD e1 |>.kindsOf_ne_nil
      (lt_of_eq (unary_lt_of_le (by omega) hc false) e1)
    split; split
    simp [ha]

/-- At `fuel`, every function of the grammar run without the hints builds
the plain trees of what it builds with them and leaves the same cursor
without them, wherever `fuel` covers its need. The chains that extend a left
operand start from its plain trees. -/
structure Forgets (fuel : Nat) : Prop where
  stmtList : ∀ s, need 9 s ≤ fuel → stmtList fuel s.plain = plainOut (stmtList fuel s)
  stmtListBody : ∀ s, need 8 s ≤ fuel → stmtListBody fuel s.plain = plainOut (stmtListBody fuel s)
  statement : ∀ s, need 7 s ≤ fuel → statement fuel s.plain = plainOut (statement fuel s)
  varDeclStmt : ∀ s, s.rest ≠ [] → need 0 s ≤ fuel →
    varDeclStmt fuel s.plain = plainOut (varDeclStmt fuel s)
  setStmt : ∀ s, s.rest ≠ [] → need 0 s ≤ fuel → setStmt fuel s.plain = plainOut (setStmt fuel s)
  letStmt : ∀ s, s.rest ≠ [] → need 0 s ≤ fuel → letStmt fuel s.plain = plainOut (letStmt fuel s)
  ifStmt : ∀ s, s.rest ≠ [] → need 0 s ≤ fuel → ifStmt fuel s.plain = plainOut (ifStmt fuel s)
  elseChain : ∀ s, need 0 s ≤ fuel → elseChain fuel s.plain = plainOut (elseChain fuel s)
  whileStmt : ∀ s, s.rest ≠ [] → need 0 s ≤ fuel → whileStmt fuel s.plain = plainOut (whileStmt fuel s)
  foreachStmt : ∀ s, s.rest ≠ [] → need 0 s ≤ fuel →
    foreachStmt fuel s.plain = plainOut (foreachStmt fuel s)
  beginOrNested : ∀ s, s.rest ≠ [] → need 1 s ≤ fuel →
    beginOrNested fuel s.plain = plainOut (beginOrNested fuel s)
  beginStmt : ∀ s, s.rest ≠ [] → need 0 s ≤ fuel → beginStmt fuel s.plain = plainOut (beginStmt fuel s)
  returnStmt : ∀ s, s.rest ≠ [] → need 0 s ≤ fuel →
    returnStmt fuel s.plain = plainOut (returnStmt fuel s)
  exprStmt : ∀ s, need 6 s ≤ fuel → exprStmt fuel s.plain = plainOut (exprStmt fuel s)
  expression : ∀ s, need 5 s ≤ fuel → expression fuel s.plain = plainOut (expression fuel s)
  exprBp : ∀ s min, need 4 s ≤ fuel → exprBp fuel s.plain min = plainOut (exprBp fuel s min)
  infixChain : ∀ s min lhs, need 0 s ≤ fuel →
    infixChain fuel s.plain min (BareTree.plainList lhs) = plainOut (infixChain fuel s min lhs)
  unary : ∀ s calls, need 3 s ≤ fuel → unary fuel s.plain calls = plainOptOut (unary fuel s calls)
  unaryInner : ∀ s calls, need 2 s ≤ fuel →
    unaryInner fuel s.plain calls = plainOptOut (unaryInner fuel s calls)
  accessChain : ∀ s lhs calls, need 1 s ≤ fuel →
    accessChain fuel s.plain (BareTree.plainList lhs) calls = plainOut (accessChain fuel s lhs calls)
  primary : ∀ s calls, need 1 s ≤ fuel → primary fuel s.plain calls = plainOptOut (primary fuel s calls)
  nameRefOrCall : ∀ s calls, s.rest ≠ [] → need 0 s ≤ fuel →
    nameRefOrCall fuel s.plain calls = plainOut (nameRefOrCall fuel s calls)
  parenArgs : ∀ s, need 7 s ≤ fuel → parenArgs fuel s.plain = plainOut (parenArgs fuel s)
  parenArgItems : ∀ s, need 6 s ≤ fuel → parenArgItems fuel s.plain = plainOut (parenArgItems fuel s)
  bareArgs : ∀ s, need 5 s ≤ fuel → bareArgs fuel s.plain = plainOut (bareArgs fuel s)
  argSequence : ∀ s afterComma, need 4 s ≤ fuel →
    argSequence fuel s.plain afterComma = plainOut (argSequence fuel s afterComma)
  lambda : ∀ s, s.rest ≠ [] → need 0 s ≤ fuel → lambda fuel s.plain = plainOut (lambda fuel s)

/-- With no fuel left every function builds nothing and stays where it is. -/
theorem forgets_zero : Forgets 0 := by
  constructor <;> intros <;>
    simp only [stmtList, stmtListBody, statement, varDeclStmt, setStmt, letStmt, ifStmt,
      elseChain, whileStmt, foreachStmt, beginOrNested, beginStmt, returnStmt, exprStmt,
      expression, exprBp, infixChain, unary, unaryInner, accessChain, primary, nameRefOrCall,
      parenArgs, parenArgItems, bareArgs, argSequence, lambda] <;>
    rfl

section Step

variable (ih : Forgets fuel)
include ih

theorem stmtList_forgets (s : Cursor) (h : need 9 s ≤ fuel + 1) :
    stmtList (fuel + 1) s.plain = plainOut (stmtList (fuel + 1) s) := by
  rw [stmtList.eq_2 s.plain fuel, stmtList.eq_2 s fuel, tooDeep_plain]
  split_ifs
  · rw [blockTooDeep_plain]
    rcases e1 : s.blockTooDeep.1 with ⟨err, s1⟩
    split; rename_i he1
    obtain ⟨rfl, rfl⟩ := plainOut_eq_mk he1
    simp
  · rw [plain_nesting, plain_withNesting,
      ih.stmtListBody { s with nesting := s.nesting + 1 } (need_le_down le_rfl (by norm_num) h)]
    rcases e1 : stmtListBody fuel { s with nesting := s.nesting + 1 } with ⟨body, s1⟩
    split; rename_i he1
    obtain ⟨rfl, rfl⟩ := plainOut_eq_mk he1
    rw [plain_nesting, plain_withNesting]
    simp

theorem stmtListBody_forgets (s : Cursor) (h : need 8 s ≤ fuel + 1) :
    stmtListBody (fuel + 1) s.plain = plainOut (stmtListBody (fuel + 1) s) := by
  rw [stmtListBody.eq_2 s.plain fuel, stmtListBody.eq_2 s fuel, atEnd_plain, current_plain]
  split_ifs with hend hnl
  · simp
  · -- a blank line: its line break is taken
    rw [eat_plain]
    rcases e1 : (s.eat .newline).1 with ⟨⟨u, nl⟩, s1⟩
    have hlt := lt_of_eq (eat_lt (by simpa using hnl) (by decide)) e1
    split; rename_i he1
    simp only [plainFlagOut_mk, Prod.mk.injEq] at he1
    obtain ⟨rfl, rfl⟩ := he1
    rw [ih.stmtListBody s1 (need_le_step hlt (by norm_num) h)]
    rcases e2 : stmtListBody fuel s1 with ⟨more, s2⟩
    split; rename_i he2
    obtain ⟨rfl, rfl⟩ := plainOut_eq_mk he2
    simp
  · -- a statement, which takes a token
    have heof : s.current ≠ .eof := fun he => by simp [atEnd, he] at hend
    rw [ih.statement s (need_le_down le_rfl (by norm_num) h)]
    rcases e1 : statement fuel s with ⟨item, s1⟩
    have hlt := lt_of_eq (statement_lt_of_le
      (by have := le_of_need (rest_ne_nil_of_ne heof) h; omega) heof) e1
    split; rename_i he1
    obtain ⟨rfl, rfl⟩ := plainOut_eq_mk he1
    rw [ih.stmtListBody s1 (need_le_step hlt (by norm_num) h)]
    rcases e2 : stmtListBody fuel s1 with ⟨more, s2⟩
    split; rename_i he2
    obtain ⟨rfl, rfl⟩ := plainOut_eq_mk he2
    simp

theorem statement_forgets (s : Cursor) (h : need 7 s ≤ fuel + 1) :
    statement (fuel + 1) s.plain = plainOut (statement (fuel + 1) s) := by
  have hr : ∀ {k : TokenKind}, (s.current == k) = true → k ≠ .eof → s.rest ≠ [] :=
    fun hk hne => rest_ne_nil (eq_of_beq hk) hne
  have hd : ∀ {r : Nat}, r < 7 → need r s ≤ fuel := fun hr => need_le_down le_rfl hr h
  rw [statement.eq_2 s.plain fuel, statement.eq_2 s fuel, current_plain]
  -- the same dispatch on both sides; each form is called where its keyword is
  refine ite_plain (fun hk => ih.setStmt s (hr hk (by decide)) (hd (by norm_num))) fun _ => ?_
  refine ite_plain (fun hk => ih.letStmt s (hr hk (by decide)) (hd (by norm_num))) fun _ => ?_
  refine ite_plain (fun hk => ih.ifStmt s (hr hk (by decide)) (hd (by norm_num))) fun _ => ?_
  refine ite_plain (fun hk => ih.whileStmt s (hr hk (by decide)) (hd (by norm_num))) fun _ => ?_
  refine ite_plain (fun hk => ih.foreachStmt s (hr hk (by decide)) (hd (by norm_num)))
    fun _ => ?_
  refine ite_plain (fun hk => ih.beginOrNested s (hr hk (by decide)) (hd (by norm_num)))
    fun _ => ?_
  refine ite_plain (fun hk => ih.returnStmt s (hr hk (by decide)) (hd (by norm_num)))
    fun _ => ?_
  refine ite_plain (fun _ => keywordStmt_plain s (by decide)) fun _ => ?_
  refine ite_plain (fun _ => keywordStmt_plain s (by decide)) fun _ => ?_
  refine ite_plain (fun htype => ?_) fun _ => ih.exprStmt s (hd (by norm_num))
  have heof : s.current ≠ .eof := fun he => by simp [he, TokenKind.isType] at htype
  exact ih.varDeclStmt s (rest_ne_nil_of_ne heof) (hd (by norm_num))

theorem varDeclStmt_forgets (s : Cursor) (hr : s.rest ≠ []) (h : need 0 s ≤ fuel + 1) :
    varDeclStmt (fuel + 1) s.plain = plainOut (varDeclStmt (fuel + 1) s) := by
  rw [varDeclStmt.eq_2 s.plain fuel, varDeclStmt.eq_2 s fuel, varDecl_plain]
  rcases e1 : s.varDecl.1 with ⟨decl, s1⟩
  have hlt := lt_of_eq (varDecl_lt hr) e1
  split; rename_i he1
  obtain ⟨rfl, rfl⟩ := plainOut_eq_mk he1
  rw [eat_plain]
  rcases e2 : (s1.eat .colonEq).1 with ⟨⟨ok, op⟩, s2⟩
  have r2 := ((Reach.refl s1).eat _).of_eq e2
  split; rename_i he2
  obtain ⟨rfl, rfl, rfl⟩ := plainFlagOut_eq_mk he2
  rw [ite_plain (fun _ => ih.expression s2 (need_le_step (r2.lt_of_lt hlt) (by norm_num) h))
    fun _ => plainOut_nil s2]
  rcases e3 : (if ok then expression fuel s2 else ([], s2)) with ⟨init, s3⟩
  split; rename_i he3
  obtain ⟨rfl, rfl⟩ := plainOut_eq_mk he3
  rw [expectNewline_plain]
  rcases e4 : s3.expectNewline.1 with ⟨nl, s4⟩
  split; rename_i he4
  obtain ⟨rfl, rfl⟩ := plainOut_eq_mk he4
  simp

theorem setStmt_forgets (s : Cursor) (hr : s.rest ≠ []) (h : need 0 s ≤ fuel + 1) :
    setStmt (fuel + 1) s.plain = plainOut (setStmt (fuel + 1) s) := by
  rw [setStmt.eq_2 s.plain fuel, setStmt.eq_2 s fuel, bumpAny_plain]
  rcases e1 : s.bumpAny.1 with ⟨kw, s1⟩
  have hlt := lt_of_eq (bumpAny_lt hr) e1
  split; rename_i he1
  obtain ⟨rfl, rfl⟩ := plainOut_eq_mk he1
  rw [ih.expression s1 (need_le_step hlt (by norm_num) h)]
  rcases e2 : expression fuel s1 with ⟨target, s2⟩
  have r2 := ((reaches fuel).expression (Reach.refl s1)).of_eq e2
  split; rename_i he2
  obtain ⟨rfl, rfl⟩ := plainOut_eq_mk he2
  rw [expect_plain]
  rcases e3 : (s2.expect .kwTo).1 with ⟨⟨ok, toKw⟩, s3⟩
  have r3 := (r2.expect _).of_eq e3
  split; rename_i he3
  obtain ⟨rfl, rfl, rfl⟩ := plainFlagOut_eq_mk he3
  rw [ite_plain (fun _ => ih.expression s3 (need_le_step (r3.lt_of_lt hlt) (by norm_num) h))
    fun _ => plainOut_nil s3]
  rcases e4 : (if ok then expression fuel s3 else ([], s3)) with ⟨value, s4⟩
  split; rename_i he4
  obtain ⟨rfl, rfl⟩ := plainOut_eq_mk he4
  rw [expectNewline_plain]
  rcases e5 : s4.expectNewline.1 with ⟨nl, s5⟩
  split; rename_i he5
  obtain ⟨rfl, rfl⟩ := plainOut_eq_mk he5
  simp

theorem letStmt_forgets (s : Cursor) (hr : s.rest ≠ []) (h : need 0 s ≤ fuel + 1) :
    letStmt (fuel + 1) s.plain = plainOut (letStmt (fuel + 1) s) := by
  rw [letStmt.eq_2 s.plain fuel, letStmt.eq_2 s fuel, bumpAny_plain]
  rcases e1 : s.bumpAny.1 with ⟨kw, s1⟩
  have hlt := lt_of_eq (bumpAny_lt hr) e1
  split; rename_i he1
  obtain ⟨rfl, rfl⟩ := plainOut_eq_mk he1
  rw [ih.expression s1 (need_le_step hlt (by norm_num) h)]
  rcases e2 : expression fuel s1 with ⟨e, s2⟩
  split; rename_i he2
  obtain ⟨rfl, rfl⟩ := plainOut_eq_mk he2
  rw [expectNewline_plain]
  rcases e3 : s2.expectNewline.1 with ⟨nl, s3⟩
  split; rename_i he3
  obtain ⟨rfl, rfl⟩ := plainOut_eq_mk he3
  simp

theorem ifStmt_forgets (s : Cursor) (hr : s.rest ≠ []) (h : need 0 s ≤ fuel + 1) :
    ifStmt (fuel + 1) s.plain = plainOut (ifStmt (fuel + 1) s) := by
  rw [ifStmt.eq_2 s.plain fuel, ifStmt.eq_2 s fuel, bumpAny_plain]
  rcases e1 : s.bumpAny.1 with ⟨kw, s1⟩
  have hlt := lt_of_eq (bumpAny_lt hr) e1
  split; rename_i he1
  obtain ⟨rfl, rfl⟩ := plainOut_eq_mk he1
  rw [ih.expression s1 (need_le_step hlt (by norm_num) h)]
  rcases e2 : expression fuel s1 with ⟨cond, s2⟩
  have r2 := ((reaches fuel).expression (Reach.refl s1)).of_eq e2
  split; rename_i he2
  obtain ⟨rfl, rfl⟩ := plainOut_eq_mk he2
  rw [expectNewline_plain]
  rcases e3 : s2.expectNewline.1 with ⟨nl, s3⟩
  have r3 := r2.expectNewline.of_eq e3
  split; rename_i he3
  obtain ⟨rfl, rfl⟩ := plainOut_eq_mk he3
  rw [ih.stmtList s3 (need_le_step (r3.lt_of_lt hlt) (by norm_num) h)]
  rcases e4 : stmtList fuel s3 with ⟨body, s4⟩
  have r4 := ((reaches fuel).stmtList r3).of_eq e4
  split; rename_i he4
  obtain ⟨rfl, rfl⟩ := plainOut_eq_mk he4
  rw [ih.elseChain s4 (need_le_step (r4.lt_of_lt hlt) (by norm_num) h)]
  rcases e5 : elseChain fuel s4 with ⟨branch, s5⟩
  split; rename_i he5
  obtain ⟨rfl, rfl⟩ := plainOut_eq_mk he5
  rw [expect_plain]
  rcases e6 : (s5.expect .kwEndIf).1 with ⟨⟨ok, endif⟩, s6⟩
  split; rename_i he6
  obtain ⟨rfl, rfl, rfl⟩ := plainFlagOut_eq_mk he6
  rw [ite_plain (fun _ => expectNewline_plain s6) fun _ => plainOut_nil s6]
  rcases e7 : (if ok then s6.expectNewline.1 else ([], s6)) with ⟨nl2, s7⟩
  split; rename_i he7
  obtain ⟨rfl, rfl⟩ := plainOut_eq_mk he7
  simp

theorem elseChain_forgets (s : Cursor) (h : need 0 s ≤ fuel + 1) :
    elseChain (fuel + 1) s.plain = plainOut (elseChain (fuel + 1) s) := by
  rw [elseChain.eq_2 s.plain fuel, elseChain.eq_2 s fuel, current_plain]
  split_ifs with helif helse
  · have hr : s.rest ≠ [] := rest_ne_nil (by simpa using helif) (by decide)
    rw [bumpAny_plain]
    rcases e1 : s.bumpAny.1 with ⟨kw, s1⟩
    have hlt := lt_of_eq (bumpAny_lt hr) e1
    split; rename_i he1
    obtain ⟨rfl, rfl⟩ := plainOut_eq_mk he1
    rw [ih.expression s1 (need_le_step hlt (by norm_num) h)]
    rcases e2 : expression fuel s1 with ⟨cond, s2⟩
    have r2 := ((reaches fuel).expression (Reach.refl s1)).of_eq e2
    split; rename_i he2
    obtain ⟨rfl, rfl⟩ := plainOut_eq_mk he2
    rw [expectNewline_plain]
    rcases e3 : s2.expectNewline.1 with ⟨nl, s3⟩
    have r3 := r2.expectNewline.of_eq e3
    split; rename_i he3
    obtain ⟨rfl, rfl⟩ := plainOut_eq_mk he3
    rw [ih.stmtList s3 (need_le_step (r3.lt_of_lt hlt) (by norm_num) h)]
    rcases e4 : stmtList fuel s3 with ⟨body, s4⟩
    have r4 := ((reaches fuel).stmtList r3).of_eq e4
    split; rename_i he4
    obtain ⟨rfl, rfl⟩ := plainOut_eq_mk he4
    rw [ih.elseChain s4 (need_le_step (r4.lt_of_lt hlt) (by norm_num) h)]
    rcases e5 : elseChain fuel s4 with ⟨next, s5⟩
    split; rename_i he5
    obtain ⟨rfl, rfl⟩ := plainOut_eq_mk he5
    simp
  · have hr : s.rest ≠ [] := rest_ne_nil (by simpa using helse) (by decide)
    rw [bumpAny_plain]
    rcases e1 : s.bumpAny.1 with ⟨kw, s1⟩
    have hlt := lt_of_eq (bumpAny_lt hr) e1
    split; rename_i he1
    obtain ⟨rfl, rfl⟩ := plainOut_eq_mk he1
    rw [expectNewline_plain]
    rcases e2 : s1.expectNewline.1 with ⟨nl, s2⟩
    have r2 := (Reach.refl s1).expectNewline.of_eq e2
    split; rename_i he2
    obtain ⟨rfl, rfl⟩ := plainOut_eq_mk he2
    rw [ih.stmtList s2 (need_le_step (r2.lt_of_lt hlt) (by norm_num) h)]
    rcases e3 : stmtList fuel s2 with ⟨body, s3⟩
    split; rename_i he3
    obtain ⟨rfl, rfl⟩ := plainOut_eq_mk he3
    simp
  · rfl

theorem whileStmt_forgets (s : Cursor) (hr : s.rest ≠ []) (h : need 0 s ≤ fuel + 1) :
    whileStmt (fuel + 1) s.plain = plainOut (whileStmt (fuel + 1) s) := by
  rw [whileStmt.eq_2 s.plain fuel, whileStmt.eq_2 s fuel, bumpAny_plain]
  rcases e1 : s.bumpAny.1 with ⟨kw, s1⟩
  have hlt := lt_of_eq (bumpAny_lt hr) e1
  split; rename_i he1
  obtain ⟨rfl, rfl⟩ := plainOut_eq_mk he1
  rw [ih.expression s1 (need_le_step hlt (by norm_num) h)]
  rcases e2 : expression fuel s1 with ⟨cond, s2⟩
  have r2 := ((reaches fuel).expression (Reach.refl s1)).of_eq e2
  split; rename_i he2
  obtain ⟨rfl, rfl⟩ := plainOut_eq_mk he2
  rw [expectNewline_plain]
  rcases e3 : s2.expectNewline.1 with ⟨nl, s3⟩
  have r3 := r2.expectNewline.of_eq e3
  split; rename_i he3
  obtain ⟨rfl, rfl⟩ := plainOut_eq_mk he3
  rw [ih.stmtList s3 (need_le_step (r3.lt_of_lt hlt) (by norm_num) h)]
  rcases e4 : stmtList fuel s3 with ⟨body, s4⟩
  split; rename_i he4
  obtain ⟨rfl, rfl⟩ := plainOut_eq_mk he4
  rw [expect_plain]
  rcases e5 : (s4.expect .kwLoop).1 with ⟨⟨ok, lp⟩, s5⟩
  split; rename_i he5
  obtain ⟨rfl, rfl, rfl⟩ := plainFlagOut_eq_mk he5
  rw [ite_plain (fun _ => expectNewline_plain s5) fun _ => plainOut_nil s5]
  rcases e6 : (if ok then s5.expectNewline.1 else ([], s5)) with ⟨nl2, s6⟩
  split; rename_i he6
  obtain ⟨rfl, rfl⟩ := plainOut_eq_mk he6
  simp

theorem foreachStmt_forgets (s : Cursor) (hr : s.rest ≠ []) (h : need 0 s ≤ fuel + 1) :
    foreachStmt (fuel + 1) s.plain = plainOut (foreachStmt (fuel + 1) s) := by
  rw [foreachStmt.eq_2 s.plain fuel, foreachStmt.eq_2 s fuel, bumpAny_plain]
  rcases e1 : s.bumpAny.1 with ⟨kw, s1⟩
  have hlt := lt_of_eq (bumpAny_lt hr) e1
  split; rename_i he1
  obtain ⟨rfl, rfl⟩ := plainOut_eq_mk he1
  rw [varOrVarDecl_plain]
  rcases e2 : (s1.varOrVarDecl (· == .lArrow)).1 with ⟨var, s2⟩
  have r2 := ((Reach.refl s1).varOrVarDecl _).of_eq e2
  split; rename_i he2
  obtain ⟨rfl, rfl⟩ := plainOut_eq_mk he2
  rw [expect_plain]
  rcases e3 : (s2.expect .lArrow).1 with ⟨⟨ok, arrow⟩, s3⟩
  have r3 := (r2.expect _).of_eq e3
  split; rename_i he3
  obtain ⟨rfl, rfl, rfl⟩ := plainFlagOut_eq_mk he3
  rw [ite_plain (fun _ => ih.expression s3 (need_le_step (r3.lt_of_lt hlt) (by norm_num) h))
    fun _ => plainOut_nil s3]
  rcases e4 : (if ok then expression fuel s3 else ([], s3)) with ⟨iter, s4⟩
  have r4 := (Reach.ite (fun _ => (reaches fuel).expression r3) (fun _ => r3)).of_eq e4
  split; rename_i he4
  obtain ⟨rfl, rfl⟩ := plainOut_eq_mk he4
  rw [expectNewline_plain]
  rcases e5 : s4.expectNewline.1 with ⟨nl, s5⟩
  have r5 := r4.expectNewline.of_eq e5
  split; rename_i he5
  obtain ⟨rfl, rfl⟩ := plainOut_eq_mk he5
  rw [ih.stmtList s5 (need_le_step (r5.lt_of_lt hlt) (by norm_num) h)]
  rcases e6 : stmtList fuel s5 with ⟨body, s6⟩
  split; rename_i he6
  obtain ⟨rfl, rfl⟩ := plainOut_eq_mk he6
  rw [expect_plain]
  rcases e7 : (s6.expect .kwLoop).1 with ⟨⟨ok2, lp⟩, s7⟩
  split; rename_i he7
  obtain ⟨rfl, rfl, rfl⟩ := plainFlagOut_eq_mk he7
  rw [ite_plain (fun _ => expectNewline_plain s7) fun _ => plainOut_nil s7]
  rcases e8 : (if ok2 then s7.expectNewline.1 else ([], s7)) with ⟨nl2, s8⟩
  split; rename_i he8
  obtain ⟨rfl, rfl⟩ := plainOut_eq_mk he8
  simp

theorem beginOrNested_forgets (s : Cursor) (hr : s.rest ≠ []) (h : need 1 s ≤ fuel + 1) :
    beginOrNested (fuel + 1) s.plain = plainOut (beginOrNested (fuel + 1) s) := by
  have hd : need 0 s ≤ fuel := need_le_down le_rfl (by norm_num) h
  rw [beginOrNested.eq_2 s.plain fuel, beginOrNested.eq_2 s fuel, plain_beginDepth]
  split_ifs
  · exact ih.beginStmt s hr hd
  · -- a nested block is reported where it starts
    rw [report_plain, ih.beginStmt (s.report .nestedBegin) (by simpa using hr) (by simpa using hd)]
    rcases e1 : beginStmt fuel (s.report .nestedBegin) with ⟨blk, s1⟩
    split; rename_i he1
    obtain ⟨rfl, rfl⟩ := plainOut_eq_mk he1
    simp

theorem beginStmt_forgets (s : Cursor) (hr : s.rest ≠ []) (h : need 0 s ≤ fuel + 1) :
    beginStmt (fuel + 1) s.plain = plainOut (beginStmt (fuel + 1) s) := by
  rw [beginStmt.eq_2 s.plain fuel, beginStmt.eq_2 s fuel, bumpAny_plain]
  rcases e1 : s.bumpAny.1 with ⟨kw, s1⟩
  have hlt := lt_of_eq (bumpAny_lt hr) e1
  split; rename_i he1
  obtain ⟨rfl, rfl⟩ := plainOut_eq_mk he1
  rw [name_plain]
  rcases e2 : (s1.name .blockType).1 with ⟨ty, s2⟩
  have r2 := ((Reach.refl s1).name _).of_eq e2
  split; rename_i he2
  obtain ⟨rfl, rfl⟩ := plainOut_eq_mk he2
  rw [current_plain, ite_plain (fun _ => paramList_plain s2) fun _ =>
    ite_plain (fun _ => ih.bareArgs s2 (need_le_step (r2.lt_of_lt hlt) (by norm_num) h))
      fun _ => plainOut_nil s2]
  rcases e3 : (if s2.current == .lBrace then s2.paramList.1
      else if s2.current.canStartArgument then bareArgs fuel s2 else ([], s2)) with ⟨extra, s3⟩
  have r3 := (Reach.ite (fun _ => r2.paramList)
    (fun _ => Reach.ite (fun _ => (reaches fuel).bareArgs r2) (fun _ => r2))).of_eq e3
  split; rename_i he3
  obtain ⟨rfl, rfl⟩ := plainOut_eq_mk he3
  rw [expectNewline_plain]
  rcases e4 : s3.expectNewline.1 with ⟨nl, s4⟩
  -- the body is one block deeper, which moves no token
  have r4 := (r3.expectNewline.of_eq e4).beginDepth (s4.beginDepth + 1)
  split; rename_i he4
  obtain ⟨rfl, rfl⟩ := plainOut_eq_mk he4
  rw [plain_beginDepth, plain_withBeginDepth,
    ih.stmtList _ (need_le_step (r4.lt_of_lt hlt) (by norm_num) h)]
  rcases e5 : stmtList fuel { s4 with beginDepth := s4.beginDepth + 1 } with ⟨body, s5⟩
  split; rename_i he5
  obtain ⟨rfl, rfl⟩ := plainOut_eq_mk he5
  rw [plain_beginDepth, plain_withBeginDepth, expect_plain]
  rcases e6 : (({ s5 with beginDepth := s5.beginDepth - 1 } : Cursor).expect .kwEnd).1 with
    ⟨⟨ok, e⟩, s6⟩
  split; rename_i he6
  obtain ⟨rfl, rfl, rfl⟩ := plainFlagOut_eq_mk he6
  rw [ite_plain (fun _ => expectNewline_plain s6) fun _ => plainOut_nil s6]
  rcases e7 : (if ok then s6.expectNewline.1 else ([], s6)) with ⟨nl2, s7⟩
  split; rename_i he7
  obtain ⟨rfl, rfl⟩ := plainOut_eq_mk he7
  simp

theorem returnStmt_forgets (s : Cursor) (hr : s.rest ≠ []) (h : need 0 s ≤ fuel + 1) :
    returnStmt (fuel + 1) s.plain = plainOut (returnStmt (fuel + 1) s) := by
  rw [returnStmt.eq_2 s.plain fuel, returnStmt.eq_2 s fuel, bumpAny_plain]
  rcases e1 : s.bumpAny.1 with ⟨kw, s1⟩
  have hlt := lt_of_eq (bumpAny_lt hr) e1
  split; rename_i he1
  obtain ⟨rfl, rfl⟩ := plainOut_eq_mk he1
  rw [current_plain, ite_plain (fun _ => ih.expression s1 (need_le_step hlt (by norm_num) h))
    fun _ => plainOut_nil s1]
  rcases e2 : (if s1.current.canStartExpr then expression fuel s1 else ([], s1)) with ⟨e, s2⟩
  split; rename_i he2
  obtain ⟨rfl, rfl⟩ := plainOut_eq_mk he2
  rw [expectNewline_plain]
  rcases e3 : s2.expectNewline.1 with ⟨nl, s3⟩
  split; rename_i he3
  obtain ⟨rfl, rfl⟩ := plainOut_eq_mk he3
  simp

theorem exprStmt_forgets (s : Cursor) (h : need 6 s ≤ fuel + 1) :
    exprStmt (fuel + 1) s.plain = plainOut (exprStmt (fuel + 1) s) := by
  rw [exprStmt.eq_2 s.plain fuel, exprStmt.eq_2 s fuel,
    ih.expression s (need_le_down le_rfl (by norm_num) h)]
  rcases e1 : expression fuel s with ⟨e, s1⟩
  split; rename_i he1
  obtain ⟨rfl, rfl⟩ := plainOut_eq_mk he1
  rw [expectNewline_plain]
  rcases e2 : s1.expectNewline.1 with ⟨nl, s2⟩
  split; rename_i he2
  obtain ⟨rfl, rfl⟩ := plainOut_eq_mk he2
  simp

theorem expression_forgets (s : Cursor) (h : need 5 s ≤ fuel + 1) :
    expression (fuel + 1) s.plain = plainOut (expression (fuel + 1) s) := by
  rw [expression.eq_2 s.plain fuel, expression.eq_2 s fuel]
  exact ih.exprBp s 0 (need_le_down le_rfl (by norm_num) h)

theorem exprBp_forgets (s : Cursor) (min : Nat) (h : need 4 s ≤ fuel + 1) :
    exprBp (fuel + 1) s.plain min = plainOut (exprBp (fuel + 1) s min) := by
  rw [exprBp.eq_2 s.plain min fuel, exprBp.eq_2 s min fuel,
    ih.unary s true (need_le_down le_rfl (by norm_num) h)]
  rcases e1 : unary fuel s true with ⟨lhs?, s1⟩
  have r1 := ((reaches fuel).unary true (Reach.refl s)).of_eq e1
  split; rename_i he1
  obtain ⟨rfl, rfl⟩ := plainOptOut_eq_mk he1
  -- the operand may be missing; the chain after it ranks lower either way
  rcases lhs? with _ | lhs
  · rfl
  · split
    · rename_i he
      simp at he
    · rename_i lhs' he
      obtain rfl : BareTree.plainList lhs = lhs' := by simpa using he
      rw [ih.infixChain s1 min lhs (need_le_down r1.length_le (by norm_num) h)]
      rcases e2 : infixChain fuel s1 min lhs with ⟨e, s2⟩
      split; rename_i he2
      obtain ⟨rfl, rfl⟩ := plainOut_eq_mk he2
      rw [plain_nesting, plain_withNesting]
      rfl

theorem infixChain_forgets (s : Cursor) (min : Nat) (lhs : List BareTree)
    (h : need 0 s ≤ fuel + 1) :
    infixChain (fuel + 1) s.plain min (BareTree.plainList lhs) =
      plainOut (infixChain (fuel + 1) s min lhs) := by
  rw [infixChain.eq_2 s.plain min _ fuel, infixChain.eq_2 s min lhs fuel, current_plain]
  split
  · rfl
  · rename_i l r hp
    have heof : s.current ≠ .eof := fun he => by simp [he, TokenKind.infixPower] at hp
    rw [tooDeep_plain]
    split_ifs
    · rfl
    · rw [expressionTooDeep_plain]
      rcases e1 : s.expressionTooDeep.1 with ⟨err, s1⟩
      split; rename_i he1
      obtain ⟨rfl, rfl⟩ := plainOut_eq_mk he1
      simp
    · -- an operator, then its right operand at the operator's power
      rw [plain_nesting, plain_withNesting, bumpAny_plain]
      rcases e1 : (bumpAny { s with nesting := s.nesting + 1 }).1 with ⟨op, s1⟩
      have hlt := lt_of_eq (bumpAny_lt (s := { s with nesting := s.nesting + 1 })
        (rest_ne_nil_of_ne heof)) e1
      split; rename_i he1
      obtain ⟨rfl, rfl⟩ := plainOut_eq_mk he1
      rw [ih.exprBp s1 r (need_le_step hlt (by norm_num) h)]
      rcases e2 : exprBp fuel s1 r with ⟨rhs, s2⟩
      have r2 := ((reaches fuel).exprBp r (Reach.refl s1)).of_eq e2
      split; rename_i he2
      obtain ⟨rfl, rfl⟩ := plainOut_eq_mk he2
      simpa using ih.infixChain s2 min [.node .binExpr (lhs ++ op ++ rhs)]
        (need_le_step (r2.lt_of_lt hlt) (by norm_num) h)

theorem unary_forgets (s : Cursor) (calls : Bool) (h : need 3 s ≤ fuel + 1) :
    unary (fuel + 1) s.plain calls = plainOptOut (unary (fuel + 1) s calls) := by
  rw [unary.eq_2 s.plain calls fuel, unary.eq_2 s calls fuel, tooDeep_plain]
  split_ifs
  · rw [expressionTooDeep_plain]
    rcases e1 : s.expressionTooDeep.1 with ⟨err, s1⟩
    split; rename_i he1
    obtain ⟨rfl, rfl⟩ := plainOut_eq_mk he1
    rfl
  · rw [plain_nesting, plain_withNesting,
      ih.unaryInner { s with nesting := s.nesting + 1 } calls (need_le_down le_rfl (by norm_num) h)]
    rcases e1 : unaryInner fuel { s with nesting := s.nesting + 1 } calls with ⟨e, s1⟩
    split; rename_i he1
    obtain ⟨rfl, rfl⟩ := plainOptOut_eq_mk he1
    rw [plain_nesting, plain_withNesting]
    rfl

theorem unaryInner_forgets (s : Cursor) (calls : Bool) (h : need 2 s ≤ fuel + 1) :
    unaryInner (fuel + 1) s.plain calls = plainOptOut (unaryInner (fuel + 1) s calls) := by
  rw [unaryInner.eq_2 s.plain calls fuel, unaryInner.eq_2 s calls fuel, current_plain]
  split
  · -- a prefix operator takes its token before the operand
    rename_i bp hp
    have heof : s.current ≠ .eof := fun he => by simp [he, TokenKind.prefixPower] at hp
    rw [bumpAny_plain]
    rcases e1 : s.bumpAny.1 with ⟨op, s1⟩
    have hlt := lt_of_eq (bumpAny_lt (rest_ne_nil_of_ne heof)) e1
    split; rename_i he1
    obtain ⟨rfl, rfl⟩ := plainOut_eq_mk he1
    cases calls
    · rw [if_neg Bool.false_ne_true, if_neg Bool.false_ne_true,
        ih.unary s1 false (need_le_step hlt (by norm_num) h)]
      rcases e2 : unary fuel s1 false with ⟨e, s2⟩
      split; rename_i he2
      simp only [plainOptOut_mk, Prod.mk.injEq] at he2
      obtain ⟨rfl, rfl⟩ := he2
      cases e <;> simp
    · rw [if_pos rfl, if_pos rfl, ih.exprBp s1 bp (need_le_step hlt (by norm_num) h)]
      rcases e2 : exprBp fuel s1 bp with ⟨inner, s2⟩
      split; rename_i he2
      obtain ⟨rfl, rfl⟩ := plainOut_eq_mk he2
      simp
  · -- the accesses follow the primary at a lower rank, taken or not
    rw [ih.primary s calls (need_le_down le_rfl (by norm_num) h)]
    rcases e1 : primary fuel s calls with ⟨p?, s1⟩
    have r1 := ((reaches fuel).primary calls (Reach.refl s)).of_eq e1
    split; rename_i he1
    obtain ⟨rfl, rfl⟩ := plainOptOut_eq_mk he1
    rcases p? with _ | p
    · rfl
    · split
      · rename_i he
        simp at he
      · rename_i p' he
        obtain rfl : BareTree.plainList p = p' := by simpa using he
        rw [ih.accessChain s1 p calls (need_le_down r1.length_le (by norm_num) h)]
        rcases e2 : accessChain fuel s1 p calls with ⟨e, s2⟩
        split; rename_i he2
        obtain ⟨rfl, rfl⟩ := plainOut_eq_mk he2
        rw [plain_nesting, plain_withNesting]
        rfl

theorem accessChain_forgets (s : Cursor) (lhs : List BareTree) (calls : Bool)
    (h : need 1 s ≤ fuel + 1) :
    accessChain (fuel + 1) s.plain (BareTree.plainList lhs) calls =
      plainOut (accessChain (fuel + 1) s lhs calls) := by
  rw [accessChain.eq_2 s.plain _ calls fuel, accessChain.eq_2 s lhs calls fuel, current_plain,
    tooDeep_plain]
  split_ifs with hdeep hdot hbr
  · rw [expressionTooDeep_plain]
    rcases e1 : s.expressionTooDeep.1 with ⟨err, s1⟩
    split; rename_i he1
    obtain ⟨rfl, rfl⟩ := plainOut_eq_mk he1
    simp
  · -- a member: the name after the operator is a name or call
    have heof : s.current ≠ .eof := fun he => by simp [he] at hdot
    rw [plain_nesting, plain_withNesting, bumpAny_plain]
    rcases e1 : (bumpAny { s with nesting := s.nesting + 1 }).1 with ⟨op, s1⟩
    have hlt := lt_of_eq (bumpAny_lt (s := { s with nesting := s.nesting + 1 })
      (rest_ne_nil_of_ne heof)) e1
    split; rename_i he1
    obtain ⟨rfl, rfl⟩ := plainOut_eq_mk he1
    rw [current_plain, report_plain, ite_plain (fun hid => ih.nameRefOrCall s1 calls
      (rest_ne_nil (eq_of_beq hid) (by decide)) (need_le_step hlt (by norm_num) h))
      fun _ => plainOut_nil _]
    rcases e2 : (if s1.current == .ident then nameRefOrCall fuel s1 calls
        else ([], s1.report .expectedMemberName)) with ⟨m, s2⟩
    have r2 := (Reach.ite (fun _ => (reaches fuel).nameRefOrCall calls (Reach.refl s1))
      (fun _ => (Reach.refl s1).report _)).of_eq e2
    split; rename_i he2
    obtain ⟨rfl, rfl⟩ := plainOut_eq_mk he2
    simpa using ih.accessChain s2 [.node .memberExpr (lhs ++ op ++ m)] calls
      (need_le_step (r2.lt_of_lt hlt) (by norm_num) h)
  · -- an index
    rw [plain_nesting, plain_withNesting, bumpAny_plain]
    rcases e1 : (bumpAny { s with nesting := s.nesting + 1 }).1 with ⟨lb, s1⟩
    have hlt := lt_of_eq (bumpAny_lt (s := { s with nesting := s.nesting + 1 })
      (rest_ne_nil (eq_of_beq hbr) (by decide))) e1
    split; rename_i he1
    obtain ⟨rfl, rfl⟩ := plainOut_eq_mk he1
    rw [ih.expression s1 (need_le_step hlt (by norm_num) h)]
    rcases e2 : expression fuel s1 with ⟨idx, s2⟩
    have r2 := ((reaches fuel).expression (Reach.refl s1)).of_eq e2
    split; rename_i he2
    obtain ⟨rfl, rfl⟩ := plainOut_eq_mk he2
    rw [expect_plain]
    rcases e3 : (s2.expect .rBracket).1 with ⟨⟨ok, rb⟩, s3⟩
    have r3 := (r2.expect _).of_eq e3
    split; rename_i he3
    obtain ⟨rfl, rfl, rfl⟩ := plainFlagOut_eq_mk he3
    simpa using ih.accessChain s3 [.node .memberExpr (lhs ++ lb ++ idx ++ rb)] calls
      (need_le_step (r3.lt_of_lt hlt) (by norm_num) h)
  · rw [plain_nesting, plain_withNesting]
    rfl

theorem primary_forgets (s : Cursor) (calls : Bool) (h : need 1 s ≤ fuel + 1) :
    primary (fuel + 1) s.plain calls = plainOptOut (primary (fuel + 1) s calls) := by
  have hd : need 0 s ≤ fuel := need_le_down le_rfl (by norm_num) h
  rw [primary.eq_2 s.plain calls fuel, primary.eq_2 s calls fuel, current_plain, second_plain,
    atLineEnd_plain]
  split_ifs with hid hlp hbegin
  · rw [ih.nameRefOrCall s calls (rest_ne_nil (eq_of_beq hid) (by decide)) hd]
    rcases e1 : nameRefOrCall fuel s calls with ⟨e, s1⟩
    split; rename_i he1
    obtain ⟨rfl, rfl⟩ := plainOut_eq_mk he1
    rfl
  · rw [ih.lambda s (rest_ne_nil (eq_of_beq hlp) (by decide)) hd]
    rcases e1 : lambda fuel s with ⟨e, s1⟩
    split; rename_i he1
    obtain ⟨rfl, rfl⟩ := plainOut_eq_mk he1
    rfl
  · rw [plain_parenDepth, plain_withParenDepth, bumpAny_plain]
    rcases e1 : (bumpAny { s with parenDepth := s.parenDepth + 1 }).1 with ⟨lp, s1⟩
    have hlt := lt_of_eq (bumpAny_lt (s := { s with parenDepth := s.parenDepth + 1 })
      (rest_ne_nil (eq_of_beq hlp) (by decide))) e1
    split; rename_i he1
    obtain ⟨rfl, rfl⟩ := plainOut_eq_mk he1
    rw [ih.expression s1 (need_le_step hlt (by norm_num) h)]
    rcases e2 : expression fuel s1 with ⟨e, s2⟩
    split; rename_i he2
    obtain ⟨rfl, rfl⟩ := plainOut_eq_mk he2
    rw [plain_parenDepth, plain_withParenDepth, expect_plain]
    rcases e3 : (({ s2 with parenDepth := s2.parenDepth - 1 } : Cursor).expect .rParen).1 with
      ⟨⟨ok, rp⟩, s3⟩
    split; rename_i he3
    obtain ⟨rfl, rfl, rfl⟩ := plainFlagOut_eq_mk he3
    simp
  · rw [bumpAny_plain]
    rcases e1 : s.bumpAny.1 with ⟨t, s1⟩
    split; rename_i he1
    obtain ⟨rfl, rfl⟩ := plainOut_eq_mk he1
    simp
  · rw [report_plain]
    rfl
  · rw [report_plain, bumpAny_plain]
    rcases e1 : (s.report .expectedExpression).bumpAny.1 with ⟨t, s1⟩
    split; rename_i he1
    obtain ⟨rfl, rfl⟩ := plainOut_eq_mk he1
    simp

/-- The one place where the hints matter: a hinted name followed by nothing
that starts an argument is a call with an empty argument list, which is the
name once its call is forgotten; every other call reads its first argument
with fuel to spare, so its argument list holds a token and stays. -/
theorem nameRefOrCall_forgets (s : Cursor) (calls : Bool) (hr : s.rest ≠ [])
    (h : need 0 s ≤ fuel + 1) :
    nameRefOrCall (fuel + 1) s.plain calls = plainOut (nameRefOrCall (fuel + 1) s calls) := by
  have hf : 31 ≤ fuel := by simpa using le_of_need hr h
  rw [nameRefOrCall.eq_2 s.plain calls fuel, nameRefOrCall.eq_2 s calls fuel,
    atKnownFunction_plain, bumpAny_plain]
  rcases e1 : s.bumpAny.1 with ⟨id, s1⟩
  have hlt := lt_of_eq (bumpAny_lt hr) e1
  split; rename_i he1
  obtain ⟨rfl, rfl⟩ := plainOut_eq_mk he1
  rw [current_plain, second_plain]
  cases calls
  · simp
  dsimp only
  by_cases ha : s1.current.canStartArgument = true
  · -- both read the arguments, which hold a token
    have hk := @callArgs_kinds_ne_nil fuel s1 (by omega) ha
    rw [if_neg (by simp [ha] : ¬((!true || !(false || s1.current.canStartArgument)) = true)),
      if_neg (by simp [ha] :
        ¬((!true || !(s.atKnownFunction || s1.current.canStartArgument)) = true)),
      ite_plain (fun _ => ih.parenArgs s1 (need_le_step hlt (by norm_num) h))
        (fun _ => ih.argSequence s1 false (need_le_step hlt (by norm_num) h))]
    generalize (if (s1.current == .lParen && s1.second != .kwBegin) = true then parenArgs fuel s1
      else argSequence fuel s1 false) = x at hk ⊢
    obtain ⟨args, s2⟩ := x
    simp [BareTree.kindsOf_plainList, hk]
  · -- without the hint it is a name; with it, a call whose argument list is empty
    have hna : s1.current.canStartArgument = false := by simpa using ha
    have hlp : s1.current ≠ .lParen := fun he => by simp [he, TokenKind.canStartArgument] at hna
    rw [if_pos (by simp [hna] : (!true || !(false || s1.current.canStartArgument)) = true)]
    by_cases hknown : s.atKnownFunction = true
    · rw [if_neg (by simp [hknown] :
          ¬((!true || !(s.atKnownFunction || s1.current.canStartArgument)) = true)),
        if_neg (by simp [hlp] : ¬((s1.current == .lParen && s1.second != .kwBegin) = true)),
        argSequence_stop hna]
      simp
    · rw [if_pos (by simp [hknown, hna] :
          (!true || !(s.atKnownFunction || s1.current.canStartArgument)) = true)]
      simp

theorem parenArgs_forgets (s : Cursor) (h : need 7 s ≤ fuel + 1) :
    parenArgs (fuel + 1) s.plain = plainOut (parenArgs (fuel + 1) s) := by
  rw [parenArgs.eq_2 s.plain fuel, parenArgs.eq_2 s fuel, plain_parenDepth, plain_withParenDepth,
    bumpAny_plain]
  -- the parenthesis is taken when it is there; the items rank lower in any case
  rcases e1 : (bumpAny { s with parenDepth := s.parenDepth + 1 }).1 with ⟨lp, s1⟩
  have r1 := ((Reach.refl s).parenDepth (s.parenDepth + 1)).bumpAny.of_eq e1
  split; rename_i he1
  obtain ⟨rfl, rfl⟩ := plainOut_eq_mk he1
  rw [ih.parenArgItems s1 (need_le_down r1.length_le (by norm_num) h)]
  rcases e2 : parenArgItems fuel s1 with ⟨items, s2⟩
  split; rename_i he2
  obtain ⟨rfl, rfl⟩ := plainOut_eq_mk he2
  rw [plain_parenDepth, plain_withParenDepth, expect_plain]
  rcases e3 : (({ s2 with parenDepth := s2.parenDepth - 1 } : Cursor).expect .rParen).1 with
    ⟨⟨ok, rp⟩, s3⟩
  split; rename_i he3
  obtain ⟨rfl, rfl, rfl⟩ := plainFlagOut_eq_mk he3
  simp

theorem parenArgItems_forgets (s : Cursor) (h : need 6 s ≤ fuel + 1) :
    parenArgItems (fuel + 1) s.plain = plainOut (parenArgItems (fuel + 1) s) := by
  rw [parenArgItems.eq_2 s.plain fuel, parenArgItems.eq_2 s fuel, current_plain, atLineEnd_plain]
  by_cases hstop : (s.current == .rParen || s.atLineEnd) = true
  · rw [if_pos hstop, if_pos hstop]
    rfl
  rw [if_neg hstop, if_neg hstop]
  obtain ⟨hrp, hl⟩ : s.current ≠ .rParen ∧ s.atLineEnd = false := by simpa using hstop
  have heof : s.current ≠ .eof := fun he => by simp [atLineEnd, he] at hl
  have hf := le_of_need (rest_ne_nil_of_ne heof) h
  rw [ite_plain (fun _ => ih.expression s (need_le_down le_rfl (by norm_num) h))
    fun _ => recover_plain s _ _]
  -- the item takes a token, so the items after it need less
  rcases e1 : (if s.current.canStartExpr then expression fuel s
    else (s.recover .expectedArgument (· == .rParen)).1) with ⟨item, s1⟩
  have hlt := lt_of_eq (parenArgItem_lt hl hrp (by omega)) e1
  split; rename_i he1
  obtain ⟨rfl, rfl⟩ := plainOut_eq_mk he1
  rw [eat_plain]
  rcases e2 : (s1.eat .comma).1 with ⟨⟨ok, c⟩, s2⟩
  have r2 := ((Reach.refl s1).eat _).of_eq e2
  split; rename_i he2
  obtain ⟨rfl, rfl, rfl⟩ := plainFlagOut_eq_mk he2
  rw [ih.parenArgItems s2 (need_le_step (r2.lt_of_lt hlt) (by norm_num) h)]
  rcases e3 : parenArgItems fuel s2 with ⟨more, s3⟩
  split; rename_i he3
  obtain ⟨rfl, rfl⟩ := plainOut_eq_mk he3
  simp

theorem bareArgs_forgets (s : Cursor) (h : need 5 s ≤ fuel + 1) :
    bareArgs (fuel + 1) s.plain = plainOut (bareArgs (fuel + 1) s) := by
  rw [bareArgs.eq_2 s.plain fuel, bareArgs.eq_2 s fuel,
    ih.argSequence s false (need_le_down le_rfl (by norm_num) h)]
  rcases e1 : argSequence fuel s false with ⟨args, s1⟩
  split; rename_i he1
  obtain ⟨rfl, rfl⟩ := plainOut_eq_mk he1
  simp

theorem argSequence_forgets (s : Cursor) (afterComma : Bool) (h : need 4 s ≤ fuel + 1) :
    argSequence (fuel + 1) s.plain afterComma = plainOut (argSequence (fuel + 1) s afterComma) := by
  rw [argSequence.eq_2 s.plain afterComma fuel, argSequence.eq_2 s afterComma fuel, current_plain]
  split_ifs with hstart
  · have hc : s.current.canStartExpr = true := by
      rcases Bool.or_eq_true_iff.mp hstart with ha | hb
      · exact TokenKind.canStartExpr_of_canStartArgument ha
      · exact (Bool.and_eq_true_iff.mp hb).2
    have hf := le_of_need (rest_ne_nil_of_ne (TokenKind.canStartExpr_facts hc).2.1) h
    rw [ih.unary s false (need_le_down le_rfl (by norm_num) h)]
    -- the argument takes the token that starts it
    rcases e1 : unary fuel s false with ⟨a, s1⟩
    have hlt := lt_of_eq (unary_lt_of_le (by omega) hc false) e1
    split; rename_i he1
    obtain ⟨rfl, rfl⟩ := plainOptOut_eq_mk he1
    rw [eat_plain]
    rcases e2 : (s1.eat .comma).1 with ⟨⟨comma, c⟩, s2⟩
    have r2 := ((Reach.refl s1).eat _).of_eq e2
    split; rename_i he2
    obtain ⟨rfl, rfl, rfl⟩ := plainFlagOut_eq_mk he2
    rw [ih.argSequence s2 comma (need_le_step (r2.lt_of_lt hlt) (by norm_num) h)]
    rcases e3 : argSequence fuel s2 comma with ⟨more, s3⟩
    split; rename_i he3
    obtain ⟨rfl, rfl⟩ := plainOut_eq_mk he3
    cases a <;> simp
  · rfl

theorem lambda_forgets (s : Cursor) (hr : s.rest ≠ []) (h : need 0 s ≤ fuel + 1) :
    lambda (fuel + 1) s.plain = plainOut (lambda (fuel + 1) s) := by
  rw [lambda.eq_2 s.plain fuel, lambda.eq_2 s fuel, plain_withParenDepth, bumpAny_plain]
  rcases e1 : (bumpAny { s with parenDepth := 0 }).1 with ⟨lp, s1⟩
  have hlt := lt_of_eq (bumpAny_lt (s := { s with parenDepth := 0 }) hr) e1
  split; rename_i he1
  obtain ⟨rfl, rfl⟩ := plainOut_eq_mk he1
  rw [bumpAny_plain]
  rcases e2 : s1.bumpAny.1 with ⟨kw, s2⟩
  have r2 := (Reach.refl s1).bumpAny.of_eq e2
  split; rename_i he2
  obtain ⟨rfl, rfl⟩ := plainOut_eq_mk he2
  rw [name_plain]
  rcases e3 : (s2.name .blockType).1 with ⟨ty, s3⟩
  have r3 := (r2.name _).of_eq e3
  split; rename_i he3
  obtain ⟨rfl, rfl⟩ := plainOut_eq_mk he3
  rw [current_plain, ite_plain (fun _ => paramList_plain s3) fun _ => plainOut_nil s3]
  rcases e4 : (if s3.current == .lBrace then s3.paramList.1 else ([], s3)) with ⟨params, s4⟩
  have r4 := (Reach.ite (fun _ => r3.paramList) (fun _ => r3)).of_eq e4
  split; rename_i he4
  obtain ⟨rfl, rfl⟩ := plainOut_eq_mk he4
  rw [expectNewline_plain]
  rcases e5 : s4.expectNewline.1 with ⟨nl, s5⟩
  have r5 := (r4.expectNewline.of_eq e5).beginDepth (s5.beginDepth + 1)
  split; rename_i he5
  obtain ⟨rfl, rfl⟩ := plainOut_eq_mk he5
  rw [plain_beginDepth, plain_withBeginDepth,
    ih.stmtList _ (need_le_step (r5.lt_of_lt hlt) (by norm_num) h)]
  rcases e6 : stmtList fuel { s5 with beginDepth := s5.beginDepth + 1 } with ⟨body, s6⟩
  split; rename_i he6
  obtain ⟨rfl, rfl⟩ := plainOut_eq_mk he6
  rw [plain_beginDepth, plain_withBeginDepth, expect_plain]
  rcases e7 : (({ s6 with beginDepth := s6.beginDepth - 1 } : Cursor).expect .kwEnd).1 with
    ⟨⟨ok, e⟩, s7⟩
  split; rename_i he7
  obtain ⟨rfl, rfl, rfl⟩ := plainFlagOut_eq_mk he7
  rw [plain_parenDepth, plain_withParenDepth, expect_plain]
  rcases e8 : (({ s7 with parenDepth := s.parenDepth } : Cursor).expect .rParen).1 with
    ⟨⟨ok2, rp⟩, s8⟩
  split; rename_i he8
  obtain ⟨rfl, rfl, rfl⟩ := plainFlagOut_eq_mk he8
  simp

/-- The functions at `fuel + 1` forget the hints when the ones at `fuel` do. -/
theorem forgets_succ : Forgets (fuel + 1) where
  stmtList := stmtList_forgets ih
  stmtListBody := stmtListBody_forgets ih
  statement := statement_forgets ih
  varDeclStmt := varDeclStmt_forgets ih
  setStmt := setStmt_forgets ih
  letStmt := letStmt_forgets ih
  ifStmt := ifStmt_forgets ih
  elseChain := elseChain_forgets ih
  whileStmt := whileStmt_forgets ih
  foreachStmt := foreachStmt_forgets ih
  beginOrNested := beginOrNested_forgets ih
  beginStmt := beginStmt_forgets ih
  returnStmt := returnStmt_forgets ih
  exprStmt := exprStmt_forgets ih
  expression := expression_forgets ih
  exprBp := exprBp_forgets ih
  infixChain := infixChain_forgets ih
  unary := unary_forgets ih
  unaryInner := unaryInner_forgets ih
  accessChain := accessChain_forgets ih
  primary := primary_forgets ih
  nameRefOrCall := nameRefOrCall_forgets ih
  parenArgs := parenArgs_forgets ih
  parenArgItems := parenArgItems_forgets ih
  bareArgs := bareArgs_forgets ih
  argSequence := argSequence_forgets ih
  lambda := lambda_forgets ih

end Step

/-- Every function of the grammar forgets the hints wherever its fuel covers
its need. -/
theorem forgets : ∀ fuel, Forgets fuel
  | 0 => forgets_zero
  | fuel + 1 => forgets_succ (forgets fuel)

/-! ## The top level -/

theorem scriptNameDecl_plain (s : Cursor) : scriptNameDecl s.plain = plainOut (scriptNameDecl s) := by
  unfold scriptNameDecl
  rw [bumpAny_plain]
  rcases e1 : s.bumpAny.1 with ⟨kw, s1⟩
  split; rename_i he1
  obtain ⟨rfl, rfl⟩ := plainOut_eq_mk he1
  rw [name_plain]
  rcases e2 : (s1.name .script).1 with ⟨n, s2⟩
  split; rename_i he2
  obtain ⟨rfl, rfl⟩ := plainOut_eq_mk he2
  rw [expectNewline_plain]
  rcases e3 : s2.expectNewline.1 with ⟨nl, s3⟩
  split; rename_i he3
  obtain ⟨rfl, rfl⟩ := plainOut_eq_mk he3
  simp

/-- The top level has the need of a statement list body: each item takes a
token, and the rest of the top level follows it. -/
theorem topLevel_forgets (fuel : Nat) (s : Cursor) (h : need 8 s ≤ fuel) :
    topLevel fuel s.plain = plainOut (topLevel fuel s) := by
  induction fuel generalizing s with
  | zero => rfl
  | succ fuel ihf =>
    rw [topLevel.eq_2 s.plain fuel, topLevel.eq_2 s fuel, atEnd_plain, current_plain]
    by_cases hend : s.atEnd = true
    · rw [if_pos hend, if_pos hend]
      rfl
    rw [if_neg hend, if_neg hend]
    have heof : s.current ≠ .eof := fun he => by simp [atEnd, he] at hend
    have hf := le_of_need (rest_ne_nil_of_ne heof) h
    have hd : need 7 s ≤ fuel := need_le_down le_rfl (by norm_num) h
    -- whatever the item, the rest of the top level forgets the hints
    have tail : ∀ item s1, s1.rest.length < s.rest.length →
        (BareTree.plainList item ++ (topLevel fuel s1.plain).1, (topLevel fuel s1.plain).2) =
          plainOut (item ++ (topLevel fuel s1).1, (topLevel fuel s1).2) := by
      intro item s1 hlt
      rw [ihf s1 (need_le_step hlt (by norm_num) h)]
      simp [plainOut]
    split_ifs with hnl hsn hbe hal
    · rw [eat_plain]
      rcases e1 : (s.eat .newline).1 with ⟨⟨u, nl⟩, s1⟩
      have hlt := lt_of_eq (eat_lt (eq_of_beq hnl) (by decide)) e1
      split; rename_i he1
      simp only [plainFlagOut_mk, Prod.mk.injEq] at he1
      obtain ⟨rfl, rfl⟩ := he1
      exact tail nl s1 hlt
    · rw [report_plain, scriptNameDecl_plain]
      rcases e1 : scriptNameDecl (s.report .duplicateScriptName) with ⟨item, s1⟩
      have hlt : s1.rest.length < s.rest.length := by
        simpa [e1] using scriptNameDecl_lt (s := s.report .duplicateScriptName)
          (by simpa using rest_ne_nil_of_ne heof)
      split; rename_i he1
      obtain ⟨rfl, rfl⟩ := plainOut_eq_mk he1
      exact tail item s1 hlt
    · rw [recover_plain]
      rcases e1 : (s.recover (.unexpectedCloser s.current) fun _ => false).1 with ⟨item, s1⟩
      have hlt := lt_of_eq (recover_lt rfl (by simpa [atLineEnd, heof] using hnl)) e1
      split; rename_i he1
      obtain ⟨rfl, rfl⟩ := plainOut_eq_mk he1
      exact tail item s1 hlt
    · rw [(forgets fuel).statement s hd]
      rcases e1 : statement fuel s with ⟨item, s1⟩
      have hlt := lt_of_eq (statement_lt_of_le (by omega) heof) e1
      split; rename_i he1
      obtain ⟨rfl, rfl⟩ := plainOut_eq_mk he1
      exact tail item s1 hlt
    · rw [report_plain, (forgets fuel).statement (s.report .statementAtTopLevel) (by simpa using hd)]
      rcases e1 : statement fuel (s.report .statementAtTopLevel) with ⟨item, s1⟩
      have hlt : s1.rest.length < s.rest.length := by
        simpa [e1] using statement_lt_of_le (s := s.report .statementAtTopLevel)
          (show 3 ≤ fuel by omega) (by rwa [current_congr (report_rest _ _)])
      split; rename_i he1
      obtain ⟨rfl, rfl⟩ := plainOut_eq_mk he1
      exact tail item s1 hlt

/-- A script parse builds one script node. -/
theorem script_root (fuel : Nat) (s : Cursor) : ∃ cs, (script fuel s).1 = .node .script cs := by
  rw [script]
  split; split; split
  exact ⟨_, rfl⟩

/-- A whole script, parsed without the hints, is the plain tree of the script
parsed with them, and leaves the same cursor. -/
theorem script_plain {fuel : Nat} {s : Cursor} (h : need 8 s ≤ fuel) :
    script fuel s.plain = ((script fuel s).1.plain, (script fuel s).2.plain) := by
  unfold script
  rw [eatLineBreaks_plain]
  rcases e1 : s.eatLineBreaks.1 with ⟨blank, s1⟩
  have r1 := (Reach.refl s).eatLineBreaks.of_eq e1
  split; rename_i he1
  obtain ⟨rfl, rfl⟩ := plainOut_eq_mk he1
  rw [current_plain, report_plain,
    ite_plain (fun _ => scriptNameDecl_plain s1) fun _ => plainOut_nil _]
  rcases e2 : (if s1.current == .kwScriptName then scriptNameDecl s1
      else ([], s1.report .missingScriptName)) with ⟨decl, s2⟩
  have r2 := (Reach.ite (fun _ => scriptNameDecl_reach r1) (fun _ => r1.report _)).of_eq e2
  split; rename_i he2
  obtain ⟨rfl, rfl⟩ := plainOut_eq_mk he2
  rw [topLevel_forgets fuel s2 ((need_le_of_reach r2).trans h)]
  rcases e3 : topLevel fuel s2 with ⟨items, s3⟩
  split; rename_i he3
  obtain ⟨rfl, rfl⟩ := plainOut_eq_mk he3
  simp

end Grammar

/-! ## Calls without arguments in the token tree -/

namespace TokenTree

mutual
/-- The source tokens at the leaves of a token tree, in order. -/
def tokens : TokenTree → List Token
  | .token t => [t]
  | .node _ cs => tokensOf cs

/-- The source tokens of token trees one after another. -/
def tokensOf : List TokenTree → List Token
  | [] => []
  | t :: ts => t.tokens ++ tokensOf ts
end

@[simp] theorem tokens_token (t : Token) : (token t).tokens = [t] := by
  simp [tokens]

@[simp] theorem tokens_node (k : NodeKind) (cs : List TokenTree) :
    (node k cs).tokens = tokensOf cs := by
  simp [tokens]

@[simp] theorem tokensOf_nil : tokensOf [] = [] := by
  simp [tokensOf]

@[simp] theorem tokensOf_cons (t : TokenTree) (ts : List TokenTree) :
    tokensOf (t :: ts) = t.tokens ++ tokensOf ts := by
  simp [tokensOf]

@[simp] theorem tokensOf_append (ts us : List TokenTree) :
    tokensOf (ts ++ us) = tokensOf ts ++ tokensOf us := by
  induction ts with
  | nil => simp
  | cons t ts ih => simp [ih]

mutual
/-- The bare tree a token tree fills: its tokens replaced by their kinds. -/
def bare : TokenTree → BareTree
  | .token t => .token t.kind
  | .node k cs => .node k (bareList cs)

/-- `bare` on each tree of a list. -/
def bareList : List TokenTree → List BareTree
  | [] => []
  | t :: ts => t.bare :: bareList ts
end

@[simp] theorem bare_token (t : Token) : (token t).bare = .token t.kind := by
  simp [bare]

@[simp] theorem bare_node (k : NodeKind) (cs : List TokenTree) :
    (node k cs).bare = .node k (bareList cs) := by
  simp [bare]

@[simp] theorem bareList_nil : bareList [] = [] := by
  simp [bareList]

@[simp] theorem bareList_cons (t : TokenTree) (ts : List TokenTree) :
    bareList (t :: ts) = t.bare :: bareList ts := by
  simp [bareList]

mutual
theorem kinds_bare : (t : TokenTree) → t.bare.kinds = t.tokens.map (·.kind)
  | .token _ => by simp
  | .node _ cs => by simp [kindsOf_bareList cs]

theorem kindsOf_bareList : (ts : List TokenTree) →
    BareTree.kindsOf (bareList ts) = (tokensOf ts).map (·.kind)
  | [] => by simp
  | t :: ts => by simp [kinds_bare t, kindsOf_bareList ts]
end

/-- Only a call made of a name and an argument list is a call with this shape
in the bare tree too. -/
theorem eq_call_of_bareList {cs : List TokenTree} {xs ys : List BareTree}
    (h : bareList cs = [.node .nameRef xs, .node .argList ys]) :
    ∃ xs' ys', cs = [.node .nameRef xs', .node .argList ys'] := by
  rcases cs with _ | ⟨c1, _ | ⟨c2, _ | ⟨c3, rest⟩⟩⟩ <;> simp at h
  obtain ⟨h1, h2⟩ := h
  cases c1 <;> cases c2 <;> simp_all

/-- A node as the grammar would have built it without hints: a call whose
argument list holds no token is its name. -/
def unhint (k : NodeKind) (cs : List TokenTree) : TokenTree :=
  match k, cs with
  | .funcExpr, [.node .nameRef xs, .node .argList ys] =>
    if tokensOf ys = [] then .node .nameRef xs else .node .funcExpr cs
  | k, cs => .node k cs

mutual
/-- Every call whose argument list holds no token replaced by its name. -/
def plain : TokenTree → TokenTree
  | .token t => .token t
  | .node k cs => unhint k (plainList cs)

/-- `plain` on each tree of a list. -/
def plainList : List TokenTree → List TokenTree
  | [] => []
  | t :: ts => plain t :: plainList ts
end

@[simp] theorem plain_token (t : Token) : (token t).plain = token t := by
  simp [plain]

@[simp] theorem plain_node (k : NodeKind) (cs : List TokenTree) :
    (node k cs).plain = unhint k (plainList cs) := by
  simp [plain]

@[simp] theorem plainList_nil : plainList [] = [] := by
  simp [plainList]

@[simp] theorem plainList_cons (t : TokenTree) (ts : List TokenTree) :
    plainList (t :: ts) = t.plain :: plainList ts := by
  simp [plainList]

@[simp] theorem plainList_append (ts us : List TokenTree) :
    plainList (ts ++ us) = plainList ts ++ plainList us := by
  induction ts with
  | nil => simp
  | cons t ts ih => simp [ih]

@[simp] theorem plainList_map_token (ts : List Token) : plainList (ts.map token) = ts.map token := by
  induction ts with
  | nil => simp
  | cons t ts ih => simp [ih]

/-- Only calls are touched. -/
@[simp] theorem unhint_of_ne {k : NodeKind} (h : k ≠ .funcExpr) (cs : List TokenTree) :
    unhint k cs = node k cs := by
  unfold unhint
  split
  · exact absurd rfl h
  · rfl

/-- Replacing a call by its name keeps the tokens: the argument list had none. -/
theorem tokens_unhint (k : NodeKind) (cs : List TokenTree) : (unhint k cs).tokens = tokensOf cs := by
  unfold unhint
  split
  · split <;> simp_all
  · simp

mutual
theorem tokens_plain : (t : TokenTree) → t.plain.tokens = t.tokens
  | .token _ => by simp
  | .node k cs => by simp [tokens_unhint, tokensOf_plainList cs]

theorem tokensOf_plainList : (ts : List TokenTree) → tokensOf (plainList ts) = tokensOf ts
  | [] => by simp
  | t :: ts => by simp [tokens_plain t, tokensOf_plainList ts]
end

/-- The two ways of replacing calls agree: on the token tree, and on the bare
tree it fills. -/
theorem bare_unhint (k : NodeKind) (cs : List TokenTree) :
    (unhint k cs).bare = BareTree.unhint k (bareList cs) := by
  unfold unhint
  split
  · rename_i xs ys
    have hk : BareTree.kindsOf (bareList ys) = [] ↔ tokensOf ys = [] := by
      simp [kindsOf_bareList]
    by_cases hy : tokensOf ys = []
    · simp [hy, hk.mpr hy]
    · simp [hy, mt hk.mp hy]
  · rename_i hne
    unfold BareTree.unhint
    split
    · rename_i xs ys heq
      obtain ⟨xs', ys', rfl⟩ := eq_call_of_bareList heq
      exact (hne xs' ys' rfl rfl).elim
    · rfl

mutual
theorem bare_plain : (t : TokenTree) → t.plain.bare = t.bare.plain
  | .token _ => by simp
  | .node k cs => by simp [bare_unhint, bareList_plainList cs]

theorem bareList_plainList : (ts : List TokenTree) →
    bareList (plainList ts) = BareTree.plainList (bareList ts)
  | [] => by simp
  | t :: ts => by simp [bare_plain t, bareList_plainList ts]
end

/-! ### Filling a bare tree from the tokens it was built from -/

mutual
/-- A token tree is what its bare tree gives when filled from its own tokens. -/
theorem fill_bare : (t : TokenTree) → (rest : List Token) → (∀ u ∈ t.tokens, u.kind ≠ .eof) →
    t.bare.fill (t.tokens ++ rest) = ([t], rest)
  | .token u, rest, h => by
    have hu := h u (by simp)
    simp [BareTree.fill, hu]
  | .node k cs, rest, h => by
    rw [bare_node, BareTree.fill_node, tokens_node, fillList_bare cs rest (by simpa using h)]

theorem fillList_bare : (ts : List TokenTree) → (rest : List Token) →
    (∀ u ∈ tokensOf ts, u.kind ≠ .eof) → BareTree.fillList (bareList ts) (tokensOf ts ++ rest) = (ts, rest)
  | [], rest, _ => by simp
  | t :: ts, rest, h => by
    have ht := fill_bare t (tokensOf ts ++ rest) fun u hu => h u (by simp [hu])
    have hts := fillList_bare ts rest fun u hu => h u (by simp [hu])
    rw [bareList_cons, tokensOf_cons, List.append_assoc, BareTree.fillList_cons, ht]
    simp [hts]
end

mutual
/-- Tokens whose kinds spell the leaves of a bare tree fill it into a token
tree. -/
theorem exists_of_kinds : (b : BareTree) → (pre : List Token) → pre.map (·.kind) = b.kinds →
    ∃ t : TokenTree, t.bare = b ∧ t.tokens = pre
  | .token k, pre, h => by
    obtain ⟨u, rfl, rfl⟩ := List.map_eq_singleton_iff.mp (by simpa using h)
    exact ⟨.token u, by simp, by simp⟩
  | .node k cs, pre, h => by
    obtain ⟨ts, h1, h2⟩ := existsList_of_kinds cs pre (by simpa using h)
    exact ⟨.node k ts, by simp [h1], by simp [h2]⟩

theorem existsList_of_kinds : (cs : List BareTree) → (pre : List Token) →
    pre.map (·.kind) = BareTree.kindsOf cs → ∃ ts, bareList ts = cs ∧ tokensOf ts = pre
  | [], pre, h => ⟨[], by simp, by simpa using h.symm⟩
  | b :: bs, pre, h => by
    rw [BareTree.kindsOf_cons] at h
    obtain ⟨p1, p2, rfl, h1, h2⟩ := List.map_eq_append_iff.mp h
    obtain ⟨t, ht1, ht2⟩ := exists_of_kinds b p1 h1
    obtain ⟨ts, hts1, hts2⟩ := existsList_of_kinds bs p2 h2
    exact ⟨t :: ts, by simp [ht1, hts1], by simp [ht2, hts2]⟩
end

/-- Bare trees whose leaves the next tokens spell: filling them, and filling
them with their calls replaced, give token trees that agree up to the same
replacement, and leave the same tokens. -/
theorem fillList_plain {cs : List BareTree} {pre : List Token} (rest : List Token)
    (hk : pre.map (·.kind) = BareTree.kindsOf cs) (he : ∀ u ∈ pre, u.kind ≠ .eof) :
    ∃ ts, BareTree.fillList cs (pre ++ rest) = (ts, rest) ∧
      BareTree.fillList (BareTree.plainList cs) (pre ++ rest) = (plainList ts, rest) := by
  obtain ⟨ts, rfl, rfl⟩ := existsList_of_kinds cs pre hk
  refine ⟨ts, fillList_bare ts rest he, ?_⟩
  rw [← bareList_plainList, ← tokensOf_plainList ts]
  exact fillList_bare (plainList ts) rest (by rwa [tokensOf_plainList])

end TokenTree

/-! ## Parsing with and without hints -/

/-- A tree whose leaves the first significant tokens of a source spell:
attaching the source to it, and to it with its calls replaced, give shapes that
agree up to the same replacement. -/
theorem plainList_shape_attach {k : NodeKind} (hk0 : k ≠ .funcExpr) {cs : List BareTree}
    {tokens pre rest : List Token} (hsig : significant tokens = pre ++ rest)
    (hk : pre.map (·.kind) = BareTree.kindsOf cs) (he : ∀ u ∈ pre, u.kind ≠ .eof) :
    TokenTree.plainList ((BareTree.node k cs).attach tokens).shape =
      ((BareTree.node k cs).plain.attach tokens).shape := by
  obtain ⟨ts, hf, hfp⟩ := TokenTree.fillList_plain rest hk he
  rw [BareTree.plain_node, BareTree.unhint_of_ne hk0, attach_shape, attach_shape, hsig, hf, hfp]
  simp [TokenTree.unhint_of_ne hk0]


/-- The lexemes without hints are the lexemes with hints, forgotten. -/
theorem ofTokens_plain (tokens : List Token) (isFunction : String → Bool) :
    Lexeme.ofTokens tokens (fun _ => false) = (Lexeme.ofTokens tokens isFunction).map Lexeme.plain := by
  unfold Lexeme.ofTokens
  rw [List.map_filterMap]
  refine List.filterMap_congr fun t _ => ?_
  split <;> simp [Lexeme.plain]

/-- With any hints, the lexemes have the kinds of the significant tokens before
the end of input. -/
theorem ofTokens_kinds (tokens : List Token) (isFunction : String → Bool) :
    (Lexeme.ofTokens tokens isFunction).map (·.kind) =
      (tokens.filter fun t => !t.kind.isTrivia && t.kind != .eof).map (·.kind) := by
  unfold Lexeme.ofTokens
  rw [List.map_filterMap, ← List.filterMap_eq_filter, List.map_filterMap]
  refine List.filterMap_congr fun t _ => ?_
  by_cases ht : t.kind.isTrivia <;> by_cases he : t.kind = .eof <;> simp [Option.guard, ht, he]

/-- A script parse runs the script grammar, with enough fuel, on the lexemes of
the source. -/
theorem parseScript_eq (source : String) (isFunction : String → Bool) :
    parseScript source isFunction =
      ⟨(Grammar.script (Grammar.fuelFor (Lexeme.ofTokens (lex source) isFunction).length)
          { rest := Lexeme.ofTokens (lex source) isFunction }).1.attach (lex source),
        (Grammar.script (Grammar.fuelFor (Lexeme.ofTokens (lex source) isFunction).length)
          { rest := Lexeme.ofTokens (lex source) isFunction }).2.errors.toList⟩ := by
  unfold parseScript
  dsimp only

/-- Function hints only add calls without arguments. With any hints, a script
parse reports exactly the problems of the parse without hints, at the same
places; and its tree, trivia deleted, becomes the tree without hints once
every call whose argument list holds no token is replaced by its name. The
two trees hold the same tokens in the same order. -/
theorem parseScript_hints (source : String) (isFunction : String → Bool) :
    (parseScript source isFunction).errors = (parseScript source fun _ => false).errors ∧
      TokenTree.plainList (parseScript source isFunction).root.shape =
        (parseScript source fun _ => false).root.shape ∧
      TokenTree.tokensOf (parseScript source isFunction).root.shape =
        TokenTree.tokensOf (parseScript source fun _ => false).root.shape := by
  set ls := Lexeme.ofTokens (lex source) isFunction with hls
  -- the parse without hints runs the same grammar on the lexemes with their hints forgotten
  have hc : ({ rest := ls.map Lexeme.plain } : Cursor) = ({ rest := ls } : Cursor).plain := rfl
  rw [parseScript_eq, parseScript_eq, ofTokens_plain (lex source) isFunction, List.length_map,
    ← hls, hc, Grammar.script_plain (Grammar.need_le_fuelFor ls)]
  obtain ⟨cs, hcs⟩ := Grammar.script_root (Grammar.fuelFor ls.length) { rest := ls }
  have hkeeps := Grammar.script_keeps (Grammar.fuelFor ls.length) { rest := ls }
  rw [hcs] at hkeeps ⊢
  -- the leaves of the script are spelled by the first significant tokens of the source
  set sig := (lex source).filter fun t => !t.kind.isTrivia && t.kind != .eof
  set n := (BareTree.kindsOf cs).length
  have hk : (sig.take n).map (·.kind) = BareTree.kindsOf cs := by
    rw [List.map_take, ← ofTokens_kinds (lex source) isFunction, ← hls]
    simp only [BareTree.kinds_node] at hkeeps
    rw [← hkeeps]
    exact List.take_left' rfl
  have he : ∀ u ∈ sig.take n, u.kind ≠ .eof := by
    intro u hu
    have hp := (List.mem_filter.mp (List.mem_of_mem_take hu)).2
    simp only [Bool.and_eq_true, bne_iff_ne] at hp
    exact hp.2
  have hsplit : significant (lex source) =
      sig.take n ++ (sig.drop n ++ [⟨.eof, source.utf8ByteSize, ""⟩]) := by
    rw [significant_lex, ← List.append_assoc, List.take_append_drop]
  have hshape := plainList_shape_attach (show NodeKind.script ≠ .funcExpr by decide) hsplit hk he
  refine ⟨rfl, hshape, ?_⟩
  rw [← hshape, TokenTree.tokensOf_plainList]

end GameScript
