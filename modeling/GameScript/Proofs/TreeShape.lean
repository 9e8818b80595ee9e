import Mathlib
import GameScript.Proofs.Lossless
/-!
# What the grammar decided

The lossless tree of a parse mixes two things: the nodes the grammar built
over the significant tokens, and the trivia that `BareTree.attach` placed
around them afterwards. `SyntaxTree.shape` keeps the first: it deletes the
trivia and forgets the node ranges, leaving a `TokenTree` of node kinds over
the source's own tokens.

Main statement (`attach_shape`): the shape of an attached tree is the bare
tree with its token leaves filled, in order, from the significant tokens of
the source (`BareTree.fill`), followed at the root by the significant tokens
the grammar left before the end of input. So the shape depends on the bare
tree and the tokens only, never on where the trivia went; two bare trees that
agree up to nodes without tokens have shapes that agree up to the same nodes.
-/

set_option autoImplicit false

namespace GameScript

/-- A syntax tree with its trivia deleted and its ranges forgotten: node
kinds over the significant tokens of the source. -/
inductive TokenTree where
  | token (t : Token)
  | node (kind : NodeKind) (children : List TokenTree)
  deriving Repr, Inhabited

namespace SyntaxTree

mutual
/-- The grammar's view of an element: nothing for trivia. -/
def shape : SyntaxTree → List TokenTree
  | token t => if t.kind.isTrivia then [] else [.token t]
  | node k _ _ cs => [.node k (shapeOf cs)]

/-- The grammar's view of a list of elements. -/
def shapeOf : List SyntaxTree → List TokenTree
  | [] => []
  | e :: es => e.shape ++ shapeOf es
end

@[simp] theorem shape_token (t : Token) :
    (token t).shape = if t.kind.isTrivia then [] else [.token t] := by
  simp [shape]

@[simp] theorem shape_node (k : NodeKind) (a b : Nat) (cs : List SyntaxTree) :
    (node k a b cs).shape = [.node k (shapeOf cs)] := by
  simp [shape]

@[simp] theorem shapeOf_nil : shapeOf [] = [] := by
  simp [shapeOf]

@[simp] theorem shapeOf_cons (e : SyntaxTree) (es : List SyntaxTree) :
    shapeOf (e :: es) = e.shape ++ shapeOf es := by
  simp [shapeOf]

@[simp] theorem shapeOf_append (es fs : List SyntaxTree) :
    shapeOf (es ++ fs) = shapeOf es ++ shapeOf fs := by
  induction es with
  | nil => simp
  | cons e es ih => simp [ih]

end SyntaxTree

/-- The tokens the grammar sees: all but the trivia. -/
def significant (tokens : List Token) : List Token := tokens.filter (!·.kind.isTrivia)

@[simp] theorem significant_nil : significant [] = [] := rfl

theorem significant_cons (t : Token) (ts : List Token) :
    significant (t :: ts) = if t.kind.isTrivia then significant ts else t :: significant ts := by
  by_cases h : t.kind.isTrivia <;> simp [significant, h]

namespace BareTree

mutual
/-- A bare tree with its token leaves taken in order from `sig`; a leaf
takes nothing once only the end of input is left. Returns the tokens not
taken. -/
def fill : BareTree → List Token → List TokenTree × List Token
  | .token _, t :: r => if t.kind == .eof then ([], t :: r) else ([.token t], r)
  | .token _, [] => ([], [])
  | .node k cs, sig =>
    let (kids, r) := fillList cs sig
    ([.node k kids], r)

/-- Bare trees one after another, each filled from what the one before left. -/
def fillList : List BareTree → List Token → List TokenTree × List Token
  | [], sig => ([], sig)
  | b :: bs, sig =>
    let (x, r) := b.fill sig
    let (y, r') := fillList bs r
    (x ++ y, r')
end

@[simp] theorem fill_node (k : NodeKind) (cs : List BareTree) (sig : List Token) :
    (node k cs).fill sig = ([.node k (fillList cs sig).1], (fillList cs sig).2) := by
  simp [fill]

@[simp] theorem fillList_nil (sig : List Token) : fillList [] sig = ([], sig) := by
  simp [fillList]

@[simp] theorem fillList_cons (b : BareTree) (bs : List BareTree) (sig : List Token) :
    fillList (b :: bs) sig =
      ((b.fill sig).1 ++ (fillList bs (b.fill sig).2).1, (fillList bs (b.fill sig).2).2) := by
  simp [fillList]

theorem fillList_append (bs cs : List BareTree) (sig : List Token) :
    fillList (bs ++ cs) sig =
      ((fillList bs sig).1 ++ (fillList cs (fillList bs sig).2).1,
        (fillList cs (fillList bs sig).2).2) := by
  induction bs generalizing sig with
  | nil => simp
  | cons b bs ih => simp [ih]

end BareTree

/-! ## Attaching keeps the significant tokens in order -/

namespace Attach

/-- What the attaching functions do with the tokens they are given, seen
through the shape: the elements they build from `rest`, leaving `rest'`, are
the bare trees `bs` filled from the significant tokens of `rest`, and the
significant tokens left are those filling leaves. -/
def Fills (rest : List Token) (out : List SyntaxTree) (rest' : List Token)
    (bs : List BareTree) : Prop :=
  SyntaxTree.shapeOf out = (BareTree.fillList bs (significant rest)).1 ∧
    significant rest' = (BareTree.fillList bs (significant rest)).2

theorem Fills.append {r r' r'' : List Token} {a b : List SyntaxTree} {bs cs : List BareTree}
    (ha : Fills r a r' bs) (hb : Fills r' b r'' cs) : Fills r (a ++ b) r'' (bs ++ cs) := by
  obtain ⟨ha1, ha2⟩ := ha
  obtain ⟨hb1, hb2⟩ := hb
  rw [ha2] at hb1 hb2
  exact ⟨by rw [SyntaxTree.shapeOf_append, ha1, hb1, BareTree.fillList_append],
    by rw [hb2, BareTree.fillList_append]⟩

theorem takeTrivia_fills (rest : List Token) (off : Nat) :
    Fills rest (takeTrivia rest off).1 (takeTrivia rest off).2.1 [] ∧
      ∀ t ∈ (takeTrivia rest off).2.1.head?, t.kind.isTrivia = false := by
  fun_induction takeTrivia rest off with
  | case1 t more off h ts r o ih hmore =>
    rw [ih] at hmore
    obtain ⟨⟨h1, h2⟩, h3⟩ := hmore
    refine ⟨⟨by simpa [h] using h1, ?_⟩, h3⟩
    simpa [significant_cons, h] using h2
  | case2 t more off h => exact ⟨⟨by simp, by simp⟩, by simpa using h⟩
  | case3 => exact ⟨⟨by simp, by simp⟩, by simp⟩

theorem takeAll_shape (rest : List Token) (off : Nat) :
    SyntaxTree.shapeOf (takeAll rest off).1 =
      ((significant rest).takeWhile (·.kind != .eof)).map .token := by
  fun_induction takeAll rest off with
  | case1 t more off h =>
    -- the end of input is no trivia, so it heads the significant tokens
    have he : t.kind = .eof := by simpa using h
    simp [significant_cons, he, TokenKind.isTrivia]
  | case2 t more off h ts r o ih hmore =>
    rw [ih] at hmore
    have he : t.kind ≠ .eof := by simpa using h
    by_cases ht : t.kind.isTrivia
    · simp [ht, significant_cons, hmore]
    · simp [ht, significant_cons, he, hmore]
  | case3 => simp

/-- A bare token leaf: the trivia in front of it, then the next token,
unless it is the end of input. -/
theorem token_fills (k : TokenKind) (rest : List Token) (off : Nat) :
    Fills rest ((takeTrivia rest off).1 ++
        (match (takeTrivia rest off).2.1 with
          | t :: r =>
            if t.kind == .eof then ([], (takeTrivia rest off).2.1, (takeTrivia rest off).2.2)
            else ([.token t], r, t.stop)
          | [] => ([], [], (takeTrivia rest off).2.2) : List SyntaxTree × List Token × Nat).1)
      (match (takeTrivia rest off).2.1 with
        | t :: r =>
          if t.kind == .eof then ([], (takeTrivia rest off).2.1, (takeTrivia rest off).2.2)
          else ([.token t], r, t.stop)
        | [] => ([], [], (takeTrivia rest off).2.2) : List SyntaxTree × List Token × Nat).2.1
      [.token k] := by
  obtain ⟨htriv, hhead⟩ := takeTrivia_fills rest off
  refine @Fills.append _ _ _ _ _ [] [.token k] htriv ?_
  generalize (takeTrivia rest off).2.1 = rest1 at hhead ⊢
  generalize (takeTrivia rest off).2.2 = off1
  -- after the trivia comes a significant token, or nothing
  cases rest1 with
  | nil => simp [Fills, BareTree.fill]
  | cons t r =>
    have ht : t.kind.isTrivia = false := hhead t rfl
    by_cases he : t.kind = .eof
    · simp [Fills, significant_cons, he, TokenKind.isTrivia, BareTree.fill]
    · simp [Fills, significant_cons, ht, he, BareTree.fill]

mutual

/-- A node other than the root, after the trivia it leaves to its parent, is
the bare node filled. -/
theorem node_fills (kind : NodeKind) (children : List BareTree) (rest : List Token) (off : Nat) :
    Fills rest ((node kind children false rest off).1 ++ [(node kind children false rest off).2.1])
      (node kind children false rest off).2.2.1 [.node kind children] := by
  rw [node]
  dsimp only
  simp only [Bool.not_false, Bool.true_and, Bool.false_eq_true, if_false, List.append_nil]
  split
  · -- the leading trivia goes to the parent
    obtain ⟨⟨h1, h2⟩, -⟩ := takeTrivia_fills rest off
    obtain ⟨e1, e2⟩ := elements_fills children (takeTrivia rest off).2.1 (takeTrivia rest off).2.2
    simp only [BareTree.fillList_nil] at h1 h2
    rw [h2] at e1 e2
    exact ⟨by simp [h1, e1], by simp [e2]⟩
  · obtain ⟨e1, e2⟩ := elements_fills children rest off
    exact ⟨by simp [e1], by simp [e2]⟩
termination_by sizeOf children + 1

theorem elements_fills (children : List BareTree) (rest : List Token) (off : Nat) :
    Fills rest (elements children rest off).1 (elements children rest off).2.1 children := by
  match children with
  | [] => simp [elements, Fills]
  | .token k :: more =>
    rw [elements]
    exact (token_fills k rest off).append (elements_fills more _ _)
  | .node k cs :: more =>
    rw [elements]
    exact (node_fills k cs rest off).append (elements_fills more _ _)
termination_by sizeOf children

end

end Attach

/-- The shape of an attached tree: the bare root filled from the significant
tokens, then whatever significant tokens it left before the end of input. -/
theorem attach_shape (k : NodeKind) (cs : List BareTree) (tokens : List Token) :
    ((BareTree.node k cs).attach tokens).shape =
      [.node k ((BareTree.fillList cs (significant tokens)).1 ++
        ((BareTree.fillList cs (significant tokens)).2.takeWhile (·.kind != .eof)).map .token)] := by
  rw [BareTree.attach, Attach.node]
  dsimp only
  simp only [Bool.not_true, Bool.false_and, Bool.false_eq_true, if_false, if_true]
  obtain ⟨e1, e2⟩ := Attach.elements_fills cs tokens 0
  rw [SyntaxTree.shape_node, SyntaxTree.shapeOf_append, e1, Attach.takeAll_shape, e2]

/-! ## The tokens the grammar sees -/

/-- The tokens the grammar sees in a text: the significant ones, then the end
of input. -/
theorem significant_lex (text : String) :
    significant (lex text) =
      (lex text).filter (fun t => !t.kind.isTrivia && t.kind != .eof) ++
        [⟨.eof, text.utf8ByteSize, ""⟩] := by
  obtain ⟨body, h, heof⟩ := lex_eq_append_eof text
  -- the body holds no end of input, so only trivia is filtered out of it
  have hbody : body.filter (fun t => !t.kind.isTrivia) =
      body.filter (fun t => !t.kind.isTrivia && t.kind != .eof) :=
    List.filter_congr fun t ht => by simp [heof t ht]
  rw [h, significant, List.filter_append, List.filter_append, hbody]
  simp [TokenKind.isTrivia]

end GameScript
