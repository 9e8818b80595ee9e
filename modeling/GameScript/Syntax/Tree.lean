import GameScript.Syntax.Cursor
/-!
# Syntax trees

The lossless tree: every token of the source, trivia and line breaks
included, sits at one leaf, in order; inner nodes carry their kind and the
byte range they cover. The end-of-input token is not in the tree.

`attach` turns the grammar's bare tree into this tree by placing the trivia
the grammar never saw. The rule: trivia in front of a token goes into the
node that is open when the token is added, except that a node other than a
statement list takes the trivia in front of its first token into its parent
(so nodes start at a significant token, and statement lists own the
indentation of their statements). Trivia after the last token goes into the
root. Trivia after a node's last token therefore belongs to whatever comes
next.
-/

namespace GameScript

/-- A lossless syntax tree. -/
inductive SyntaxTree where
  | token (t : Token)
  | node (kind : NodeKind) (start stop : Nat) (children : List SyntaxTree)
  deriving Repr, Inhabited

namespace SyntaxTree

/-- The byte offset where the element starts. -/
def start : SyntaxTree → Nat
  | token t => t.start
  | node _ a _ _ => a

/-- The byte offset just past the element. -/
def stop : SyntaxTree → Nat
  | token t => t.stop
  | node _ _ b _ => b

/-- The node kind, for nodes. -/
def nodeKind? : SyntaxTree → Option NodeKind
  | token _ => none
  | node k _ _ _ => some k

/-- The token, for leaves. -/
def token? : SyntaxTree → Option Token
  | token t => some t
  | node .. => none

/-- The children of a node; none for a leaf. -/
def children : SyntaxTree → List SyntaxTree
  | token _ => []
  | node _ _ _ cs => cs

mutual
/-- The tokens under an element, in order. -/
def leaves : SyntaxTree → List Token
  | token t => [t]
  | node _ _ _ cs => leavesOf cs

/-- The tokens under a list of elements, in order. -/
def leavesOf : List SyntaxTree → List Token
  | [] => []
  | e :: es => leaves e ++ leavesOf es
end

/-- The source text an element covers. -/
def text (e : SyntaxTree) : String :=
  String.join (e.leaves.map (·.text))

end SyntaxTree

namespace Attach

/-- Trivia at the front of `rest`, and the offset after it. -/
def takeTrivia : List Token → Nat → List SyntaxTree × List Token × Nat
  | t :: more, off =>
    if t.kind.isTrivia then
      let (ts, r, o) := takeTrivia more t.stop
      (.token t :: ts, r, o)
    else ([], t :: more, off)
  | [], off => ([], [], off)

/-- Every token before the end of input. -/
def takeAll : List Token → Nat → List SyntaxTree × List Token × Nat
  | t :: more, off =>
    if t.kind == .eof then ([], t :: more, off)
    else
      let (ts, r, o) := takeAll more t.stop
      (.token t :: ts, r, o)
  | [], off => ([], [], off)

mutual
/-- A node of the bare tree with its trivia: the trivia it leaves to its
parent, the node, the tokens left and the offset after the node. -/
def node (kind : NodeKind) (children : List BareTree) (root : Bool)
    (rest : List Token) (off : Nat) : List SyntaxTree × SyntaxTree × List Token × Nat :=
  let (pre, rest1, off1) :=
    if !root && kind != .stmtList then takeTrivia rest off else ([], rest, off)
  let (kids, rest2, off2) := elements children rest1 off1
  let (tail, rest3, off3) := if root then takeAll rest2 off2 else ([], rest2, off2)
  (pre, .node kind off1 off3 (kids ++ tail), rest3, off3)

/-- The elements of a node: each token with the trivia in front of it, each
child node after the trivia it leaves. -/
def elements : List BareTree → List Token → Nat → List SyntaxTree × List Token × Nat
  | [], rest, off => ([], rest, off)
  | .token _ :: more, rest, off =>
    let (triv, rest1, off1) := takeTrivia rest off
    let (tok, rest2, off2) : List SyntaxTree × List Token × Nat :=
      match rest1 with
      | t :: r => if t.kind == .eof then ([], rest1, off1) else ([.token t], r, t.stop)
      | [] => ([], [], off1)
    let (others, rest3, off3) := elements more rest2 off2
    (triv ++ tok ++ others, rest3, off3)
  | .node k cs :: more, rest, off =>
    let (pre, n, rest1, off1) := node k cs false rest off
    let (others, rest2, off2) := elements more rest1 off1
    (pre ++ [n] ++ others, rest2, off2)
end

end Attach

/-- The lossless tree of a bare tree whose tokens are the significant tokens
of `tokens`, in order. -/
def BareTree.attach (root : BareTree) (tokens : List Token) : SyntaxTree :=
  match root with
  | .node k cs => (Attach.node k cs true tokens 0).2.1
  | .token _ => .node .error 0 0 []

end GameScript
