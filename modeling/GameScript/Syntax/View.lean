import GameScript.Syntax.Tree
/-!
# Views of syntax nodes

What a node holds, found by position among its children: the first child
node of a kind, the first token of a kind, or the first child node of a kind
on one side of a token (the left operand of a binary expression is the first
expression that ends before its operator). A part the parser could not
produce is simply absent: every view is an `Option` or a list.

A node is named by a `NodeRef`, its kind and byte range, which stays valid
for as long as the text does.
-/

namespace GameScript

/-- A byte range of the source, end exclusive. -/
structure Span where
  start : Nat
  stop : Nat
  deriving DecidableEq, Repr, Inhabited

/-- A node named by its kind and range. -/
structure NodeRef where
  kind : NodeKind
  span : Span
  deriving DecidableEq, Repr, Inhabited

namespace SyntaxTree

/-- The range an element covers. -/
def span (t : SyntaxTree) : Span := ⟨t.start, t.stop⟩

/-- The name of a node (a leaf is named as an error node over its range). -/
def ref (t : SyntaxTree) : NodeRef := ⟨t.nodeKind?.getD .error, t.span⟩

/-- Whether the element is a node of a kind satisfying `p`. -/
def isNodeWith (p : NodeKind → Bool) (t : SyntaxTree) : Bool :=
  match t.nodeKind? with
  | some k => p k
  | none => false

/-- Whether the element is a node of kind `k`. -/
def isNode (k : NodeKind) (t : SyntaxTree) : Bool := t.isNodeWith (· == k)

/-- The child nodes, in order. -/
def childNodes (t : SyntaxTree) : List SyntaxTree := t.children.filter (·.nodeKind?.isSome)

/-- The child tokens, in order, trivia included. -/
def childTokens (t : SyntaxTree) : List Token := t.children.filterMap (·.token?)

/-- The child nodes whose kind satisfies `p`. -/
def childrenWith (t : SyntaxTree) (p : NodeKind → Bool) : List SyntaxTree :=
  t.childNodes.filter (isNodeWith p)

/-- The first child node whose kind satisfies `p`. -/
def childWith? (t : SyntaxTree) (p : NodeKind → Bool) : Option SyntaxTree :=
  t.childNodes.find? (isNodeWith p)

/-- The first child node of kind `k`. -/
def child? (t : SyntaxTree) (k : NodeKind) : Option SyntaxTree := t.childWith? (· == k)

/-- The first child token of kind `k`. -/
def tokenOf? (t : SyntaxTree) (k : TokenKind) : Option Token := t.childTokens.find? (·.kind == k)

/-- The first child token, not trivia, whose kind satisfies `p`. -/
def significantWith? (t : SyntaxTree) (p : TokenKind → Bool) : Option Token :=
  t.childTokens.find? fun tok => !tok.kind.isTrivia && p tok.kind

/-- The first child node satisfying `p` that ends before `limit` starts (any
such child when there is no limit). -/
def childBefore? (t : SyntaxTree) (limit : Option Token) (p : NodeKind → Bool) :
    Option SyntaxTree :=
  t.childNodes.find? fun c =>
    (match limit with
     | some l => c.stop ≤ l.start
     | none => true) && c.isNodeWith p

/-- The first child node satisfying `p` that starts after `tok` ends. -/
def childAfter? (t : SyntaxTree) (tok : Token) (p : NodeKind → Bool) : Option SyntaxTree :=
  t.childNodes.find? fun c => tok.stop ≤ c.start && c.isNodeWith p

/-- The text of the first identifier token directly under the node, or the
empty text. -/
def identText (t : SyntaxTree) : String := ((t.tokenOf? .ident).map (·.text)).getD ""

/-- The number of elements in the tree: a bound on any descent into it. -/
def size : SyntaxTree → Nat
  | token _ => 1
  | node _ _ _ cs => 1 + sizeOfList cs
where
  sizeOfList : List SyntaxTree → Nat
    | [] => 0
    | c :: more => size c + sizeOfList more

end SyntaxTree

end GameScript
