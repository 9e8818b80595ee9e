import GameScript.Syntax.View
/-!
# Finding elements by offset

A cursor sits between characters, so an offset can touch two tokens: the
one ending there and the one starting there. `TokenIndex.atOffset` gives the
tokens of non-zero width whose range holds the offset, ends included: none
(only in an empty text), one, or two.

`tokenContaining` prefers the token that starts at the offset.
`tokenAtOrBefore` prefers a significant token (neither trivia nor a line
break), looking back along the line when the cursor touches none, so that
with the cursor at the end of `foo|` the identifier is found. `identAt` gives
an identifier the cursor touches, the one after the cursor first.

An element is located with the nodes around it, nearest first, which is
what scope queries climb. A tree's located tokens are indexed once, in
order, and searched by offset.
-/

namespace GameScript

/-- An element with the nodes around it, nearest first. -/
structure Located where
  elem : SyntaxTree
  ancestors : List SyntaxTree
  deriving Inhabited

namespace SyntaxTree

/-- Every element of the tree, located, parents before their children. -/
def preorder (t : SyntaxTree) : List Located :=
  (go t [] []).reverse
where
  /-- Adds the elements of `t` to `acc`, last first. -/
  go : SyntaxTree → List SyntaxTree → List Located → List Located
    | .token tk, up, acc => ⟨.token tk, up⟩ :: acc
    | .node k a b cs, up, acc => goList cs (.node k a b cs :: up) (⟨.node k a b cs, up⟩ :: acc)
  goList : List SyntaxTree → List SyntaxTree → List Located → List Located
    | [], _, acc => acc
    | c :: more, up, acc => goList more up (go c up acc)

/-- The tokens of the tree, located, in order. -/
def locatedTokens (t : SyntaxTree) : List (Token × List SyntaxTree) :=
  t.preorder.filterMap fun l => l.elem.token?.map (·, l.ancestors)

end SyntaxTree

/-- A located token as a located element. -/
def Located.ofToken (t : Token × List SyntaxTree) : Located := ⟨.token t.1, t.2⟩

/-- The tokens an offset touches. -/
inductive TokenAtOffset where
  | none
  | single (t : Token × List SyntaxTree)
  /-- The token ending at the offset and the one starting there. -/
  | between (left right : Token × List SyntaxTree)

/-- A tree with its located tokens in order. -/
structure TokenIndex where
  root : SyntaxTree
  tokens : Array (Token × List SyntaxTree)

namespace TokenIndex

/-- Indexes the tokens of a tree. -/
def ofTree (root : SyntaxTree) : TokenIndex := ⟨root, root.locatedTokens.toArray⟩

/-- The least index in `[lo, hi)` whose token ends at or after `offset`
(`hi` if none); tokens are in order, so their ends are too. -/
def firstEndingFrom (idx : TokenIndex) (offset lo hi : Nat) : Nat :=
  if lo < hi then
    let mid := (lo + hi) / 2
    match idx.tokens[mid]? with
    | some (t, _) =>
      if offset ≤ t.stop then idx.firstEndingFrom offset lo mid
      else idx.firstEndingFrom offset (mid + 1) hi
    | none => lo
  else lo
termination_by hi - lo

/-- The tokens of non-zero width whose range holds `offset`, ends included. -/
def atOffset (idx : TokenIndex) (offset : Nat) : TokenAtOffset :=
  let i := idx.firstEndingFrom offset 0 idx.tokens.size
  let near := (idx.tokens.extract i (i + 3)).toList.filter fun (t, _) =>
    t.start < t.stop && t.start ≤ offset && offset ≤ t.stop
  match near with
  | [t] => .single t
  | l :: r :: _ => .between l r
  | [] => .none

/-- Whether the tree's range holds `offset`, ends included. -/
def holds (idx : TokenIndex) (offset : Nat) : Bool := idx.root.start ≤ offset && offset ≤ idx.root.stop

/-- The tokens before `t`, nearest first. -/
def tokensBefore (idx : TokenIndex) (t : Token) : List (Token × List SyntaxTree) :=
  let i := idx.firstEndingFrom t.stop 0 idx.tokens.size
  (idx.tokens.extract 0 i).toList.reverse.filter fun (u, _) => u.start < t.start

/-- Whether a token is neither trivia nor a line break. -/
def isSignificant (t : Token) : Bool := !t.kind.isTrivia && !t.kind.isNewline

/-- The nearest significant token before `t` on its line. -/
def previousSignificant (idx : TokenIndex) (t : Token) : Option (Token × List SyntaxTree) :=
  go (idx.tokensBefore t)
where
  go : List (Token × List SyntaxTree) → Option (Token × List SyntaxTree)
    | [] => none
    | (u, up) :: more =>
      if u.kind.isNewline then none
      else if !u.kind.isTrivia then some (u, up)
      else go more

/-- The token holding `offset`, the one starting there if two do. -/
def tokenContaining (idx : TokenIndex) (offset : Nat) : Option (Token × List SyntaxTree) :=
  if !idx.holds offset then none else
  match idx.atOffset offset with
  | .none => none
  | .single t => some t
  | .between _ r => some r

/-- The significant token at `offset`, or the nearest one before it on its
line, or else the token there. -/
def tokenAtOrBefore (idx : TokenIndex) (offset : Nat) : Option (Token × List SyntaxTree) :=
  if !idx.holds offset then none else
  match idx.atOffset offset with
  | .none => none
  | .single t => if isSignificant t.1 then some t else (idx.previousSignificant t.1).orElse fun _ => some t
  | .between l r =>
    if isSignificant l.1 then some l
    else if isSignificant r.1 then some r
    else (idx.previousSignificant l.1).orElse fun _ => some l

/-- The identifier the cursor at `offset` touches. -/
def identAt (idx : TokenIndex) (offset : Nat) : Option (Token × List SyntaxTree) :=
  if !idx.holds offset then none else
  match idx.atOffset offset with
  | .between l r =>
    if r.1.kind == .ident then some r else if l.1.kind == .ident then some l else none
  | _ => (idx.tokenAtOrBefore offset).filter fun (t, _) => t.kind == .ident

end TokenIndex

/-- The innermost node around an element that opens a scope. The iterable of
a `foreach` belongs to the scope around the loop: it cannot see the loop
variable. -/
def Located.scopeNode? (l : Located) : Option Located :=
  go l.ancestors
where
  go : List SyntaxTree → Option Located
    | [] => none
    | n :: up =>
      if !n.isNodeWith NodeKind.opensScope then go up
      else if n.isNode .foreachStmt && inIterable n then go up
      else some ⟨n, up⟩
  inIterable (n : SyntaxTree) : Bool :=
    match (n.tokenOf? .lArrow).bind fun a => n.childAfter? a NodeKind.isExpr with
    | some it => it.start ≤ l.elem.start && l.elem.stop ≤ it.stop
    | none => false

end GameScript
