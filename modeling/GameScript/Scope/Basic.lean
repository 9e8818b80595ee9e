import GameScript.Syntax.View
import GameScript.ValueType
import GameScript.Text.NameTable
/-!
# Scopes and symbols

A script's scopes form a tree: the script scope at the root, a scope for
every block body, for every `foreach` header and for every lambda's
parameters. Scopes and symbols are numbered in the order they are created;
a scope's parent is created before it. Each scope has a table of the names
declared directly in it: declaring a name again there keeps its place in the
table and binds it to the newer symbol.

A name resolves to the innermost scope, from a given one outwards, that
declares it. The symbols visible from a scope are those its names resolve
to, innermost first, each scope's in table order.
-/

namespace GameScript

/-- A symbol, by its number in the scope tree. -/
abbrev SymbolId := Nat

/-- A scope, by its number in the scope tree; the script scope is `0`. -/
abbrev ScopeId := Nat

/-- A declared variable or parameter. -/
structure Symbol where
  /-- The name as written at the declaration. -/
  name : String
  type : ValueType
  /-- The declaring `VarDecl` node. -/
  decl : NodeRef
  /-- Where the declared name stands. -/
  nameSpan : Span
  deriving DecidableEq, Repr, Inhabited

/-- What opens a scope. -/
inductive ScopeKind where
  | script
  | block
  | foreachHeader
  | lambdaParams
  deriving DecidableEq, Repr, Inhabited

/-- The kind's name, as shown to clients. -/
def ScopeKind.kindName : ScopeKind → String
  | .script => "Script"
  | .block => "Block"
  | .foreachHeader => "ForeachHeader"
  | .lambdaParams => "LambdaParams"

/-- A scope of the tree. -/
structure Scope where
  /-- The enclosing scope, none for the script scope. -/
  parent : Option ScopeId
  /-- Nested scopes, in creation order. -/
  children : List ScopeId
  kind : ScopeKind
  /-- The node that opens the scope. -/
  node : NodeRef
  /-- The names declared directly here. -/
  symbols : NameTable SymbolId
  deriving DecidableEq, Repr, Inhabited

/-- All scopes and symbols of a script. -/
structure ScopeTree where
  scopes : Array Scope
  symbols : Array Symbol
  deriving Repr, Inhabited

namespace ScopeTree

/-- The tree holding only the script scope, opened by `root`. -/
def ofRoot (root : NodeRef) : ScopeTree :=
  { scopes := #[{ parent := none, children := [], kind := .script, node := root, symbols := [] }],
    symbols := #[] }

/-- The scope of a number. -/
def scope? (t : ScopeTree) (id : ScopeId) : Option Scope := t.scopes[id]?

/-- The symbol of a number. -/
def symbol? (t : ScopeTree) (id : SymbolId) : Option Symbol := t.symbols[id]?

/-- Opens a scope inside `parent`, returning its number. -/
def push (t : ScopeTree) (parent : ScopeId) (kind : ScopeKind) (node : NodeRef) :
    ScopeTree × ScopeId :=
  let id := t.scopes.size
  let scopes := t.scopes.push { parent := some parent, children := [], kind, node, symbols := [] }
  let scopes := scopes.modify parent fun s => { s with children := s.children ++ [id] }
  ({ t with scopes }, id)

/-- Declares a symbol in `scope`, returning its number. -/
def define (t : ScopeTree) (scope : ScopeId) (sym : Symbol) : ScopeTree × SymbolId :=
  let id := t.symbols.size
  let scopes := t.scopes.modify scope fun s => { s with symbols := s.symbols.insert sym.name id }
  ({ scopes, symbols := t.symbols.push sym }, id)

/-- The scopes from `scope` out to the script scope, innermost first. -/
def ancestors (t : ScopeTree) (scope : ScopeId) : List ScopeId :=
  go t.scopes.size scope
where
  go : Nat → ScopeId → List ScopeId
    | 0, _ => []
    | n + 1, id =>
      match t.scope? id with
      | none => []
      | some s =>
        match s.parent with
        | some p => id :: go n p
        | none => [id]

/-- The innermost scope, from `scope` outwards, that declares `name`, and the
symbol it binds the name to. -/
def resolve (t : ScopeTree) (scope : ScopeId) (name : String) : Option (ScopeId × SymbolId) :=
  (t.ancestors scope).findSome? fun id =>
    (t.scope? id).bind fun s => (s.symbols.get? name).map (id, ·)

/-- The symbols visible from `scope`: innermost first, a name shadowed by an
inner declaration left out, each scope's in table order. -/
def visibleSymbols (t : ScopeTree) (scope : ScopeId) : List SymbolId :=
  let entries := (t.ancestors scope).flatMap fun id => ((t.scope? id).map (·.symbols)).getD []
  (entries.foldl (fun (acc : List String × List SymbolId) (k, v) =>
    if acc.1.contains k then acc else (k :: acc.1, v :: acc.2)) ([], [])).2.reverse

/-- Whether `inner` is `outer` or nested in it. -/
def isWithin (t : ScopeTree) (inner outer : ScopeId) : Bool := (t.ancestors inner).contains outer

/-- The scope opened by a node. -/
def scopeOf? (t : ScopeTree) (node : NodeRef) : Option ScopeId :=
  t.scopes.toList.findIdx? (·.node == node)

end ScopeTree

end GameScript
