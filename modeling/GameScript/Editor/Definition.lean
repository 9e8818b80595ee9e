import GameScript.Project.Database
import GameScript.Syntax.Locate
/-!
# What a name refers to

A name in an open file refers to a local symbol or to a global name. A use
resolves the way lowering bound it: from the innermost scope around it,
outwards, then among the global names. A member name after `.` or `->` is
never resolved; a call after `.` or `->` is looked up among the global names
only. A declared name refers to the symbol its declaration made in the
scope around it, and a script's own name to its global entry.

The references to a local symbol are looked for inside the node that opens
its scope; those to a global name in the whole file. A reference is an
identifier of the same folded name that refers to the same thing.
-/

namespace GameScript

/-- What a name refers to. -/
inductive Definition where
  /-- A symbol declared in a file. -/
  | localSymbol (file : FileId) (scope : ScopeId) (symbol : SymbolId)
  /-- A catalog entry, a script name or a name declared nowhere. -/
  | globalName (entry : GlobalEntry)
  deriving DecidableEq, Repr, Inhabited

/-- Whether two definitions denote the same thing: global names by their
folded names, symbols by file, scope and number. -/
def Definition.isSame : Definition → Definition → Bool
  | .globalName a, .globalName b => Text.foldCase a.name == Text.foldCase b.name
  | a, b => a == b

namespace SyntaxTree

/-- The child of a node that holds `span`, as a binary search over the
children finds it: a child overlapping the range if there is one, else the
last child ending at or before it, if that one holds it. -/
def childAt? (t : SyntaxTree) (span : Span) : Option SyntaxTree :=
  let overlapping := t.children.find? fun (c : SyntaxTree) => !(c.stop ≤ span.start) && !(span.stop ≤ c.start)
  let candidate := match overlapping with
    | some c => some c
    | none => (t.children.filter fun (c : SyntaxTree) => c.stop ≤ span.start).getLast?
  candidate.filter fun (c : SyntaxTree) => c.start ≤ span.start && span.stop ≤ c.stop

/-- The node a `NodeRef` names, found by descending from the root towards
its range. -/
def find? (root : SyntaxTree) (ref : NodeRef) : Option SyntaxTree :=
  go (root.size + 1) root
where
  go : Nat → SyntaxTree → Option SyntaxTree
    | 0, _ => none
    | n + 1, t =>
      if t.nodeKind? == some ref.kind && t.span == ref.span then some t
      else
        match t.childAt? ref.span with
        | some c => if c.nodeKind?.isSome then go n c else none
        | none => none

end SyntaxTree

namespace Editor

/-- The located tokens of an open file. -/
def index? (db : Database) (file : FileId) : Option TokenIndex := (db.file? file).map (·.index)

/-- The lowered script of a file and the scope a scope node opens. -/
def scopeOf? (db : Database) (file : FileId) (node : SyntaxTree) : Option (Resolved.Script × ScopeId) := do
  let s ← (← db.file? file).script
  let id ← s.scopes.scopeOf? node.ref
  return (s, id)

/-- A global name's definition. -/
def globalDefinition? (db : Database) (name : String) : Option Definition :=
  (db.globals.get? name).map .globalName

/-- Whether a located node is the member of a `.` or `->` access. -/
def isMemberOf (node : SyntaxTree) (up : List SyntaxTree) : Bool :=
  match up with
  | parent :: _ =>
    parent.isNode .memberExpr &&
      (match parent.significantWith? fun k => k == .dot || k == .arrow || k == .lBracket with
       | some op =>
         op.kind != .lBracket &&
           ((parent.childAfter? op NodeKind.isExpr).map (·.ref)) == some node.ref
       | none => false)
  | [] => false

/-- The definition a `NameRef` node refers to. -/
def findDefinition? (db : Database) (file : FileId) (nameRef : Located) : Option Definition :=
  let name := nameRef.elem.identText
  if isMemberOf nameRef.elem nameRef.ancestors then none
  else
    let isMethod := match nameRef.ancestors with
      | call :: up => call.isNode .funcExpr && isMemberOf call up
      | [] => false
    if isMethod then globalDefinition? db name
    else
      let found := do
        let scopeNode ← nameRef.scopeNode?
        let (s, scope) ← scopeOf? db file scopeNode.elem
        s.scopes.resolve scope name
      match found with
      | some (scope, symbol) => some (.localSymbol file scope symbol)
      | none => globalDefinition? db name

/-- The definition a declared `Name` node introduces. -/
def definitionOfName? (db : Database) (file : FileId) (name : Located) : Option Definition :=
  match name.ancestors with
  | parent :: up =>
    if parent.isNode .varDecl then do
      let scopeNode ← (Located.mk parent up).scopeNode?
      let (s, scope) ← scopeOf? db file scopeNode.elem
      let sc ← s.scopes.scope? scope
      let symbol ← sc.symbols.get? name.elem.identText
      return .localSymbol file scope symbol
    else if parent.isNode .scriptNameDecl then globalDefinition? db name.elem.identText
    else none
  | [] => none

/-- The definition of an identifier token, declaring or using a name. -/
def definitionOfToken? (db : Database) (file : FileId) (tok : Token × List SyntaxTree) :
    Option Definition :=
  match tok.2 with
  | parent :: up =>
    if parent.isNode .nameRef then findDefinition? db file ⟨parent, up⟩
    else if parent.isNode .name then definitionOfName? db file ⟨parent, up⟩
    else none
  | [] => none

/-- The identifier at an offset and its definition. -/
def definitionAt? (db : Database) (file : FileId) (offset : Nat) : Option ((Token × List SyntaxTree) × Definition) := do
  let idx ← index? db file
  let tok ← idx.identAt offset
  let d ← definitionOfToken? db file tok
  return (tok, d)

/-- The ranges in a file that name a definition, declarations included, in
order. -/
def findReferences (db : Database) (file : FileId) (d : Definition) : List Span :=
  match db.file? file with
  | none => []
  | some f =>
    let root := f.parse.root
    let searched : Option (Span × String) := match d with
      | .localSymbol dfile scope symbol =>
        if dfile != file then none else do
          let s ← f.script
          let sc ← s.scopes.scope? scope
          let node ← root.find? sc.node
          let sym ← s.scopes.symbol? symbol
          return (node.span, sym.name)
      | .globalName e => some (root.span, e.name)
    match searched with
    | none => []
    | some (area, name) =>
      let key := Text.foldCase name
      f.index.tokens.toList.filterMap fun (t, up) =>
        if area.start ≤ t.start && t.stop ≤ area.stop && t.start < t.stop && t.kind == .ident &&
            Text.foldCase t.text == key &&
            ((definitionOfToken? db file (t, up)).map (·.isSame d)).getD false then
          some ⟨t.start, t.stop⟩
        else none

end Editor

end GameScript
