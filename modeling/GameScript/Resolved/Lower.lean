import GameScript.Resolved.Basic
import GameScript.Resolved.Literal
/-!
# Lowering a syntax tree

The tree is walked once, in source order. A scope opens for the script, for
every block body, for every `foreach` header and for every lambda's
parameters; a declaration enters its scope when it is met, so a use before
it does not see it. A name resolves to the innermost visible declaration;
one that does not resolve is noted as external.

Lowering is partial: a statement with a part that cannot be lowered (a
missing operand, a literal without a value) is left out, while the scopes
and symbols made on the way stay. Which parts are required follows the
syntax: a declaration's initializer may fail without its declaration, a
parameter that cannot be declared or resolved is skipped, and every other
part is required.

The walk descends one node per step, so the size of the tree is enough fuel.
-/

namespace GameScript

namespace Resolved

/-- What lowering builds as it goes. -/
structure Lowerer where
  scopes : ScopeTree
  /-- The open scopes, innermost first. -/
  stack : List ScopeId
  /-- Names used without a local declaration, by folded name. -/
  external : NameTable String

/-- A lowering step: it may fail, and its effects on the scopes stay. -/
abbrev LowerM := OptionT (StateM Lowerer)

namespace Lower

/-- The value, or failure. -/
def need (o : Option α) : LowerM α :=
  match o with
  | some x => pure x
  | none => failure

/-- Runs a step, turning its failure into `none`. -/
def optional (x : LowerM α) : LowerM (Option α) := (OptionT.run x : StateM Lowerer _)

/-- The innermost open scope. -/
def current : LowerM ScopeId := return ((← get).stack.head?).getD 0

/-- Opens a scope inside the current one. -/
def enter (kind : ScopeKind) (node : SyntaxTree) : LowerM ScopeId := do
  let l ← get
  let parent := l.stack.head?.getD 0
  let (scopes, id) := l.scopes.push parent kind node.ref
  set { l with scopes, stack := id :: l.stack }
  return id

/-- Closes the innermost scope. -/
def exit : LowerM Unit := modify fun l => { l with stack := l.stack.drop 1 }

/-- Resolves a name from the current scope. -/
def resolve (name : String) : LowerM (Option (ScopeId × SymbolId)) := do
  let l ← get
  return l.scopes.resolve (l.stack.head?.getD 0) name

/-- Notes a name used without a local declaration, once per folded name. -/
def noteExternal (name : String) : LowerM Unit :=
  modify fun l =>
    if (l.external.get? name).isSome then l else { l with external := l.external.insert name name }

/-- Declares the variable of a `VarDecl` node in the current scope; fails
if it has no name. -/
def declare (decl : SyntaxTree) : LowerM SymbolId := do
  let type := ((decl.childTokens.find? (·.kind.isType)).bind fun t => ValueType.ofKeyword? t.kind).getD .unknown
  let name ← need (decl.child? .name)
  let ident ← need (name.tokenOf? .ident)
  let l ← get
  let (scopes, id) := l.scopes.define (l.stack.head?.getD 0)
    { name := name.identText, type, decl := decl.ref, nameSpan := ⟨ident.start, ident.stop⟩ }
  set { l with scopes }
  return id

/-- A name used in an expression: bound if it resolves, else external with
the ambiguous type. -/
def nameRef (node : SyntaxTree) : LowerM Expr := do
  let name := node.identText
  match ← resolve name with
  | some (_, sym) =>
    let type := (((← get).scopes.symbol? sym).map (·.type)).getD .unknown
    return .name name (some sym) type node.span
  | none =>
    noteExternal name
    return .name name none .ambiguous node.span

/-- The typed parameters of a `ParamList` declared in the current scope, and
the untyped ones resolved; parameters that are neither are skipped. -/
def params (list : SyntaxTree) : LowerM (List SymbolId) := do
  let entries := list.childrenWith fun k => k == .varDecl || k == .nameRef
  entries.foldlM (fun acc p => do
    if p.isNode .varDecl then
      match ← optional (declare p) with
      | some id => return acc ++ [id]
      | none => return acc
    else
      match ← resolve p.identText with
      | some (_, id) => return acc ++ [id]
      | none => return acc) []

/-- Whether a node is a branch of an `if` chain. -/
def isBranch (k : NodeKind) : Bool := k == .elseIfBranch || k == .elseBranch

mutual

/-- The statements among `nodes` that lower, in order. -/
def stmts : Nat → List SyntaxTree → LowerM (List Stmt)
  | 0, _ => pure []
  | fuel + 1, nodes => nodes.filterMapM fun n => optional (stmt fuel n)
termination_by structural fuel _ => fuel

/-- A block body, in a new scope. -/
def block : Nat → Option SyntaxTree → LowerM Block
  | 0, _ => failure
  | fuel + 1, list => do
    let list ← need list
    let scope ← enter .block list
    let body ← stmts fuel (list.childrenWith NodeKind.isStmt)
    exit
    return .mk scope body
termination_by structural fuel _ => fuel

/-- A statement node. -/
def stmt : Nat → SyntaxTree → LowerM Stmt
  | 0, _ => failure
  | fuel + 1, node => do
    let span := node.span
    match node.nodeKind? with
    | some .varDeclStmt =>
      let init ← match node.childWith? NodeKind.isExpr with
        | some e => optional (expr fuel e)
        | none => pure none
      let sym ← declare (← need (node.child? .varDecl))
      return .varDecl sym init span
    | some .setStmt =>
      let toKw := node.tokenOf? .kwTo
      let target ← expr fuel (← need (node.childBefore? toKw NodeKind.isExpr))
      let value ← expr fuel (← need ((toKw.bind fun t => node.childAfter? t NodeKind.isExpr)))
      return .set target value span
    | some .letStmt => return .letStmt (← expr fuel (← need (node.childWith? NodeKind.isExpr))) span
    | some .ifStmt =>
      let condition ← expr fuel (← need (node.childWith? NodeKind.isExpr))
      let body ← block fuel (node.child? .stmtList)
      let next ← match node.childWith? isBranch with
        | some b => some <$> branch fuel b
        | none => pure none
      return .ifStmt condition body next span
    | some .whileStmt =>
      let condition ← expr fuel (← need (node.childWith? NodeKind.isExpr))
      let body ← block fuel (node.child? .stmtList)
      return .whileStmt condition body span
    | some .foreachStmt =>
      let arrow ← need (node.tokenOf? .lArrow)
      let iterable ← expr fuel (← need (node.childAfter? arrow NodeKind.isExpr))
      let scope ← enter .foreachHeader node
      let inner ← optional (loopParts fuel node arrow)
      exit
      let (var, body) ← need inner
      return .foreach scope var iterable body span
    | some .beginStmt =>
      let blockType := (← need (node.child? .name)).identText
      let ps ← match node.child? .paramList with
        | some list => params list
        | none => pure []
      let args ← match node.child? .argList with
        | some list => exprs fuel (list.childrenWith NodeKind.isExpr)
        | none => pure []
      let body ← block fuel (node.child? .stmtList)
      return .begin blockType ps args body span
    | some .returnStmt =>
      match node.childWith? NodeKind.isExpr with
      | some e => return .returnStmt (some (← expr fuel e)) span
      | none => return .returnStmt none span
    | some .breakStmt => return .breakStmt span
    | some .continueStmt => return .continueStmt span
    | some .exprStmt => return .exprStmt (← expr fuel (← need (node.childWith? NodeKind.isExpr))) span
    | _ => failure
termination_by structural fuel _ => fuel

/-- The variable and body of a `foreach`, in its header scope. -/
def loopParts : Nat → SyntaxTree → Token → LowerM (LoopVar × Block)
  | 0, _, _ => failure
  | fuel + 1, node, arrow => do
    let v ← need (node.childBefore? (some arrow) fun k => k == .varDecl || k == .nameRef)
    let var ← if v.isNode .varDecl then LoopVar.declared <$> declare v
      else LoopVar.existing <$> nameRef v
    let body ← block fuel (node.child? .stmtList)
    return (var, body)
termination_by structural fuel _ _ => fuel

/-- The rest of an `if` chain. -/
def branch : Nat → SyntaxTree → LowerM Branch
  | 0, _ => failure
  | fuel + 1, node => do
    if node.isNode .elseIfBranch then
      let condition ← expr fuel (← need (node.childWith? NodeKind.isExpr))
      let body ← block fuel (node.child? .stmtList)
      let next ← match node.childWith? isBranch with
        | some b => some <$> branch fuel b
        | none => pure none
      return .elseIf condition body next node.span
    else
      return .elseBranch (← block fuel (node.child? .stmtList)) node.span
termination_by structural fuel _ => fuel

/-- Expressions that must all lower. -/
def exprs : Nat → List SyntaxTree → LowerM (List Expr)
  | 0, _ => failure
  | fuel + 1, nodes => nodes.mapM (expr fuel)
termination_by structural fuel _ => fuel

/-- An expression node. -/
def expr : Nat → SyntaxTree → LowerM Expr
  | 0, _ => failure
  | fuel + 1, node => do
    let span := node.span
    match node.nodeKind? with
    | some .nameRef => nameRef node
    | some .literal =>
      let tok ← need (node.significantWith? TokenKind.isLiteral)
      match ← need (LiteralValue.ofToken? tok) with
      | .integer v => return .integer v span
      | .float v => return .float v span
      | .string v => return .string v span
    | some .parenExpr => expr fuel (← need (node.childWith? NodeKind.isExpr))
    | some .unaryExpr =>
      let op ← need ((node.significantWith? TokenKind.isOperator).bind fun t => UnaryOp.ofToken? t.kind)
      let operand ← expr fuel (← need (node.childWith? NodeKind.isExpr))
      return .unary op operand span
    | some .binExpr =>
      let opTok ← need (node.significantWith? TokenKind.isOperator)
      let op ← need (BinaryOp.ofToken? opTok.kind)
      let lhs ← expr fuel (← need (node.childBefore? (some opTok) NodeKind.isExpr))
      let rhs ← expr fuel (← need (node.childAfter? opTok NodeKind.isExpr))
      return .binary op lhs rhs span
    | some .memberExpr =>
      let opTok ← need (node.significantWith? fun k => k == .dot || k == .arrow || k == .lBracket)
      let op : MemberOp := if opTok.kind == .dot then .dot else if opTok.kind == .arrow then .arrow else .index
      let base ← expr fuel (← need (node.childBefore? (some opTok) NodeKind.isExpr))
      let target ← need (node.childAfter? opTok NodeKind.isExpr)
      let member ← if op != .index && target.isNode .nameRef then
          pure (Expr.field target.identText target.span)
        else expr fuel target
      return .member op base member span
    | some .funcExpr =>
      let name := (← need (node.child? .nameRef)).identText
      let sym := (← resolve name).map (·.2)
      if sym.isNone then noteExternal name
      let args ← match node.child? .argList with
        | some list => exprs fuel (list.childrenWith NodeKind.isExpr)
        | none => pure []
      return .call name sym args span
    | some .lambdaExpr =>
      let blockType := (← need (node.child? .name)).identText
      let scope ← enter .lambdaParams node
      let ps ← match node.child? .paramList with
        | some list => params list
        | none => pure []
      let body ← optional (block fuel (node.child? .stmtList))
      exit
      return .lambda blockType scope ps (← need body) span
    | _ => failure

termination_by structural fuel _ => fuel
end

end Lower

/-- Lowers the tree of a script. None when the root is not a script or the
script has no name. -/
def lower (root : SyntaxTree) : Option Lowered := do
  if !root.isNode .script then none
  let decl ← root.child? .scriptNameDecl
  let name ← decl.child? .name
  let ident ← name.tokenOf? .ident
  let start : Lowerer := { scopes := ScopeTree.ofRoot root.ref, stack := [0], external := [] }
  let (body, l) := (Lower.stmts (root.size + 1) (root.childrenWith NodeKind.isStmt)).run.run start
  let script : Script :=
    { name := name.identText, nameSpan := ⟨ident.start, ident.stop⟩, body := body.getD [],
      scopes := l.scopes }
  return { script, externalNames := l.external.values }

end Resolved

end GameScript
