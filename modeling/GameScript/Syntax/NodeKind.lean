import GameScript.Syntax.TokenKind
/-!
# Node kinds

The inner nodes of a syntax tree: the two roots (a script, a standalone
expression), error nodes, declarations, statements, expressions and their
parts. A syntax kind is either a token kind or a node kind; tools list the
token kinds first, then the node kinds in the order below.
-/

namespace GameScript

/-- The kind of an inner node of a syntax tree. -/
inductive NodeKind where
  | script | exprRoot | error | scriptNameDecl | stmtList | varDecl | varDeclStmt
  | setStmt | letStmt | ifStmt | elseIfBranch | elseBranch | whileStmt | foreachStmt
  | beginStmt | paramList | returnStmt | breakStmt | continueStmt | exprStmt
  | name | nameRef | literal | binExpr | unaryExpr | parenExpr | memberExpr | funcExpr
  | argList | lambdaExpr
  deriving DecidableEq, Repr, Inhabited

namespace NodeKind

/-- Every node kind, in declaration order. -/
def all : List NodeKind :=
  [script, exprRoot, error, scriptNameDecl, stmtList, varDecl, varDeclStmt,
   setStmt, letStmt, ifStmt, elseIfBranch, elseBranch, whileStmt, foreachStmt,
   beginStmt, paramList, returnStmt, breakStmt, continueStmt, exprStmt,
   name, nameRef, literal, binExpr, unaryExpr, parenExpr, memberExpr, funcExpr,
   argList, lambdaExpr]

/-- The name tools print for a kind. -/
def kindName : NodeKind → String
  | script => "Script" | exprRoot => "ExprRoot" | error => "Error"
  | scriptNameDecl => "ScriptNameDecl" | stmtList => "StmtList" | varDecl => "VarDecl"
  | varDeclStmt => "VarDeclStmt" | setStmt => "SetStmt" | letStmt => "LetStmt"
  | ifStmt => "IfStmt" | elseIfBranch => "ElseIfBranch" | elseBranch => "ElseBranch"
  | whileStmt => "WhileStmt" | foreachStmt => "ForeachStmt" | beginStmt => "BeginStmt"
  | paramList => "ParamList" | returnStmt => "ReturnStmt" | breakStmt => "BreakStmt"
  | continueStmt => "ContinueStmt" | exprStmt => "ExprStmt" | name => "Name"
  | nameRef => "NameRef" | literal => "Literal" | binExpr => "BinExpr"
  | unaryExpr => "UnaryExpr" | parenExpr => "ParenExpr" | memberExpr => "MemberExpr"
  | funcExpr => "FuncExpr" | argList => "ArgList" | lambdaExpr => "LambdaExpr"

/-- Nodes that are expressions. -/
def isExpr : NodeKind → Bool
  | nameRef | literal | binExpr | unaryExpr | parenExpr | memberExpr | funcExpr
  | lambdaExpr => true
  | _ => false

/-- Nodes that are statements. -/
def isStmt : NodeKind → Bool
  | varDeclStmt | setStmt | letStmt | ifStmt | whileStmt | foreachStmt | beginStmt
  | returnStmt | breakStmt | continueStmt | exprStmt => true
  | _ => false

/-- Nodes that open a scope of names. -/
def opensScope : NodeKind → Bool
  | script | stmtList | lambdaExpr | foreachStmt => true
  | _ => false

end NodeKind

/-- A syntax kind: a token kind or a node kind. -/
inductive SyntaxKind where
  | token (kind : TokenKind)
  | node (kind : NodeKind)
  deriving DecidableEq, Repr, Inhabited

namespace SyntaxKind

/-- Every syntax kind: the token kinds, then the node kinds. -/
def all : List SyntaxKind :=
  TokenKind.all.map token ++ NodeKind.all.map node

/-- The name tools print for a kind. -/
def kindName : SyntaxKind → String
  | token k => k.kindName
  | node k => k.kindName

/-- The properties of a kind, by their tool names, in a fixed order:
trivia, newline, literal, operator, assign_op, keyword, type, token, node,
expr, stmt, scope. -/
def flags : SyntaxKind → List String
  | token k =>
    [("trivia", k.isTrivia), ("newline", k.isNewline), ("literal", k.isLiteral),
     ("operator", k.isOperator), ("assign_op", k.isAssignOp), ("keyword", k.isKeyword),
     ("type", k.isType), ("token", true)].filterMap fun (n, b) => if b then some n else none
  | node k =>
    [("node", true), ("expr", k.isExpr), ("stmt", k.isStmt),
     ("scope", k.opensScope)].filterMap fun (n, b) => if b then some n else none

end SyntaxKind

end GameScript
