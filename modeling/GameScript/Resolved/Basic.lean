import GameScript.Scope.Basic
/-!
# Resolved scripts

A script with its trivia, punctuation and error nodes dropped, its literal
values read, its operators classified and every local name bound to the
symbol visible where it is used. Every statement and expression keeps the
byte range of the syntax it comes from.
-/

namespace GameScript

/-- Prefix operators. -/
inductive UnaryOp where
  /-- `!` -/
  | not
  /-- `-` -/
  | neg
  /-- `$`, conversion to a string. -/
  | toText
  /-- `#`, conversion to a number. -/
  | toNumber
  /-- `*`, the element inside an array box. -/
  | deref
  /-- `&`, a value boxed into an array. -/
  | box
  deriving DecidableEq, Repr, Inhabited

/-- Infix and assignment operators. -/
inductive BinaryOp where
  | assign | addAssign | subAssign | mulAssign | divAssign | powAssign | orAssign | andAssign
  | modAssign
  | or | and
  /-- `:`, slices and key-value pairs. -/
  | slice
  | eq | ne | lt | gt | le | ge
  | bitOr | bitAnd | shl | shr
  | add | sub | mul | div | mod | pow
  deriving DecidableEq, Repr, Inhabited

/-- Member access operators. -/
inductive MemberOp where
  /-- `.` -/
  | dot
  /-- `->` -/
  | arrow
  /-- `[...]` -/
  | index
  deriving DecidableEq, Repr, Inhabited

namespace UnaryOp

/-- The operator's name, as shown to clients. -/
def opName : UnaryOp → String
  | not => "Not" | neg => "Neg" | toText => "ToString" | toNumber => "ToNumber"
  | deref => "Deref" | box => "Box"

/-- The operator a prefix token stands for. -/
def ofToken? : TokenKind → Option UnaryOp
  | .bang => some not
  | .minus => some neg
  | .dollar => some toText
  | .hash => some toNumber
  | .star => some deref
  | .amp => some box
  | _ => none

end UnaryOp

namespace BinaryOp

/-- The operator's name, as shown to clients. -/
def opName : BinaryOp → String
  | assign => "Assign" | addAssign => "AddAssign" | subAssign => "SubAssign"
  | mulAssign => "MulAssign" | divAssign => "DivAssign" | powAssign => "PowAssign"
  | orAssign => "OrAssign" | andAssign => "AndAssign" | modAssign => "ModAssign"
  | or => "Or" | and => "And" | slice => "Slice" | eq => "Eq" | ne => "Ne" | lt => "Lt"
  | gt => "Gt" | le => "Le" | ge => "Ge" | bitOr => "BitOr" | bitAnd => "BitAnd"
  | shl => "Shl" | shr => "Shr" | add => "Add" | sub => "Sub" | mul => "Mul" | div => "Div"
  | mod => "Mod" | pow => "Pow"

/-- The operator an infix token stands for. -/
def ofToken? : TokenKind → Option BinaryOp
  | .colonEq => some assign | .plusEq => some addAssign | .minusEq => some subAssign
  | .starEq => some mulAssign | .slashEq => some divAssign | .caretEq => some powAssign
  | .pipeEq => some orAssign | .ampEq => some andAssign | .percentEq => some modAssign
  | .pipePipe => some or | .ampAmp => some and | .colon => some slice | .eqEq => some eq
  | .bangEq => some ne | .lt => some lt | .gt => some gt | .ltEq => some le | .gtEq => some ge
  | .pipe => some bitOr | .amp => some bitAnd | .shl => some shl | .shr => some shr
  | .plus => some add | .minus => some sub | .star => some mul | .slash => some div
  | .percent => some mod | .caret => some pow
  | _ => none

/-- Whether the operator assigns: `:=` and the compound assignments. -/
def isAssignment : BinaryOp → Bool
  | assign | addAssign | subAssign | mulAssign | divAssign | powAssign | orAssign | andAssign
  | modAssign => true
  | _ => false

end BinaryOp

/-- The operator's name, as shown to clients. -/
def MemberOp.opName : MemberOp → String
  | .dot => "Dot" | .arrow => "Arrow" | .index => "Index"

namespace Resolved

mutual

/-- A resolved expression. -/
inductive Expr where
  /-- A variable; `symbol` is none when no local declaration covers it. -/
  | name (name : String) (symbol : Option SymbolId) (type : ValueType) (span : Span)
  | integer (value : Int) (span : Span)
  | float (value : Float) (span : Span)
  /-- A string literal without its quotes. -/
  | string (value : String) (span : Span)
  | unary (op : UnaryOp) (operand : Expr) (span : Span)
  | binary (op : BinaryOp) (lhs rhs : Expr) (span : Span)
  /-- `base.member`, `base->member` or `base[member]`. -/
  | member (op : MemberOp) (base member : Expr) (span : Span)
  /-- A member name after `.` or `->`; never resolved locally. -/
  | field (name : String) (span : Span)
  /-- A call; `symbol` is a local variable holding the callee, if any. -/
  | call (name : String) (symbol : Option SymbolId) (args : List Expr) (span : Span)
  | lambda (blockType : String) (scope : ScopeId) (params : List SymbolId) (body : Block)
      (span : Span)

/-- Statements in the scope of a block. -/
inductive Block where
  | mk (scope : ScopeId) (stmts : List Stmt)

/-- A resolved statement. -/
inductive Stmt where
  /-- A declaration, its initializer resolved before the name is declared. -/
  | varDecl (symbol : SymbolId) (init : Option Expr) (span : Span)
  | set (target value : Expr) (span : Span)
  | letStmt (expr : Expr) (span : Span)
  | ifStmt (condition : Expr) (body : Block) (branch : Option Branch) (span : Span)
  | whileStmt (condition : Expr) (body : Block) (span : Span)
  /-- A loop over `iterable`, its variable in the header scope `scope`. -/
  | foreach (scope : ScopeId) (loopVar : LoopVar) (iterable : Expr) (body : Block) (span : Span)
  | begin (blockType : String) (params : List SymbolId) (args : List Expr) (body : Block)
      (span : Span)
  | returnStmt (expr : Option Expr) (span : Span)
  | breakStmt (span : Span)
  | continueStmt (span : Span)
  | exprStmt (expr : Expr) (span : Span)

/-- The rest of an `if` chain. -/
inductive Branch where
  | elseIf (condition : Expr) (body : Block) (next : Option Branch) (span : Span)
  | elseBranch (body : Block) (span : Span)

/-- The variable of a `foreach`: declared in its header or already there. -/
inductive LoopVar where
  | declared (symbol : SymbolId)
  | existing (expr : Expr)

end

instance : Inhabited Expr := ⟨.field "" default⟩

/-- The guessed type of an expression. -/
def Expr.type : Expr → ValueType
  | .name _ _ ty _ => ty
  | .integer .. => .integer
  | .float .. => .float
  | .string .. => .string
  | _ => .unknown

/-- The range of an expression. -/
def Expr.span : Expr → Span
  | .name _ _ _ s | .integer _ s | .float _ s | .string _ s | .unary _ _ s | .binary _ _ _ s
  | .member _ _ _ s | .field _ s | .call _ _ _ s | .lambda _ _ _ _ s => s

/-- A resolved script. -/
structure Script where
  /-- The name after `scriptname`. -/
  name : String
  nameSpan : Span
  /-- The top-level statements, in the script scope. -/
  body : List Stmt
  scopes : ScopeTree

/-- A resolved script and the names it uses that no local declaration
covers, in order of first use, one per folded name, as first written. -/
structure Lowered where
  script : Script
  externalNames : List String

end Resolved

end GameScript
