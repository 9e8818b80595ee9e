import GameScript.Syntax.Cursor
/-!
# The grammar

A recursive descent parser over the cursor of `GameScript.Syntax.Cursor`.
Statements end at line breaks; blocks end at `end`, `endif`, `elseif`,
`else` or `loop`. Expressions are read by binding power: the table is
`TokenKind.infixPower`, prefix operators bind at 25, member access and
indexing follow their operand and nest to the left. An identifier followed by
something that can start an argument is a call (`GetItemCount Gold001`); so
is an identifier the catalog names as a function, even with no arguments.
Arguments are read at prefix level, so `GetStage Quest > 10` compares the
call's result.

Every function here returns the tree pieces it built and the cursor it leaves.
The functions are mutually recursive and take a fuel argument that bounds the
depth of the calls; they recurse on the fuel as a measure, which gives each of
them its own equations. `Grammar.fuelFor` gives enough for any input: every call
either consumes a token first or goes to a function of lower rank (at most 31
levels), so no chain of calls is longer than 32 per significant token.
-/

namespace GameScript

namespace Grammar

open Cursor

/-- `break` or `continue`: the keyword and the line break. -/
def keywordStmt (s : Cursor) (kind : NodeKind) : List BareTree × Cursor :=
  let (kw, s1) := s.bumpAny.val
  let (nl, s2) := s1.expectNewline.val
  ([.node kind (kw ++ nl)], s2)

mutual

/-- Statements up to a block terminator, as a statement list. Past the
nesting limit the whole body becomes one error node. -/
def stmtList : Nat → Cursor → List BareTree × Cursor
  | 0, s => ([], s)
  | fuel + 1, s =>
    if s.tooDeep then
      let (err, s1) := s.blockTooDeep.val
      ([.node .stmtList err], s1)
    else
      let (body, s1) := stmtListBody fuel { s with nesting := s.nesting + 1 }
      ([.node .stmtList body], { s1 with nesting := s1.nesting - 1 })
termination_by fuel _ => fuel

/-- The statements and blank lines of a block body. -/
def stmtListBody : Nat → Cursor → List BareTree × Cursor
  | 0, s => ([], s)
  | fuel + 1, s =>
    if s.atEnd || s.current.isBlockEnd then ([], s) else
    let (item, s1) :=
      if s.current == .newline then
        let ((_, nl), s1) := (s.eat .newline).val
        (nl, s1)
      else statement fuel s
    let (more, s2) := stmtListBody fuel s1
    (item ++ more, s2)
termination_by fuel _ => fuel

/-- One statement with its line break. -/
def statement : Nat → Cursor → List BareTree × Cursor
  | 0, s => ([], s)
  | fuel + 1, s =>
    if s.current == .kwSet then setStmt fuel s
    else if s.current == .kwLet then letStmt fuel s
    else if s.current == .kwIf then ifStmt fuel s
    else if s.current == .kwWhile then whileStmt fuel s
    else if s.current == .kwForeach then foreachStmt fuel s
    else if s.current == .kwBegin then beginOrNested fuel s
    else if s.current == .kwReturn then returnStmt fuel s
    else if s.current == .kwBreak then keywordStmt s .breakStmt
    else if s.current == .kwContinue then keywordStmt s .continueStmt
    else if s.current.isType then varDeclStmt fuel s
    else exprStmt fuel s
termination_by fuel _ => fuel

/-- `type name [:= expr]`. -/
def varDeclStmt : Nat → Cursor → List BareTree × Cursor
  | 0, s => ([], s)
  | fuel + 1, s =>
    let (decl, s1) := s.varDecl.val
    let ((ok, op), s2) := (s1.eat .colonEq).val
    let (init, s3) := if ok then expression fuel s2 else ([], s2)
    let (nl, s4) := s3.expectNewline.val
    ([.node .varDeclStmt (decl ++ op ++ init ++ nl)], s4)
termination_by fuel _ => fuel

/-- `set target to value`. -/
def setStmt : Nat → Cursor → List BareTree × Cursor
  | 0, s => ([], s)
  | fuel + 1, s =>
    let (kw, s1) := s.bumpAny.val
    let (target, s2) := expression fuel s1
    let ((ok, toKw), s3) := (s2.expect .kwTo).val
    let (value, s4) := if ok then expression fuel s3 else ([], s3)
    let (nl, s5) := s4.expectNewline.val
    ([.node .setStmt (kw ++ target ++ toKw ++ value ++ nl)], s5)
termination_by fuel _ => fuel

/-- `let expr`. -/
def letStmt : Nat → Cursor → List BareTree × Cursor
  | 0, s => ([], s)
  | fuel + 1, s =>
    let (kw, s1) := s.bumpAny.val
    let (e, s2) := expression fuel s1
    let (nl, s3) := s2.expectNewline.val
    ([.node .letStmt (kw ++ e ++ nl)], s3)
termination_by fuel _ => fuel

/-- `if cond ... [elseif ...] [else ...] endif`. -/
def ifStmt : Nat → Cursor → List BareTree × Cursor
  | 0, s => ([], s)
  | fuel + 1, s =>
    let (kw, s1) := s.bumpAny.val
    let (cond, s2) := expression fuel s1
    let (nl, s3) := s2.expectNewline.val
    let (body, s4) := stmtList fuel s3
    let (branch, s5) := elseChain fuel s4
    let ((ok, endif), s6) := (s5.expect .kwEndIf).val
    let (nl2, s7) := if ok then s6.expectNewline.val else ([], s6)
    ([.node .ifStmt (kw ++ cond ++ nl ++ body ++ branch ++ endif ++ nl2)], s7)
termination_by fuel _ => fuel

/-- The `elseif` and `else` branches; each `elseif` owns the rest of the
chain. -/
def elseChain : Nat → Cursor → List BareTree × Cursor
  | 0, s => ([], s)
  | fuel + 1, s =>
    if s.current == .kwElseIf then
      let (kw, s1) := s.bumpAny.val
      let (cond, s2) := expression fuel s1
      let (nl, s3) := s2.expectNewline.val
      let (body, s4) := stmtList fuel s3
      let (next, s5) := elseChain fuel s4
      ([.node .elseIfBranch (kw ++ cond ++ nl ++ body ++ next)], s5)
    else if s.current == .kwElse then
      let (kw, s1) := s.bumpAny.val
      let (nl, s2) := s1.expectNewline.val
      let (body, s3) := stmtList fuel s2
      ([.node .elseBranch (kw ++ nl ++ body)], s3)
    else ([], s)
termination_by fuel _ => fuel

/-- `while cond ... loop`. -/
def whileStmt : Nat → Cursor → List BareTree × Cursor
  | 0, s => ([], s)
  | fuel + 1, s =>
    let (kw, s1) := s.bumpAny.val
    let (cond, s2) := expression fuel s1
    let (nl, s3) := s2.expectNewline.val
    let (body, s4) := stmtList fuel s3
    let ((ok, lp), s5) := (s4.expect .kwLoop).val
    let (nl2, s6) := if ok then s5.expectNewline.val else ([], s5)
    ([.node .whileStmt (kw ++ cond ++ nl ++ body ++ lp ++ nl2)], s6)
termination_by fuel _ => fuel

/-- `foreach var <- expr ... loop`. -/
def foreachStmt : Nat → Cursor → List BareTree × Cursor
  | 0, s => ([], s)
  | fuel + 1, s =>
    let (kw, s1) := s.bumpAny.val
    let (var, s2) := (s1.varOrVarDecl (· == .lArrow)).val
    let ((ok, arrow), s3) := (s2.expect .lArrow).val
    let (iter, s4) := if ok then expression fuel s3 else ([], s3)
    let (nl, s5) := s4.expectNewline.val
    let (body, s6) := stmtList fuel s5
    let ((ok2, lp), s7) := (s6.expect .kwLoop).val
    let (nl2, s8) := if ok2 then s7.expectNewline.val else ([], s7)
    ([.node .foreachStmt (kw ++ var ++ arrow ++ iter ++ nl ++ body ++ lp ++ nl2)], s8)
termination_by fuel _ => fuel

/-- A `begin` block; inside another one it is reported and wrapped in an
error node. -/
def beginOrNested : Nat → Cursor → List BareTree × Cursor
  | 0, s => ([], s)
  | fuel + 1, s =>
    if s.beginDepth == 0 then beginStmt fuel s
    else
      let (blk, s1) := beginStmt fuel (s.report .nestedBegin)
      ([.node .error blk], s1)
termination_by fuel _ => fuel

/-- `begin BlockType [{params} | args] ... end`. -/
def beginStmt : Nat → Cursor → List BareTree × Cursor
  | 0, s => ([], s)
  | fuel + 1, s =>
    let (kw, s1) := s.bumpAny.val
    let (ty, s2) := (s1.name .blockType).val
    let (extra, s3) :=
      if s2.current == .lBrace then s2.paramList.val
      else if s2.current.canStartArgument then bareArgs fuel s2
      else ([], s2)
    let (nl, s4) := s3.expectNewline.val
    let (body, s5) := stmtList fuel { s4 with beginDepth := s4.beginDepth + 1 }
    let ((ok, e), s6) := (({ s5 with beginDepth := s5.beginDepth - 1 } : Cursor).expect .kwEnd).val
    let (nl2, s7) := if ok then s6.expectNewline.val else ([], s6)
    ([.node .beginStmt (kw ++ ty ++ extra ++ nl ++ body ++ e ++ nl2)], s7)
termination_by fuel _ => fuel

/-- `return [expr]`. -/
def returnStmt : Nat → Cursor → List BareTree × Cursor
  | 0, s => ([], s)
  | fuel + 1, s =>
    let (kw, s1) := s.bumpAny.val
    let (e, s2) := if s1.current.canStartExpr then expression fuel s1 else ([], s1)
    let (nl, s3) := s2.expectNewline.val
    ([.node .returnStmt (kw ++ e ++ nl)], s3)
termination_by fuel _ => fuel

/-- An expression used as a statement. -/
def exprStmt : Nat → Cursor → List BareTree × Cursor
  | 0, s => ([], s)
  | fuel + 1, s =>
    let (e, s1) := expression fuel s
    let (nl, s2) := s1.expectNewline.val
    ([.node .exprStmt (e ++ nl)], s2)
termination_by fuel _ => fuel

/-- An expression at the lowest binding power. -/
def expression : Nat → Cursor → List BareTree × Cursor
  | 0, s => ([], s)
  | fuel + 1, s => exprBp fuel s 0
termination_by fuel _ => fuel

/-- An expression whose operators bind at least as tightly as `min`. -/
def exprBp : Nat → Cursor → Nat → List BareTree × Cursor
  | 0, s, _ => ([], s)
  | fuel + 1, s, min =>
    let (lhs?, s1) := unary fuel s true
    match lhs? with
    | none => ([], s1)
    | some lhs =>
      let (e, s2) := infixChain fuel s1 min lhs
      (e, { s2 with nesting := s1.nesting })
termination_by fuel _ _ => fuel

/-- Infix operators after the left operand `lhs`; each one deepens the
nesting of the chain. -/
def infixChain : Nat → Cursor → Nat → List BareTree → List BareTree × Cursor
  | 0, s, _, lhs => (lhs, s)
  | fuel + 1, s, min, lhs =>
    match s.current.infixPower with
    | none => (lhs, s)
    | some (l, r) =>
      if l < min then (lhs, s)
      else if s.tooDeep then
        let (err, s1) := s.expressionTooDeep.val
        (lhs ++ err, s1)
      else
        let (op, s1) := (bumpAny { s with nesting := s.nesting + 1 }).val
        let (rhs, s2) := exprBp fuel s1 r
        infixChain fuel s2 min [.node .binExpr (lhs ++ op ++ rhs)]
termination_by fuel _ _ _ => fuel

/-- A prefix expression; `none` when nothing could start one. With `calls`
unset, identifiers never start a call (bare arguments). -/
def unary : Nat → Cursor → Bool → Option (List BareTree) × Cursor
  | 0, s, _ => (none, s)
  | fuel + 1, s, calls =>
    if s.tooDeep then
      let (err, s1) := s.expressionTooDeep.val
      (some err, s1)
    else
      let (e, s1) := unaryInner fuel { s with nesting := s.nesting + 1 } calls
      (e, { s1 with nesting := s1.nesting - 1 })
termination_by fuel _ _ => fuel

/-- A prefix operator and its operand, or a primary expression with its
member accesses. -/
def unaryInner : Nat → Cursor → Bool → Option (List BareTree) × Cursor
  | 0, s, _ => (none, s)
  | fuel + 1, s, calls =>
    match s.current.prefixPower with
    | some bp =>
      let (op, s1) := s.bumpAny.val
      let (inner, s2) :=
        if calls then exprBp fuel s1 bp
        else
          let (e, s2) := unary fuel s1 false
          (e.getD [], s2)
      (some [.node .unaryExpr (op ++ inner)], s2)
    | none =>
      let (p?, s1) := primary fuel s calls
      match p? with
      | none => (none, s1)
      | some p =>
        let (e, s2) := accessChain fuel s1 p calls
        (some e, { s2 with nesting := s1.nesting })
termination_by fuel _ _ => fuel

/-- Member accesses and indexing after `lhs`, one at a time, nested to the
left; each one deepens the nesting. -/
def accessChain : Nat → Cursor → List BareTree → Bool → List BareTree × Cursor
  | 0, s, lhs, _ => (lhs, s)
  | fuel + 1, s, lhs, calls =>
    let atAccess := s.current == .dot || s.current == .arrow || s.current == .lBracket
    if atAccess && s.tooDeep then
      let (err, s1) := s.expressionTooDeep.val
      (lhs ++ err, s1)
    else if s.current == .dot || s.current == .arrow then
      let (op, s1) := (bumpAny { s with nesting := s.nesting + 1 }).val
      let (m, s2) :=
        if s1.current == .ident then nameRefOrCall fuel s1 calls
        else ([], s1.report .expectedMemberName)
      accessChain fuel s2 [.node .memberExpr (lhs ++ op ++ m)] calls
    else if s.current == .lBracket then
      let (lb, s1) := (bumpAny { s with nesting := s.nesting + 1 }).val
      let (idx, s2) := expression fuel s1
      let ((_, rb), s3) := (s2.expect .rBracket).val
      accessChain fuel s3 [.node .memberExpr (lhs ++ lb ++ idx ++ rb)] calls
    else (lhs, { s with nesting := s.nesting + 1 })
termination_by fuel _ _ _ => fuel

/-- A literal, a name or call, a parenthesized expression or a lambda; an
error node around one token that cannot start an expression, or `none` at
the end of the line or before a closing token. -/
def primary : Nat → Cursor → Bool → Option (List BareTree) × Cursor
  | 0, s, _ => (none, s)
  | fuel + 1, s, calls =>
    if s.current == .ident then
      let (e, s1) := nameRefOrCall fuel s calls
      (some e, s1)
    else if s.current == .lParen then
      if s.second == .kwBegin then
        let (e, s1) := lambda fuel s
        (some e, s1)
      else
        let (lp, s1) := (bumpAny { s with parenDepth := s.parenDepth + 1 }).val
        let (e, s2) := expression fuel s1
        let ((_, rp), s3) := (({ s2 with parenDepth := s2.parenDepth - 1 } : Cursor).expect .rParen).val
        (some [.node .parenExpr (lp ++ e ++ rp)], s3)
    else if s.current.isLiteral then
      let (t, s1) := s.bumpAny.val
      (some [.node .literal t], s1)
    else if s.atLineEnd || s.current.stopsExpression then
      (none, s.report .expectedExpression)
    else
      let (t, s1) := (s.report .expectedExpression).bumpAny.val
      (some [.node .error t], s1)
termination_by fuel _ _ => fuel

/-- A name, or a call when arguments follow or the catalog knows the name
as a function. -/
def nameRefOrCall : Nat → Cursor → Bool → List BareTree × Cursor
  | 0, s, _ => ([], s)
  | fuel + 1, s, calls =>
    let known := s.atKnownFunction
    let (id, s1) := s.bumpAny.val
    let name := [BareTree.node .nameRef id]
    if !calls || !(known || s1.current.canStartArgument) then (name, s1)
    else
      let (args, s2) :=
        if s1.current == .lParen && s1.second != .kwBegin then parenArgs fuel s1
        else argSequence fuel s1 false
      ([.node .funcExpr (name ++ [.node .argList args])], s2)
termination_by fuel _ _ => fuel

/-- `(arg, arg, ...)`, each argument a full expression. -/
def parenArgs : Nat → Cursor → List BareTree × Cursor
  | 0, s => ([], s)
  | fuel + 1, s =>
    let (lp, s1) := (bumpAny { s with parenDepth := s.parenDepth + 1 }).val
    let (items, s2) := parenArgItems fuel s1
    let ((_, rp), s3) := (({ s2 with parenDepth := s2.parenDepth - 1 } : Cursor).expect .rParen).val
    (lp ++ items ++ rp, s3)
termination_by fuel _ => fuel

/-- The arguments inside call parentheses, up to `)` or the end of the
line. -/
def parenArgItems : Nat → Cursor → List BareTree × Cursor
  | 0, s => ([], s)
  | fuel + 1, s =>
    if s.current == .rParen || s.atLineEnd then ([], s) else
    let (item, s1) :=
      if s.current.canStartExpr then expression fuel s
      else (s.recover .expectedArgument (· == .rParen)).val
    let ((_, c), s2) := (s1.eat .comma).val
    let (more, s3) := parenArgItems fuel s2
    (item ++ c ++ more, s3)
termination_by fuel _ => fuel

/-- Bare arguments of a `begin` line, as an argument list. -/
def bareArgs : Nat → Cursor → List BareTree × Cursor
  | 0, s => ([], s)
  | fuel + 1, s =>
    let (args, s1) := argSequence fuel s false
    ([.node .argList args], s1)
termination_by fuel _ => fuel

/-- Arguments separated by blanks or commas, each at prefix level; after a
comma anything that starts an expression is an argument. -/
def argSequence : Nat → Cursor → Bool → List BareTree × Cursor
  | 0, s, _ => ([], s)
  | fuel + 1, s, afterComma =>
    if s.current.canStartArgument || (afterComma && s.current.canStartExpr) then
      let (a, s1) := unary fuel s false
      let ((comma, c), s2) := (s1.eat .comma).val
      let (more, s3) := argSequence fuel s2 comma
      (a.getD [] ++ c ++ more, s3)
    else ([], s)
termination_by fuel _ _ => fuel

/-- `(begin BlockType [{params}] ... end)`. Line breaks inside are
statement ends again, whatever parentheses are open around it. -/
def lambda : Nat → Cursor → List BareTree × Cursor
  | 0, s => ([], s)
  | fuel + 1, s =>
    let (lp, s1) := (bumpAny { s with parenDepth := 0 }).val
    let (kw, s2) := s1.bumpAny.val
    let (ty, s3) := (s2.name .blockType).val
    let (params, s4) := if s3.current == .lBrace then s3.paramList.val else ([], s3)
    let (nl, s5) := s4.expectNewline.val
    let (body, s6) := stmtList fuel { s5 with beginDepth := s5.beginDepth + 1 }
    let ((_, e), s7) := (({ s6 with beginDepth := s6.beginDepth - 1 } : Cursor).expect .kwEnd).val
    let ((_, rp), s8) := (({ s7 with parenDepth := s.parenDepth } : Cursor).expect .rParen).val
    ([.node .lambdaExpr (lp ++ kw ++ ty ++ params ++ nl ++ body ++ e ++ rp)], s8)
termination_by fuel _ => fuel

end

/-- Fuel that no parse of `tokens` significant tokens runs out of: 32 calls
per token, and one more round. -/
def fuelFor (tokens : Nat) : Nat := 32 * (tokens + 2)

end Grammar

end GameScript
