import GameScript.Editor.Definition
import GameScript.Text.Edit
/-!
# Declarations, references and renaming

A local symbol is declared at its name in its declaration; a script name at
the name after `scriptname` in the file that owns it. Catalog entries and
names declared nowhere have no declaration.

The references to a local symbol are in its file; those to a global name in
every open file. They come by file and then by position, each marked as a
write when it is the target of `set ... to` or the left side of an
assignment operator.

Renaming refuses a position without a name, a new name that is not one
identifier, a catalog entry, and a new name already visible at one of the
references (for a local) or already a global name (for a global).
-/

namespace GameScript

namespace Editor

/-- Where a definition's name is declared: a file and a range. -/
def declarationOf? (db : Database) (d : Definition) : Option (FileId × Span) :=
  match d with
  | .localSymbol file _ symbol => do
    let s ← (← db.file? file).script
    let sym ← s.scopes.symbol? symbol
    return (file, sym.nameSpan)
  | .globalName e =>
    match e.origin with
    | .script owner => do
      let s ← (← db.file? owner).script
      return (owner, s.nameSpan)
    | _ => none

/-- The declaration of the name at an offset. -/
def gotoDefinition? (db : Database) (file : FileId) (offset : Nat) : Option (FileId × Span) := do
  let (_, d) ← definitionAt? db file offset
  declarationOf? db d

/-- A use of a name. -/
structure Reference where
  file : FileId
  span : Span
  /-- Whether the use assigns to the name. -/
  isWrite : Bool
  deriving DecidableEq, Repr, Inhabited

/-- Whether an identifier is assigned to: the target of `set ... to`, or the
left side of an assignment operator. -/
def isWriteAccess (tok : Token × List SyntaxTree) : Bool :=
  match tok.2 with
  | nameRef :: parent :: _ =>
    nameRef.isNode .nameRef &&
      (if parent.isNode .setStmt then
        ((parent.childBefore? (parent.tokenOf? .kwTo) NodeKind.isExpr).map (·.ref)) == some nameRef.ref
      else if parent.isNode .binExpr then
        match parent.significantWith? TokenKind.isOperator with
        | some op =>
          ((BinaryOp.ofToken? op.kind).map BinaryOp.isAssignment).getD false &&
            ((parent.childBefore? (some op) NodeKind.isExpr).map (·.ref)) == some nameRef.ref
        | none => false
      else false)
  | _ => false

/-- All references to a definition, by file and position; the declaration
only when asked for. -/
def referencesTo (db : Database) (d : Definition) (withDeclaration : Bool) : List Reference :=
  let files := match d with
    | .localSymbol file _ _ => [file]
    | .globalName _ => db.files.map (fun (p : FileId × SourceFile) => p.1)
  let decl := declarationOf? db d
  files.flatMap fun file =>
    match db.file? file with
    | none => []
    | some f =>
      (findReferences db file d).filterMap fun span =>
        if decl == some (file, span) && !withDeclaration then none
        else
          let isWrite := ((f.index.tokenContaining span.start).map isWriteAccess).getD false
          some { file, span, isWrite }

/-- The references to the name at an offset. -/
def references (db : Database) (file : FileId) (offset : Nat) (withDeclaration : Bool) : List Reference :=
  match definitionAt? db file offset with
  | some (_, d) => referencesTo db d withDeclaration
  | none => []

/-- Why a rename is refused. -/
inductive RenameError where
  | noTarget
  | invalidName (name : String)
  | builtin (name : String)
  | conflict (name : String)
  deriving DecidableEq, Repr, Inhabited

namespace RenameError

/-- The error's text. -/
def message : RenameError → String
  | noTarget => "no renameable name at this position"
  | invalidName n => "'" ++ n ++ "' is not a valid identifier"
  | builtin n => "'" ++ n ++ "' is defined by the builtin catalog"
  | conflict n => "'" ++ n ++ "' is already defined"

/-- The error's kind, as named to clients. -/
def kindName : RenameError → String
  | noTarget => "RenameError::NoTarget"
  | invalidName _ => "RenameError::InvalidName"
  | builtin _ => "RenameError::Builtin"
  | conflict _ => "RenameError::Conflict"

end RenameError

/-- Catalog entries cannot be renamed. -/
def checkRenameable (d : Definition) : Except RenameError Unit :=
  match d with
  | .globalName e =>
    match e.origin with
    | .builtin | .form => .error (.builtin e.name)
    | _ => .ok ()
  | _ => .ok ()

/-- The range of the name at an offset, if it can be renamed. -/
def prepareRename? (db : Database) (file : FileId) (offset : Nat) : Option Span := do
  let ((t, _), d) ← definitionAt? db file offset
  match checkRenameable d with
  | .ok () => some ⟨t.start, t.stop⟩
  | .error _ => none

/-- Whether `newName` resolves, at the reference in `span`, to a local other
than `symbol`. -/
def capturedAt (db : Database) (file : FileId) (span : Span) (symbol : SymbolId) (newName : String) : Bool :=
  (do
    let idx ← index? db file
    let tok ← idx.tokenContaining span.start
    let scopeNode ← (Located.ofToken tok).scopeNode?
    let (s, scope) ← scopeOf? db file scopeNode.elem
    let (_, found) ← s.scopes.resolve scope newName
    return found != symbol).getD false

/-- The edits that rename the name at an offset, by file in ascending order. -/
def rename (db : Database) (file : FileId) (offset : Nat) (newName : String) :
    Except RenameError (List (FileId × List TextEdit)) := do
  let (_, d) ← match definitionAt? db file offset with
    | some x => pure x
    | none => throw .noTarget
  if !isIdentifier newName then throw (.invalidName newName)
  checkRenameable d
  let refs := referencesTo db d true
  match d with
  | .localSymbol _ _ symbol =>
    if refs.any fun r => capturedAt db r.file r.span symbol newName then throw (.conflict newName)
  | .globalName e =>
    if Text.foldCase e.name != Text.foldCase newName && (db.globals.get? newName).isSome then
      throw (.conflict newName)
  let files := (refs.map (·.file)).eraseDups.mergeSort (· ≤ ·)
  return files.map fun f => (f, (refs.filter (·.file == f)).map fun r => ⟨r.span, newName⟩)

end Editor

end GameScript
