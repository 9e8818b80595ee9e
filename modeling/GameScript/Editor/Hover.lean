import GameScript.Editor.Definition
/-!
# Hover texts

A local shows its declaration as written: its type keyword and its name. A
global shows what the catalog or the declaring script knows: a function's
kind, name, return type and origin; a form's type, name and origin; a
script's name and the file that declares it; a name declared nowhere says
so. The first part of each text is a code block.
-/

namespace GameScript

namespace Editor

/-- Text in a code block of the scripting language. -/
def codeBlock (code : String) : String := "```obscript\n" ++ code ++ "\n```"

/-- Adds the origin line when there is an origin. -/
def withOrigin (text origin : String) : String :=
  if origin.isEmpty then text else text ++ "\n\nFrom " ++ origin

/-- What is shown for a global name. -/
def globalHover (db : Database) (e : GlobalEntry) : String :=
  match e.origin with
  | .builtin =>
    match db.catalog.function? e.name with
    | none => codeBlock ("function " ++ e.name)
    | some f =>
      withOrigin (codeBlock (f.kind.word ++ " " ++ f.name) ++ "\n\nReturns `" ++ f.returnType.name ++ "`")
        f.origin
  | .form =>
    match db.catalog.form? e.name with
    | none => codeBlock ("form " ++ e.name)
    | some f => withOrigin (codeBlock (f.type.name ++ " " ++ f.name)) f.origin
  | .script owner =>
    let text := codeBlock ("scriptname " ++ e.name)
    match db.file? owner with
    | some f => text ++ "\n\nDeclared in `" ++ f.key.display ++ "`"
    | none => text
  | .implicit => codeBlock e.name ++ "\n\nNot declared in any open script"

/-- The hover text at an offset and the range of the name it is about. -/
def hover? (db : Database) (file : FileId) (offset : Nat) : Option (String × Span) := do
  let ((t, _), d) ← definitionAt? db file offset
  let contents ← match d with
    | .localSymbol dfile _ symbol => do
      let f ← db.file? dfile
      let s ← f.script
      let sym ← s.scopes.symbol? symbol
      let typeText := ((f.parse.root.find? sym.decl).bind fun decl =>
        (decl.childTokens.find? (·.kind.isType)).map (·.text)).getD sym.type.name
      some (codeBlock (typeText ++ " " ++ sym.name))
    | .globalName e => some (globalHover db e)
  return (contents, ⟨t.start, t.stop⟩)

end Editor

end GameScript
