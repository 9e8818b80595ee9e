import GameScript.Project.Globals
import GameScript.Project.Diagnostic
import GameScript.Resolved.Lower
import GameScript.Syntax.Parse
import GameScript.Syntax.Locate
/-!
# The file database

The open files, each parsed (with the catalog's functions as hints) and
lowered whenever its text is set; the owner of each script name; and the
global names.

Setting a file's text first withdraws what its old text registered, then
registers what the new text declares and uses. A script name belongs to the
first file that declared it while no other file held it. When the owner
closes or renames its script, the name passes to the open file of least id
that declares it; an edit that keeps the name keeps it with its owner.
-/

namespace GameScript

/-- One open file. -/
structure SourceFile where
  key : SourceKey
  text : String
  parse : ParseResult
  /-- The located tokens of the tree, for lookups by offset. -/
  index : TokenIndex
  /-- The lowered script, none when the script has no name. -/
  script : Option Resolved.Script

/-- The name the file's script declares. -/
def SourceFile.scriptName? (f : SourceFile) : Option String := f.script.map (·.name)

/-- Open files, script-name owners and global names. -/
structure Database where
  catalog : Catalog
  registry : Registry := {}
  /-- The open files, by ascending id. -/
  files : List (FileId × SourceFile) := []
  /-- The owner of each folded script name. -/
  scriptNames : NameTable FileId := []
  globals : GlobalTable

namespace Database

/-- An empty database over a catalog. -/
def ofCatalog (c : Catalog) : Database := { catalog := c, globals := GlobalTable.ofCatalog c }

/-- The open file of an id. -/
def file? (db : Database) (id : FileId) : Option SourceFile := (db.files.find? (·.1 == id)).map (·.2)

/-- The id of an open key. -/
def fileId? (db : Database) (key : SourceKey) : Option FileId := db.registry.idOf? key

/-- The file that owns a script name, in any casing. -/
def scriptFile? (db : Database) (name : String) : Option FileId := db.scriptNames.get? name

/-- Puts a file in place, keeping ids ascending. -/
def putFile (db : Database) (id : FileId) (f : SourceFile) : Database :=
  let others := db.files.filter (·.1 != id)
  { db with files := others.filter (·.1 < id) ++ [(id, f)] ++ others.filter (·.1 > id) }

/-- Gives `name` to `file` unless another file owns it; the owner also
becomes the name's global entry when the catalog and other scripts allow. -/
def registerScript (db : Database) (name : String) (file : FileId) : Database :=
  let (db, owner) := match db.scriptNames.get? name with
    | some o => (db, o)
    | none => ({ db with scriptNames := db.scriptNames.insert name file }, file)
  if owner == file then { db with globals := (db.globals.defineScript name file).1 } else db

/-- Withdraws what the file's current text registered. With `handOver`, an
owned script name passes to the next file declaring it. -/
def unregister (db : Database) (file : FileId) (handOver : Bool) : Database :=
  let db := { db with globals := db.globals.retractFile file }
  match (db.file? file).bind SourceFile.scriptName? with
  | none => db
  | some name =>
    if db.scriptNames.get? name != some file then db else
    let key := Text.foldCase name
    let db := { db with scriptNames := db.scriptNames.filter (·.1 != key) }
    if !handOver then db else
    let successor := db.files.find? fun (id, f) =>
      id != file && (f.scriptName?.map Text.foldCase) == some key
    match successor with
    | some (id, f) =>
      match f.scriptName? with
      | some display => db.registerScript display id
      | none => db
    | none => db

/-- Sets the text of a file under a key: parses, lowers, and brings the
registrations up to date. -/
def load (db : Database) (file : FileId) (key : SourceKey) (text : String) : Database :=
  let parse := parseScript text db.catalog.isFunction
  let lowered := Resolved.lower parse.root
  let script := lowered.map (·.script)
  let external := (lowered.map (·.externalNames)).getD []
  let renamed := match (db.file? file).bind SourceFile.scriptName?, script.map (·.name) with
    | some old, some new => Text.foldCase old != Text.foldCase new
    | _, _ => true
  let db := db.unregister file renamed
  let db := match script with
    | some s => db.registerScript s.name file
    | none => db
  let db := { db with globals := external.foldl (fun g n => g.addReference n file) db.globals }
  db.putFile file { key, text, parse, index := TokenIndex.ofTree parse.root, script }

/-- Opens a file, or sets its text if its key is open. -/
def openFile (db : Database) (key : SourceKey) (text : String) : Database × FileId :=
  let (registry, id) := db.registry.ensure key
  ({ db with registry }.load id key text, id)

/-- Sets the text of an open file; false if it is not open. -/
def change (db : Database) (file : FileId) (text : String) : Database × Bool :=
  match db.file? file with
  | some f => (db.load file f.key text, true)
  | none => (db, false)

/-- Closes a file and withdraws its registrations; false if it is not open. -/
def close (db : Database) (file : FileId) : Database × Bool :=
  match db.file? file with
  | some f =>
    let db := db.unregister file true
    ({ db with files := db.files.filter (·.1 != file), registry := (db.registry.remove f.key).1 }, true)
  | none => (db, false)

/-- The diagnostics of a file: its syntax problems, then a script name owned
by another file. -/
def diagnostics (db : Database) (file : FileId) : List Diagnostic :=
  match db.file? file with
  | none => []
  | some f =>
    let fromSyntax := f.parse.errors.map Diagnostic.ofSyntaxError
    let duplicate := match f.script with
      | none => []
      | some s =>
        match db.scriptFile? s.name with
        | some owner =>
          if owner == file then [] else
          let related := match db.file? owner with
            | some first =>
              match first.script with
              | some fs => [{ span := fs.nameSpan, message := "first declared in " ++ first.key.display }]
              | none => []
            | none => []
          [{ code := .duplicateScriptName, span := s.nameSpan,
             message := "script name '" ++ s.name ++ "' is already used by another file", related }]
        | none => []
    fromSyntax ++ duplicate

end Database

end GameScript
