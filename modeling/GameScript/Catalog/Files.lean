import GameScript.Catalog.Basic
import GameScript.Json.Reader
import GameScript.Json.Pretty
/-!
# Catalog files

A catalog is stored as two JSON texts. The functions file is an array of
records `\x7b"name", "kind", "returnType", "origin"\x7d`, of which only the
name is required (the kind defaults to `function`, the type to `unknown`, the
origin to empty). The globals file is an object from form names to records
`\x7b"type", "origin"\x7d`, both optional. Names are trimmed of white space and
must not be empty then.

Loading reads the whole functions file before it checks any name, then the
globals file likewise, so the first problem in that order is the one
reported. Saving writes both files back in load order; loading what was
saved gives the same catalog.
-/

namespace GameScript

/-- Why a catalog could not be loaded. -/
inductive CatalogError where
  /-- The functions file is not a valid array of function records. -/
  | functions (e : Json.Error)
  /-- The globals file is not a valid object of form records. -/
  | globals (e : Json.Error)
  /-- A name is empty once trimmed. -/
  | emptyName
  deriving Inhabited

namespace CatalogError

/-- The error's text. -/
def message : CatalogError → String
  | functions e => "invalid functions catalog: " ++ e.message
  | globals e => "invalid globals catalog: " ++ e.message
  | emptyName => "catalog entry with an empty name"

/-- The error's kind, as named to clients. -/
def kindName : CatalogError → String
  | functions _ => "CatalogError::Functions"
  | globals _ => "CatalogError::Globals"
  | emptyName => "CatalogError::EmptyName"

end CatalogError

namespace Catalog

/-- A function record as written in the functions file. -/
structure FunctionRecord where
  name : String := ""
  kind : FunctionKind := .function
  returnType : ValueType := .unknown
  origin : String := ""
  deriving Inhabited

/-- A form record as written in the globals file. -/
structure FormRecord where
  type : ValueType := .unknown
  origin : String := ""
  deriving Inhabited

/-- The names of the value types, as written in files. -/
def typeNames : List String := ValueType.all.map ValueType.name

/-- Reads a value type by its name. -/
def readType : Json.Decoder ValueType := fun fuel => do
  let k ← Json.readVariant typeNames fuel
  return (ValueType.all[k]?).getD .unknown

/-- Reads a function kind by its word. -/
def readKind : Json.Decoder FunctionKind := fun fuel => do
  let k ← Json.readVariant ["function", "command"] fuel
  return if k == 1 then .command else .function

/-- How a function record is read. -/
def functionRecord : Json.Record FunctionRecord where
  name := "FunctionRecord"
  fields := ["name", "kind", "returnType", "origin"]
  required := fun f => f == "name"
  defaults := {}
  readField := fun i r fuel =>
    match i with
    | 0 => return { r with name := ← Json.readString fuel }
    | 1 => return { r with kind := ← readKind fuel }
    | 2 => return { r with returnType := ← readType fuel }
    | _ => return { r with origin := ← Json.readString fuel }

/-- How a form record is read. -/
def formRecord : Json.Record FormRecord where
  name := "FormRecord"
  fields := ["type", "origin"]
  required := fun _ => false
  defaults := {}
  readField := fun i r fuel =>
    match i with
    | 0 => return { r with type := ← readType fuel }
    | _ => return { r with origin := ← Json.readString fuel }

/-- A name trimmed of white space, refused if nothing is left. -/
def checkedName (name : String) : Except CatalogError String :=
  let n := Text.trimWhiteSpace name
  if n.isEmpty then .error .emptyName else .ok n

/-- The catalog with the functions of a functions file added: a name loaded
before is replaced in place. -/
def withFunctions (c : Catalog) (json : String) : Except CatalogError Catalog := do
  let records ← (Json.readArray (Json.readRecord functionRecord)).run json |>.mapError .functions
  records.foldlM (fun c r => do
    let name ← checkedName r.name
    return c.addFunction { name, kind := r.kind, returnType := r.returnType, origin := r.origin }) c

/-- Loads a catalog from its functions file and its globals file. -/
def ofJson (functions globals : String) : Except CatalogError Catalog := do
  let c ← empty.withFunctions functions
  let records ← (Json.readObject (Json.readRecord formRecord)).run globals |>.mapError .globals
  records.foldlM (fun c (name, r) => do
    let name ← checkedName name
    return c.addForm { name, type := r.type, origin := r.origin }) c

/-- The functions file of a catalog. -/
def functionsJson (c : Catalog) : String :=
  (Json.Value.array (c.functions.map fun (_, e) =>
    .object [("name", .string e.name), ("kind", .string e.kind.word),
      ("returnType", .string e.returnType.name), ("origin", .string e.origin)])).render

/-- The globals file of a catalog. -/
def globalsJson (c : Catalog) : String :=
  (Json.Value.object (c.forms.map fun (_, e) =>
    (e.name, .object [("type", .string e.type.name), ("origin", .string e.origin)]))).render

/-- Both files of a catalog. -/
def toJson (c : Catalog) : String × String := (c.functionsJson, c.globalsJson)

/-- Whether loading the saved files gives back the same catalog. -/
def reloadsEqual (c : Catalog) : Bool :=
  match ofJson c.functionsJson c.globalsJson with
  | .ok d => d.sameAs c
  | .error _ => false

end Catalog

end GameScript
