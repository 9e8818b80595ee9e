import GameScript.Catalog.Basic
import GameScript.Project.SourceKey
/-!
# Global names

The names visible across all open scripts, each with the set of files that
use it. Catalog functions and forms are there from the start and stay. A
script's name is there while its file is open, and after that while some
file still uses it. A name that nothing declares is there exactly while
some file uses it.

A form and a function of one name: the function wins.
-/

namespace GameScript

/-- What a global name stands for. -/
inductive GlobalKind where
  | variable
  | function
  | script
  deriving DecidableEq, Repr, Inhabited

/-- The kind's name. -/
def GlobalKind.word : GlobalKind → String
  | .variable => "variable"
  | .function => "function"
  | .script => "script"

/-- Where a global name comes from. -/
inductive GlobalOrigin where
  /-- A catalog function. -/
  | builtin
  /-- A catalog form. -/
  | form
  /-- The name of the script in an open file. -/
  | script (owner : FileId)
  /-- Used, but declared nowhere known. -/
  | implicit
  deriving DecidableEq, Repr, Inhabited

/-- One global name. -/
structure GlobalEntry where
  /-- The name as first seen. -/
  name : String
  kind : GlobalKind
  type : ValueType
  origin : GlobalOrigin
  /-- The files that use the name, in ascending order. -/
  users : List FileId := []
  deriving DecidableEq, Repr, Inhabited

/-- Global names under their folded names. -/
abbrev GlobalTable := NameTable GlobalEntry

namespace GlobalTable

/-- The catalog's functions and forms. -/
def ofCatalog (c : Catalog) : GlobalTable :=
  let forms := c.forms.values.foldl (fun (t : GlobalTable) f =>
    t.insert f.name { name := f.name, kind := .variable, type := f.type, origin := .form }) []
  c.functions.values.foldl (fun t f =>
    t.insert f.name { name := f.name, kind := .function, type := f.returnType, origin := .builtin }) forms

/-- Makes `name` the script of `file`. Refused (and nothing changes) when the
name belongs to the catalog or to another script; a name only used so far
becomes the script's. -/
def defineScript (t : GlobalTable) (name : String) (file : FileId) : GlobalTable × Bool :=
  match t.get? name with
  | some e =>
    match e.origin with
    | .implicit =>
      (t.insert name { e with name, kind := .script, type := .reference, origin := .script file }, true)
    | .script owner => (t, owner == file)
    | _ => (t, false)
  | none => (t.insert name { name, kind := .script, type := .reference, origin := .script file }, true)

/-- Inserts a file into an ascending list of files. -/
def addFile (fs : List FileId) (f : FileId) : List FileId :=
  if fs.contains f then fs else (fs.filter (· < f)) ++ [f] ++ (fs.filter (· > f))

/-- Notes that `file` uses `name`; a name not known yet enters as used only. -/
def addReference (t : GlobalTable) (name : String) (file : FileId) : GlobalTable :=
  match t.get? name with
  | some e => t.insert name { e with users := addFile e.users file }
  | none => t.insert name { name, kind := .variable, type := .ambiguous, origin := .implicit, users := [file] }

/-- Drops every use by `file` and the names nothing keeps any more; the
script of `file`, if still used, stays as a name only used. -/
def retractFile (t : GlobalTable) (file : FileId) : GlobalTable :=
  t.filterMap fun (k, e) =>
    let e := { e with users := e.users.filter (· != file) }
    let used := !e.users.isEmpty
    match e.origin with
    | .builtin | .form => some (k, e)
    | .implicit => if used then some (k, e) else none
    | .script owner =>
      if owner == file then
        if used then some (k, { e with kind := .variable, type := .ambiguous, origin := .implicit })
        else none
      else some (k, e)

/-- The entries sorted by folded name. -/
def sorted (t : GlobalTable) : List GlobalEntry :=
  (t.mergeSort fun a b => decide (a.1 ≤ b.1)).map (·.2)

end GlobalTable

end GameScript
