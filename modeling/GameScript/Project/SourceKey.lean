/-!
# Source keys and file ids

A file is known by its key: a path, or the name of an editor buffer. A
`file://` address becomes a path, normalised by its text alone: `.` parts
are dropped and `..` removes the part before it (nothing above the root).

Open keys get ids counting up from zero, so a key closed and opened again
gets a new one. Ids are 32-bit numbers and the counter saturates: once it
reaches `FileId.last` it stays there, and every later new key gets that id.
The registry keeps the id of each key and the key of each id.
-/

namespace GameScript

/-- An open file, by its number, a 32-bit unsigned number. -/
abbrev FileId := Nat

/-- The largest id; the counter of new ids stops there. -/
def FileId.last : FileId := 4294967295

/-- The id given for a key that is not open: the largest one, which a file
gets only once every smaller id has been handed out. -/
def FileId.none : FileId := FileId.last

/-- The counter after it hands out `id`: one more, but never past
`FileId.last` (a saturating increment). -/
def FileId.following (id : FileId) : FileId := min (id + 1) FileId.last

/-- How a source file is known. -/
inductive SourceKey where
  /-- A file on disk, by its normalised path. -/
  | path (p : String)
  /-- An editor buffer or another address. -/
  | buffer (name : String)
  deriving DecidableEq, Repr, Inhabited

namespace SourceKey

/-- A path with its `.` parts dropped and each `..` part removing the part
before it. -/
def normalizePath (p : String) : String :=
  let absolute := p.startsWith "/"
  let parts := (p.splitOn "/").foldl (fun (acc : List String) part =>
    if part == "" || part == "." then acc
    else if part == ".." then acc.drop 1
    else part :: acc) []
  let body := "/".intercalate parts.reverse
  if absolute then "/" ++ body else body

/-- The key of an address: a `file://` address names a path. -/
def ofUri (uri : String) : SourceKey :=
  if uri.startsWith "file://" then .path (normalizePath (String.ofList (uri.toList.drop 7)))
  else .buffer uri

/-- The key as shown to users. -/
def display : SourceKey → String
  | .path p => p
  | .buffer n => n

end SourceKey

/-- The ids of the open keys, the table back from ids to keys, and the
counter of new ids. -/
structure Registry where
  /-- The id the next new key gets. -/
  nextId : FileId := 0
  /-- The id of each open key. -/
  ids : List (SourceKey × FileId) := []
  /-- The key of each id that an open key holds. -/
  keys : List (FileId × SourceKey) := []
  deriving Inhabited

namespace Registry

/-- The id of an open key. -/
def idOf? (r : Registry) (key : SourceKey) : Option FileId :=
  (r.ids.find? (·.1 == key)).map (·.2)

/-- The key that holds an id. -/
def keyOf? (r : Registry) (id : FileId) : Option SourceKey :=
  (r.keys.find? (·.1 == id)).map (·.2)

/-- The id of a key, given a new one if it has none: the counter's value,
entered in both tables (replacing an entry of that id), after which the
counter moves on. -/
def ensure (r : Registry) (key : SourceKey) : Registry × FileId :=
  match r.idOf? key with
  | some id => (r, id)
  | none =>
    let id := r.nextId
    ({ nextId := FileId.following id, ids := r.ids ++ [(key, id)],
       keys := r.keys.filter (·.1 != id) ++ [(id, key)] }, id)

/-- Forgets a key and gives back its id; the entry of that id goes too.
Nothing changes for a key that is not open. -/
def remove (r : Registry) (key : SourceKey) : Registry × Option FileId :=
  match r.idOf? key with
  | none => (r, none)
  | some id =>
    ({ r with ids := r.ids.filter (·.1 != key), keys := r.keys.filter (·.1 != id) }, some id)

end Registry

end GameScript
