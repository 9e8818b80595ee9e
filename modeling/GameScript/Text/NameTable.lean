import GameScript.Text.WhiteSpace
/-!
# Tables of names

Script names compare without regard to ASCII case. A name table keeps its
entries under folded names, in the order in which each name was first
entered; entering a name again replaces its value and keeps its place.
-/

namespace GameScript

/-- Values under folded names, in first-entry order, each folded name once. -/
abbrev NameTable (α : Type) := List (String × α)

namespace NameTable

/-- The value under a name, in any casing. -/
def get? (t : NameTable α) (name : String) : Option α :=
  let key := Text.foldCase name
  (t.find? (·.1 == key)).map (·.2)

/-- Puts `v` under `name`: in the place of an entry already there, else last. -/
def insert (t : NameTable α) (name : String) (v : α) : NameTable α :=
  let key := Text.foldCase name
  if t.any (·.1 == key) then t.map fun (k, w) => if k == key then (k, v) else (k, w)
  else t ++ [(key, v)]

/-- The values, in table order. -/
def values (t : NameTable α) : List α := t.map (·.2)

/-- Whether two tables hold the same entries, whatever their order. -/
def sameAs [BEq α] (t u : NameTable α) : Bool :=
  t.length == u.length && t.all fun (k, v) => (u.find? (·.1 == k)).map (·.2) == some v

end NameTable

end GameScript
