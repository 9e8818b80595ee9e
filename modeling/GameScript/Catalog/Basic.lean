import GameScript.ValueType
import GameScript.Text.NameTable
/-!
# The builtin catalog

The engine's functions and named forms that a script may use without
declaring them. Names compare without regard to ASCII case: each entry is
kept under its folded name, and entries keep the order in which their names
were first loaded. Loading a name again replaces its entry in place.
-/

namespace GameScript

/-- Whether a callable returns a value or is run for its effect. -/
inductive FunctionKind where
  | function
  | command
  deriving DecidableEq, Repr, Inhabited

/-- The word a kind is written as. -/
def FunctionKind.word : FunctionKind → String
  | .function => "function"
  | .command => "command"

/-- A builtin function. -/
structure FunctionEntry where
  /-- The name in its own casing. -/
  name : String
  kind : FunctionKind
  returnType : ValueType
  /-- The plugin or master file that provides it. -/
  origin : String
  deriving DecidableEq, Repr, Inhabited

/-- A named form, such as a quest or a persistent reference. -/
structure FormEntry where
  name : String
  type : ValueType
  origin : String
  deriving DecidableEq, Repr, Inhabited

/-- Functions and forms known without a script. -/
structure Catalog where
  functions : NameTable FunctionEntry := []
  forms : NameTable FormEntry := []
  deriving Inhabited

namespace Catalog

/-- The catalog with nothing in it. -/
def empty : Catalog := {}

/-- The function of a name, in any casing. -/
def function? (c : Catalog) (name : String) : Option FunctionEntry :=
  c.functions.get? name

/-- The form of a name, in any casing. -/
def form? (c : Catalog) (name : String) : Option FormEntry :=
  c.forms.get? name

/-- Whether a name is a known function: the parser then reads it as a call
even without arguments. -/
def isFunction (c : Catalog) (name : String) : Bool := (c.function? name).isSome

/-- Adds or replaces a function. -/
def addFunction (c : Catalog) (e : FunctionEntry) : Catalog :=
  { c with functions := c.functions.insert e.name e }

/-- Adds or replaces a form. -/
def addForm (c : Catalog) (e : FormEntry) : Catalog :=
  { c with forms := c.forms.insert e.name e }

/-- Whether two catalogs hold the same entries under the same names. -/
def sameAs (c d : Catalog) : Bool :=
  c.functions.sameAs d.functions && c.forms.sameAs d.forms

end Catalog

end GameScript
