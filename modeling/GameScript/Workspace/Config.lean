import GameScript.Json.Reader
/-!
# Workspace configuration

Settings come from a JSON object such as
`\x7b "keywordStyle": "capitalized", "indentWidth": 2, "insertSpaces": true \x7d`.
Missing keys keep their defaults (lower-case keywords, four columns, spaces),
unknown keys are ignored, and an indent width of zero is refused.
-/

namespace GameScript

/-- How the formatter cases keywords and type names. -/
inductive KeywordStyle where
  /-- `begin`, `endif`, `string_var`. -/
  | lower
  /-- `BEGIN`, `ENDIF`, `STRING_VAR`. -/
  | upper
  /-- `Begin`, `EndIf`, as the editor of the game writes them. -/
  | capitalized
  /-- Keywords stay as written. -/
  | preserve
  deriving DecidableEq, Repr, Inhabited

namespace KeywordStyle

/-- Every style, in the order of their names. -/
def all : List KeywordStyle := [lower, upper, capitalized, preserve]

/-- The style's name. -/
def name : KeywordStyle → String
  | lower => "lower"
  | upper => "upper"
  | capitalized => "capitalized"
  | preserve => "preserve"

/-- A word with an initial capital and the rest in lower case, except the
keywords with a capital inside. -/
def capitalize (word : String) : String :=
  let low := String.map Char.toLower word
  match low with
  | "scriptname" => "ScriptName"
  | "elseif" => "ElseIf"
  | "endif" => "EndIf"
  | "foreach" => "ForEach"
  | "string_var" => "String_Var"
  | "array_var" => "Array_Var"
  | _ =>
    match low.toList with
    | [] => ""
    | c :: cs => String.ofList (c.toUpper :: cs)

/-- A keyword's text in this style. -/
def apply (style : KeywordStyle) (word : String) : String :=
  match style with
  | lower => String.map Char.toLower word
  | upper => String.map Char.toUpper word
  | capitalized => capitalize word
  | preserve => word

end KeywordStyle

/-- Why a configuration was refused. -/
inductive ConfigError where
  /-- The text is not JSON or has the wrong shape. -/
  | json (e : Json.Error)
  /-- `indentWidth` is zero. -/
  | zeroIndentWidth
  deriving Inhabited

namespace ConfigError

/-- The error's text. -/
def message : ConfigError → String
  | json e => "invalid workspace configuration: " ++ e.message
  | zeroIndentWidth => "indentWidth must be at least 1"

/-- The error's kind, as named to clients. -/
def kindName : ConfigError → String
  | json _ => "ConfigError::Json"
  | zeroIndentWidth => "ConfigError::ZeroIndentWidth"

end ConfigError

/-- Settings that shape the editor features. -/
structure WorkspaceConfig where
  keywordStyle : KeywordStyle := .lower
  /-- Columns per level of indentation. -/
  indentWidth : Nat := 4
  /-- Indent with spaces rather than a tab. -/
  insertSpaces : Bool := true
  deriving DecidableEq, Repr, Inhabited

namespace WorkspaceConfig

/-- How a configuration is read. -/
def record : Json.Record WorkspaceConfig where
  name := "WorkspaceConfig"
  fields := ["keywordStyle", "indentWidth", "insertSpaces"]
  required := fun _ => false
  defaults := {}
  readField := fun i c fuel =>
    match i with
    | 0 => do
      let k ← Json.readVariant (KeywordStyle.all.map KeywordStyle.name) fuel
      return { c with keywordStyle := (KeywordStyle.all[k]?).getD .lower }
    | 1 => return { c with indentWidth := ← Json.readU32 fuel }
    | _ => return { c with insertSpaces := ← Json.readBool fuel }

/-- Reads a configuration. -/
def ofJson (json : String) : Except ConfigError WorkspaceConfig := do
  let c ← (Json.readRecord record).run json |>.mapError .json
  if c.indentWidth == 0 then throw .zeroIndentWidth
  return c

/-- Reads a configuration, taking the defaults if it is refused. -/
def loadOrDefault (json : String) : WorkspaceConfig :=
  match ofJson json with
  | .ok c => c
  | .error _ => {}

/-- One level of indentation. -/
def indentUnit (c : WorkspaceConfig) : String :=
  if c.insertSpaces then String.ofList (List.replicate c.indentWidth ' ') else "\t"

end WorkspaceConfig

end GameScript
