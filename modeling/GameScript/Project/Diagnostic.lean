import GameScript.Syntax.Problem
import GameScript.Syntax.View
/-!
# Diagnostics

What is reported about a file: its syntax problems, and a script name that
another open file already owns. Each kind of diagnostic has a code and a
severity of its own.
-/

namespace GameScript

/-- The kinds of diagnostic. -/
inductive DiagnosticCode where
  /-- A syntax error. -/
  | syntaxError
  /-- A suspicious construct the parser warns about. -/
  | syntaxWarning
  /-- Two open files declare one script name. -/
  | duplicateScriptName
  deriving DecidableEq, Repr, Inhabited

namespace DiagnosticCode

/-- The code as shown to users. -/
def text : DiagnosticCode → String
  | syntaxError => "E001"
  | syntaxWarning => "W001"
  | duplicateScriptName => "E101"

/-- How serious the kind is. -/
def severity : DiagnosticCode → Severity
  | syntaxWarning => .warning
  | _ => .error

end DiagnosticCode

/-- A message about another place, attached to a diagnostic. -/
structure RelatedNote where
  span : Span
  message : String
  deriving DecidableEq, Repr, Inhabited

/-- A diagnostic of a file. -/
structure Diagnostic where
  code : DiagnosticCode
  span : Span
  message : String
  related : List RelatedNote := []
  deriving DecidableEq, Repr, Inhabited

namespace Diagnostic

/-- The severity of the diagnostic's kind. -/
def severity (d : Diagnostic) : Severity := d.code.severity

/-- A syntax problem as a diagnostic. -/
def ofSyntaxError (e : SyntaxError) : Diagnostic :=
  { code := if e.severity == .error then .syntaxError else .syntaxWarning,
    span := ⟨e.start, e.stop⟩, message := e.message }

/-- The one-line text: severity, code, message and range. -/
def display (d : Diagnostic) : String :=
  d.severity.word ++ "[" ++ d.code.text ++ "]: " ++ d.message ++ " (at " ++ toString d.span.start ++
    ".." ++ toString d.span.stop ++ ")"

end Diagnostic

end GameScript
