import GameScript.Text.Edit
import GameScript.Syntax.Parse
import GameScript.Workspace.Config
/-!
# Formatting

The formatter touches only the blanks at the ends of lines and the case of
keywords and type names. A line's indentation is one unit for every
statement list around its first token, so a block's terminator lines up with
its opener. Its leading blank is replaced by that indentation (or removed,
on a line with nothing else), keywords are cased by the configured style,
and a trailing blank is removed. Lines are split at line-break tokens, so a
string that spans lines stays as it is.
-/

namespace GameScript

namespace Format

/-- The leaves of a tree, each with the number of statement lists around it. -/
def leavesWithDepth : SyntaxTree → Nat → List (Token × Nat)
  | .token t, d => [(t, d)]
  | .node k _ _ cs, d => children cs (if k == .stmtList then d + 1 else d)
where
  children : List SyntaxTree → Nat → List (Token × Nat)
    | [], _ => []
    | c :: more, d => leavesWithDepth c d ++ children more d

/-- The lines of a token sequence: the tokens between line breaks, each with
the offset where the line ends. -/
def lines (tokens : List (Token × Nat)) (textEnd : Nat) : List (List (Token × Nat) × Nat) :=
  go tokens []
where
  go : List (Token × Nat) → List (Token × Nat) → List (List (Token × Nat) × Nat)
    | [], line => [(line.reverse, textEnd)]
    | (t, d) :: more, line =>
      if t.kind.isNewline then (line.reverse, t.start) :: go more []
      else go more ((t, d) :: line)

/-- The edits for one line. -/
def lineEdits (config : WorkspaceConfig) (line : List (Token × Nat)) (lineEnd : Nat) :
    List TextEdit :=
  let (indent, content) : Option Token × List (Token × Nat) := match line with
    | (t, _) :: rest => if t.kind == .whitespace then (some t, rest) else (none, line)
    | [] => (none, [])
  match content with
  | [] =>
    match indent with
    | some t => [⟨⟨t.start, t.stop⟩, ""⟩]
    | none => []
  | (first, depth) :: _ =>
    let wanted := String.join (List.replicate depth config.indentUnit)
    let indentEdit : List TextEdit := match indent with
      | some t => if t.text != wanted then [⟨⟨t.start, t.stop⟩, wanted⟩] else []
      | none => if wanted.isEmpty then [] else [⟨⟨first.start, first.start⟩, wanted⟩]
    let caseEdits : List TextEdit := content.filterMap fun (t, _) =>
      if t.kind.isKeyword || t.kind.isType then
        let cased := config.keywordStyle.apply t.text
        if cased != t.text then some ⟨⟨t.start, t.stop⟩, cased⟩ else none
      else none
    let trailing : List TextEdit := match content.getLast? with
      | some (t, _) => if t.kind == .whitespace then [⟨⟨t.start, lineEnd⟩, ""⟩] else []
      | none => []
    indentEdit ++ caseEdits ++ trailing

end Format

/-- The edits that format a tree, in source order. -/
def formatTree (root : SyntaxTree) (config : WorkspaceConfig) : List TextEdit :=
  let tokens := (Format.leavesWithDepth root 0).filter fun (t, _) => t.kind != .eof
  (Format.lines tokens root.stop).flatMap fun (line, lineEnd) => Format.lineEdits config line lineEnd

/-- A source text, formatted. -/
def formatSource (source : String) (config : WorkspaceConfig) : String :=
  Text.applyEdits source (formatTree (parseScript source fun _ => false).root config)

end GameScript
