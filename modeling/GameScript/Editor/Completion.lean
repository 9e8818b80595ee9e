import GameScript.Editor.Definition
import GameScript.Text.Edit
/-!
# Completion

The candidates at a cursor: the locals visible there, the keywords, the
catalog's functions, its forms and the scripts of the open files. After `.`
or `->` only functions are offered. Candidates are kept when their folded
label starts with the folded part of the identifier before the cursor; of
candidates with one folded label the first is kept; the rest are sorted by
priority (locals, functions, forms and scripts, keywords) and then by folded
label.
-/

namespace GameScript

/-- What a candidate is. -/
inductive CompletionKind where
  | keyword
  | function
  | variable
  | form
  | script
  deriving DecidableEq, Repr, Inhabited

namespace CompletionKind

/-- The kind's name, as shown to clients. -/
def kindName : CompletionKind → String
  | .keyword => "Keyword"
  | .function => "Function"
  | .variable => "Variable"
  | .form => "Form"
  | .script => "Script"

/-- Lower is offered first. -/
def priority : CompletionKind → Nat
  | .variable => 10
  | .function => 20
  | .form | .script => 30
  | .keyword => 40

end CompletionKind

/-- A completion candidate. -/
structure CompletionItem where
  label : String
  kind : CompletionKind
  detail : Option String
  deriving DecidableEq, Repr, Inhabited

/-- The sort priority of a candidate. -/
def CompletionItem.priority (i : CompletionItem) : Nat := i.kind.priority

namespace Editor

/-- The keywords offered, in this order before sorting. -/
def completionKeywords : List String :=
  ["scriptname", "begin", "end", "if", "elseif", "else", "endif", "while", "loop", "foreach",
   "continue", "break", "return", "set", "to", "let", "short", "int", "long", "float", "ref",
   "string_var", "array_var"]

/-- The nearest token before `t` that is not trivia (a line break counts). -/
def tokenBefore (idx : TokenIndex) (t : Token) : Option Token :=
  ((idx.tokensBefore t).find? fun (u, _) => !u.kind.isTrivia).map (·.1)

/-- The locals visible from the scope around a token. -/
def localItems (db : Database) (file : FileId) (tok : Token × List SyntaxTree) : List CompletionItem :=
  match (Located.ofToken tok).scopeNode?.bind fun n => scopeOf? db file n.elem with
  | none => []
  | some (s, scope) =>
    (s.scopes.visibleSymbols scope).filterMap fun id =>
      (s.scopes.symbol? id).map fun sym => ⟨sym.name, .variable, some sym.type.name⟩

/-- The first `n` bytes of a text, if `n` falls between characters. -/
def bytePrefix? (s : String) (n : Nat) : Option String :=
  let cs := (Text.withOffsets s).filter fun (_, p) => p < n
  let taken := String.ofList (cs.map (·.1))
  if taken.utf8ByteSize == n then some taken else none

/-- Where the cursor completes: the token at or before it, the part of that
token before the cursor when it is an identifier, and whether the token before
the identifier, or the token itself, is `.` or `->`. -/
structure CompletionSite where
  token : Option (Token × List SyntaxTree)
  pfx : String
  afterMember : Bool

/-- The completion site at an offset of a file's token index. -/
def completionSite (idx : TokenIndex) (offset : Nat) : CompletionSite :=
  let tok := idx.tokenAtOrBefore offset
  let (pfx, before) : String × Option Token := match tok with
    | some (t, _) =>
      if t.kind == .ident then
        let len := min (offset - t.start) t.text.utf8ByteSize
        ((bytePrefix? t.text len).getD "", tokenBefore idx t)
      else ("", some t)
    | none => ("", none)
  let afterMember : Bool := match before with
    | some b => b.kind == TokenKind.dot || b.kind == TokenKind.arrow
    | none => false
  ⟨tok, pfx, afterMember⟩

/-- The candidates offered at an offset of an open file, in this order: the
locals visible from the scope around the cursor's token, the keywords, the
catalog's functions, its forms, and the scripts of the open files; after `.`
or `->` only the functions. A file that is not open offers none. -/
def completionSources (db : Database) (file : FileId) (offset : Nat) : List CompletionItem :=
  match db.file? file with
  | none => []
  | some f =>
    let site := completionSite f.index offset
    let locals : List CompletionItem := if site.afterMember then [] else
      (match site.token with
       | some t => localItems db file t
       | none => []) ++ completionKeywords.map fun k => ⟨k, .keyword, none⟩
    let functions : List CompletionItem := db.catalog.functions.values.map fun e =>
      ⟨e.name, .function, some (e.kind.word ++ " -> " ++ e.returnType.name)⟩
    let others : List CompletionItem := if site.afterMember then [] else
      db.catalog.forms.values.map (fun e => (⟨e.name, .form, some e.type.name⟩ : CompletionItem)) ++
      (db.globals.values.filter fun (e : GlobalEntry) => match e.origin with
        | .script _ => true
        | _ => false).map fun (e : GlobalEntry) => ⟨e.name, .script, some "script"⟩
    locals ++ functions ++ others

/-- The part of the identifier before the cursor that candidates are filtered
by; empty in a file that is not open. -/
def completionPrefix (db : Database) (file : FileId) (offset : Nat) : String :=
  match db.file? file with
  | none => ""
  | some f => (completionSite f.index offset).pfx

/-- The candidates whose folded label starts with `key`, the first of each
folded label only, sorted by priority and then by folded label. -/
def rankCompletions (key : String) (items : List CompletionItem) : List CompletionItem :=
  let kept := items.filter fun i => key.isPrefixOf (Text.foldCase i.label)
  let unique := (kept.foldl (fun (acc : List String × List CompletionItem) i =>
    let k := Text.foldCase i.label
    if acc.1.contains k then acc else (k :: acc.1, i :: acc.2)) ([], [])).2.reverse
  unique.mergeSort fun a b =>
    a.priority < b.priority || (a.priority == b.priority && Text.foldCase a.label ≤ Text.foldCase b.label)

/-- The completion candidates at an offset. -/
def completions (db : Database) (file : FileId) (offset : Nat) : List CompletionItem :=
  rankCompletions (Text.foldCase (completionPrefix db file offset)) (completionSources db file offset)

end Editor

end GameScript
