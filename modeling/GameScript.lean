import GameScript.Catalog.Basic
import GameScript.Catalog.Files
import GameScript.Decimal.Shortest
import GameScript.Editor.Completion
import GameScript.Editor.Definition
import GameScript.Editor.Format
import GameScript.Editor.Hover
import GameScript.Editor.Navigate
import GameScript.Json.Pretty
import GameScript.Json.Problem
import GameScript.Json.Reader
import GameScript.Project.Database
import GameScript.Project.Diagnostic
import GameScript.Project.Globals
import GameScript.Project.SourceKey
import GameScript.Proofs.CatalogFiles
import GameScript.Proofs.ColumnRounding
import GameScript.Proofs.CompletionList
import GameScript.Proofs.CursorTokens
import GameScript.Proofs.EventTrees
import GameScript.Proofs.FileIds
import GameScript.Proofs.FormatTokens
import GameScript.Proofs.Fuel
import GameScript.Proofs.Hints
import GameScript.Proofs.Identifiers
import GameScript.Proofs.LineColumns
import GameScript.Proofs.Lossless
import GameScript.Proofs.Ownership
import GameScript.Proofs.Precedence
import GameScript.Proofs.References
import GameScript.Proofs.ScopeNesting
import GameScript.Proofs.Shadowing
import GameScript.Proofs.TokenShapes
import GameScript.Resolved.Basic
import GameScript.Resolved.Literal
import GameScript.Resolved.Lower
import GameScript.Scope.Basic
import GameScript.Syntax.Cursor
import GameScript.Syntax.Event
import GameScript.Syntax.Grammar
import GameScript.Syntax.Lexer
import GameScript.Syntax.Locate
import GameScript.Syntax.NodeKind
import GameScript.Syntax.Parse
import GameScript.Syntax.Problem
import GameScript.Syntax.Sink
import GameScript.Syntax.Token
import GameScript.Syntax.TokenKind
import GameScript.Syntax.Tree
import GameScript.Syntax.View
import GameScript.Text.Edit
import GameScript.Text.LineIndex
import GameScript.Text.NameTable
import GameScript.Text.Quote
import GameScript.Text.WhiteSpace
import GameScript.ValueType
import GameScript.Workspace.Config
