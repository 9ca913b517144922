import Offside.Calendar
import Offside.Cli.Command
import Offside.Cli.Flag
import Offside.Cli.Help
import Offside.Cli.Log
import Offside.Cli.Run
import Offside.Decimal
import Offside.Diagnostic
import Offside.Directory
import Offside.Frontend
import Offside.Ir.Basic
import Offside.Ir.Builder
import Offside.Ir.Constant
import Offside.Ir.Error
import Offside.Ir.Lower
import Offside.Ir.Name
import Offside.Ir.Printer
import Offside.Lexer.Basic
import Offside.Lexer.Error
import Offside.Lexer.Gap
import Offside.Lexer.Lexeme
import Offside.Lexer.Stream
import Offside.Lookup
import Offside.Main
import Offside.Numeral
import Offside.Parse.Cursor
import Offside.Parse.Expr
import Offside.Parse.Stmt
import Offside.Place
import Offside.Position
import Offside.Program.Basic
import Offside.Program.Dump
import Offside.Program.SExpr
import Offside.Proofs.Fault.Fails
import Offside.Proofs.Fault.Place
import Offside.Proofs.Grammar.Derivation
import Offside.Proofs.Grammar.Expression
import Offside.Proofs.Grammar.Indentation
import Offside.Proofs.Grammar.Member
import Offside.Proofs.Grammar.Reads
import Offside.Proofs.Grammar.Statement
import Offside.Proofs.Grammar.Tree
import Offside.Proofs.Lexer.Course
import Offside.Proofs.Lexer.Cut
import Offside.Proofs.Lexer.Levels
import Offside.Proofs.Lexer.Marker
import Offside.Proofs.Lexer.Run
import Offside.Proofs.Lowering.Builder
import Offside.Proofs.Lowering.Expression
import Offside.Proofs.Lowering.Layout
import Offside.Proofs.Lowering.Meaning
import Offside.Proofs.Lowering.Statement
import Offside.Proofs.Meaning.Machine
import Offside.Proofs.Meaning.Run
import Offside.Proofs.Meaning.Source
import Offside.Proofs.Render.Basic
import Offside.Proofs.Render.Layout
import Offside.Proofs.Render.Legible
import Offside.Proofs.Render.Lines
import Offside.Proofs.Render.Phrase
import Offside.Proofs.Render.RoundTrip
import Offside.Proofs.Session.Command
import Offside.Proofs.Session.Probe
import Offside.Proofs.Text.Rune
import Offside.Proofs.Text.Space
import Offside.Proofs.WellFormed.Basic
import Offside.Proofs.WellFormed.Code
import Offside.Proofs.WellFormed.Graph
import Offside.Proofs.WellFormed.Module
import Offside.Proofs.WellFormed.Names
import Offside.Session.Basic
import Offside.Session.Buffer
import Offside.Session.History
import Offside.Session.Lines
import Offside.Settings.Basic
import Offside.Settings.Decode
import Offside.Settings.Load
import Offside.Source
import Offside.Text.Base64
import Offside.Text.Basic
import Offside.Text.Distance
import Offside.Text.Letter
import Offside.Text.LowerCase
import Offside.Text.Printable
import Offside.Text.Quoted
import Offside.Text.Rune
import Offside.Text.Space
import Offside.Token
import Offside.Toml.Basic
import Offside.Toml.Document
import Offside.Toml.Grammar
import Offside.Toml.Scalar
import Offside.Yaml.Block
import Offside.Yaml.Input
import Offside.Yaml.Meaning
import Offside.Yaml.Node
import Offside.Yaml.Property
import Offside.Yaml.Scalar
import Offside.Yaml.Stream
import Offside.Yaml.Timestamp
import Offside.Yaml.Token
import Offside.Proofs.Fault.Completion
import Offside.Proofs.Fault.Local
import Offside.Proofs.Fault.Earliest
import Offside.Proofs.Lexer.Continue
import Offside.Proofs.Fault.Incomplete
import Offside.Proofs.Grammar.Whole
import Offside.Proofs.Lowering.Offence
import Offside.Proofs.Lowering.Blame
import Offside.Proofs.Lexer.Simulation
import Offside.Proofs.Grammar.Likeness
import Offside.Proofs.Text.Lines
import Offside.Proofs.Editing.LineEnd
import Offside.Proofs.Editing.Comment
import Offside.Proofs.Grammar.Append
import Offside.Proofs.Editing.Append
import Offside.Proofs.Lexer.Calls
import Offside.Proofs.Editing.Unwrap
import Offside.Proofs.Grammar.Kept
import Offside.Proofs.SExpr.Form
import Offside.Proofs.SExpr.Unique
import Offside.Proofs.Lowering.Relocate
import Offside.Proofs.Grammar.Words
import Offside.Proofs.Text.Boundary
import Offside.Proofs.Lexer.Exact
import Offside.Proofs.Lexer.Flaw
import Offside.Proofs.Lexer.Leftmost
import Offside.Proofs.Fault.Snippet
import Offside.Proofs.Fault.Caret
import Offside.Proofs.Session.Partition
import Offside.Proofs.WellFormed.Order
import Offside.Proofs.Lexer.Last
import Offside.Proofs.Session.Colon
import Offside.Proofs.Lexer.Width
import Offside.Proofs.Lexer.Progress
import Offside.Proofs.Grammar.Progress
import Offside.Proofs.Editing.Tab
