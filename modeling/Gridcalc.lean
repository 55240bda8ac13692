import Gridcalc.CommandLine.Arguments
import Gridcalc.CommandLine.Command
import Gridcalc.CommandLine.Formulas
import Gridcalc.CommandLine.Outcome
import Gridcalc.CommandLine.Run
import Gridcalc.CommandLine.Sheets
import Gridcalc.Document.Datum
import Gridcalc.Document.Integer
import Gridcalc.Document.Settings
import Gridcalc.Document.SheetFile
import Gridcalc.Formula.Aggregate
import Gridcalc.Formula.Basic
import Gridcalc.Formula.Display
import Gridcalc.Formula.Evaluate
import Gridcalc.Formula.Parse
import Gridcalc.Formula.Render
import Gridcalc.Formula.Shift
import Gridcalc.Formula.Token
import Gridcalc.Graph.Basic
import Gridcalc.Graph.KeySet
import Gridcalc.Graph.Order
import Gridcalc.Graph.Search
import Gridcalc.Grid.Address
import Gridcalc.Grid.Column
import Gridcalc.Grid.Reference
import Gridcalc.Journal.Basic
import Gridcalc.Journal.Clip
import Gridcalc.Journal.Event
import Gridcalc.Journal.Project
import Gridcalc.Journal.Read
import Gridcalc.Journal.Recorder
import Gridcalc.Journal.Stamp
import Gridcalc.Json.Basic
import Gridcalc.Json.Read
import Gridcalc.Json.Write
import Gridcalc.Main
import Gridcalc.Number.Binary
import Gridcalc.Number.Decimal
import Gridcalc.Number.Layout
import Gridcalc.Number.Numeral
import Gridcalc.Proofs.Formula.Consulted
import Gridcalc.Proofs.Formula.Mentions
import Gridcalc.Proofs.Graph.Affected
import Gridcalc.Proofs.Graph.Cycles
import Gridcalc.Proofs.Graph.Existence
import Gridcalc.Proofs.Graph.Links
import Gridcalc.Proofs.Graph.Network
import Gridcalc.Proofs.Graph.Order
import Gridcalc.Proofs.Graph.Turns
import Gridcalc.Proofs.Grid.Key
import Gridcalc.Proofs.Sheet.Edit
import Gridcalc.Proofs.Sheet.Filled
import Gridcalc.Proofs.Sheet.History
import Gridcalc.Proofs.Sheet.Load
import Gridcalc.Proofs.Sheet.Marks
import Gridcalc.Proofs.Sheet.Overtaken
import Gridcalc.Proofs.Sheet.Process
import Gridcalc.Proofs.Sheet.Reached
import Gridcalc.Proofs.Sheet.Recalculate
import Gridcalc.Proofs.Sheet.Refresh
import Gridcalc.Proofs.Sheet.Reported
import Gridcalc.Proofs.Sheet.Settled
import Gridcalc.Proofs.Sheet.Store
import Gridcalc.Proofs.Sheet.Table
import Gridcalc.Proofs.Sheet.Touched
import Gridcalc.Proofs.Sheet.Unique
import Gridcalc.Sheet.Basic
import Gridcalc.Sheet.Cell
import Gridcalc.Sheet.Edit
import Gridcalc.Sheet.FillPlan
import Gridcalc.Sheet.Load
import Gridcalc.Sheet.Notice
import Gridcalc.Storage.Disk
import Gridcalc.Storage.Path
import Gridcalc.Text.Blank
import Gridcalc.Text.Digit
import Gridcalc.Text.Firsts
import Gridcalc.Text.Pieces
import Gridcalc.Text.Printable
import Gridcalc.Text.Quoted
import Gridcalc.Text.Reading
import Gridcalc.Text.Upper
import Gridcalc.Text.Utf8
import Gridcalc.Proofs.Number.Nearest
import Gridcalc.Proofs.Number.Pattern
import Gridcalc.Proofs.Number.Shortest
import Gridcalc.Proofs.Number.Numeral
import Gridcalc.Proofs.Grid.Letters
import Gridcalc.Proofs.Grid.Spelling
import Gridcalc.Proofs.Formula.Lexeme
import Gridcalc.Proofs.Formula.Grammar
import Gridcalc.Proofs.Formula.Located
import Gridcalc.Proofs.Formula.Derivation
import Gridcalc.Proofs.Formula.Rendered
import Gridcalc.Proofs.Formula.Copied
import Gridcalc.Proofs.Formula.Translated
import Gridcalc.Proofs.Grid.Notation
import Gridcalc.Proofs.Storage.Append
import Gridcalc.Proofs.Journal.Run
import Gridcalc.Proofs.Storage.Folder
import Gridcalc.Proofs.Text.Lines
import Gridcalc.Proofs.Json.Keys
import Gridcalc.Proofs.Json.Number
import Gridcalc.Proofs.Json.Text
import Gridcalc.Proofs.Json.RoundTrip
import Gridcalc.Proofs.Json.Printable
import Gridcalc.Proofs.Journal.Line
import Gridcalc.Proofs.Journal.ReadBack
import Gridcalc.Proofs.Outcome
import Gridcalc.Proofs.Text.Blank
import Gridcalc.Proofs.Formula.Shifted
import Gridcalc.Proofs.Formula.Slices
import Gridcalc.Proofs.Formula.Ranges
import Gridcalc.Proofs.Grid.Accepted
import Gridcalc.Proofs.Number.Legible
import Gridcalc.Proofs.Number.Order
import Gridcalc.Proofs.Number.Styles
import Gridcalc.Proofs.Sheet.Shown
import Gridcalc.Proofs.Sheet.Entered
import Gridcalc.Proofs.Document.SheetFile
import Gridcalc.Proofs.Journal.Tail
import Gridcalc.Proofs.Graph.Visits
import Gridcalc.Proofs.Grid.Columns
import Gridcalc.Proofs.Number.Spelled
import Gridcalc.Proofs.Number.Prefix
import Gridcalc.Proofs.Number.Compare
import Gridcalc.Proofs.Formula.Extreme
import Gridcalc.Limits.Basic
import Gridcalc.Limits.Parse
import Gridcalc.Limits.Formula
import Gridcalc.Limits.Session
import Gridcalc.Proofs.Limits.Parse
import Gridcalc.Proofs.Limits.Ample
import Gridcalc.Proofs.Limits.Formula
import Gridcalc.Proofs.Limits.Target
import Gridcalc.Proofs.Limits.Ends
import Gridcalc.Proofs.Limits.Session
