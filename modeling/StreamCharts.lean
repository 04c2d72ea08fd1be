import StreamCharts.Binary.Arithmetic
import StreamCharts.Binary.Decimal
import StreamCharts.Binary.Format
import StreamCharts.Binary.Rounding
import StreamCharts.Binary.Shortest
import StreamCharts.Chart.Decade
import StreamCharts.Chart.Figure
import StreamCharts.Chart.Layout
import StreamCharts.Chart.Ticks
import StreamCharts.Config
import StreamCharts.Console.Question
import StreamCharts.Console.Selection
import StreamCharts.Console.Sink
import StreamCharts.Fault
import StreamCharts.Files.Path
import StreamCharts.Files.Tree
import StreamCharts.Input.Reading
import StreamCharts.Input.Script
import StreamCharts.Journal.Filter
import StreamCharts.Journal.Record
import StreamCharts.Journal.Rendering
import StreamCharts.Log.Error
import StreamCharts.Log.Kind
import StreamCharts.Log.Parse
import StreamCharts.Log.Row
import StreamCharts.Log.Scenario
import StreamCharts.Log.Series
import StreamCharts.Main
import StreamCharts.Numeral
import StreamCharts.Pattern.Basic
import StreamCharts.Pattern.Bracket
import StreamCharts.Pattern.CharSet
import StreamCharts.Pattern.Escape
import StreamCharts.Pattern.Mode
import StreamCharts.Pattern.Syntax
import StreamCharts.Session
import StreamCharts.Session.Steps
import StreamCharts.Text.Blank
import StreamCharts.Text.Bytes
import StreamCharts.Text.Category
import StreamCharts.Text.Hexadecimal
import StreamCharts.Text.Quoted
import StreamCharts.Text.Visible
import StreamCharts.Toml.Document
import StreamCharts.Toml.Scalar
import StreamCharts.Toml.Scan
import StreamCharts.Toml.Text
import StreamCharts.Toml.Value
import StreamCharts.Proofs.Binary.Equality
import StreamCharts.Proofs.Binary.Rounding
import StreamCharts.Proofs.Config.Entries
import StreamCharts.Proofs.Config.Loading
import StreamCharts.Proofs.Console.Containment
import StreamCharts.Proofs.Console.Dialogue
import StreamCharts.Proofs.Console.Exchanges
import StreamCharts.Proofs.Console.Limits
import StreamCharts.Proofs.Files.Names
import StreamCharts.Proofs.Files.Outline
import StreamCharts.Proofs.Input.Delivered
import StreamCharts.Proofs.Input.Lines
import StreamCharts.Proofs.Input.Takes
import StreamCharts.Proofs.Log.Arrival
import StreamCharts.Proofs.Log.Calls
import StreamCharts.Proofs.Log.Loading
import StreamCharts.Proofs.Log.Numbering
import StreamCharts.Proofs.Log.Repeated
import StreamCharts.Proofs.Log.Scan
import StreamCharts.Proofs.Log.Verdict
import StreamCharts.Proofs.Session.Stages
import StreamCharts.Proofs.Text.Fields
import StreamCharts.Proofs.Text.Lines
import StreamCharts.Proofs.Toml.Lines
import StreamCharts.Proofs.Toml.Locality
import StreamCharts.Proofs.Toml.Order
import StreamCharts.Proofs.Toml.Rounds
import StreamCharts.Proofs.Toml.Statements
import StreamCharts.Proofs.Toml.Strings
import StreamCharts.Proofs.Toml.Values
import StreamCharts.Proofs.Log.Header
import StreamCharts.Proofs.Log.Growth
import StreamCharts.Proofs.Text.Layout
import StreamCharts.Proofs.Text.Numerals
import StreamCharts.Proofs.Log.Writing
import StreamCharts.Proofs.Binary.Nearest
import StreamCharts.Proofs.Binary.Operations
import StreamCharts.Proofs.Chart.Decade
import StreamCharts.Proofs.Chart.Step
import StreamCharts.Proofs.Chart.Positions
import StreamCharts.Proofs.Chart.Marks
import StreamCharts.Proofs.Chart.Spans
import StreamCharts.Proofs.Chart.Whole
import StreamCharts.Proofs.Console.Terminators
import StreamCharts.Proofs.Files.Listing
import StreamCharts.Proofs.Console.Snapshots
import StreamCharts.Proofs.Log.Naming
import StreamCharts.Proofs.Binary.Closest
import StreamCharts.Proofs.Chart.Points
import StreamCharts.Proofs.Chart.Stack
import StreamCharts.Proofs.Session.Steps
import StreamCharts.Proofs.Pattern.Matching
import StreamCharts.Proofs.Pattern.Reading
import StreamCharts.Proofs.Pattern.Progress
import StreamCharts.Proofs.Text.Categories
