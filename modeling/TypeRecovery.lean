import TypeRecovery.Amount
import TypeRecovery.Command.Arguments
import TypeRecovery.Command.Folder
import TypeRecovery.Command.Input
import TypeRecovery.Command.PathName
import TypeRecovery.Command.Request
import TypeRecovery.Command.Run
import TypeRecovery.Command.Session
import TypeRecovery.Command.Switch
import TypeRecovery.Components
import TypeRecovery.Console
import TypeRecovery.ConstraintSet
import TypeRecovery.Document
import TypeRecovery.Entries
import TypeRecovery.Event
import TypeRecovery.Graph.Basic
import TypeRecovery.Graph.Closure
import TypeRecovery.Graph.Drawing
import TypeRecovery.Graph.Intake
import TypeRecovery.Json.Basic
import TypeRecovery.Json.Display
import TypeRecovery.Json.Reader
import TypeRecovery.Json.Writer
import TypeRecovery.Label
import TypeRecovery.Language.Grammar
import TypeRecovery.Language.Lexeme
import TypeRecovery.Language.Printer
import TypeRecovery.Language.Reader
import TypeRecovery.Language.Rule
import TypeRecovery.Main
import TypeRecovery.Message.Codec
import TypeRecovery.Message.Schema
import TypeRecovery.Message.Wire
import TypeRecovery.Number.Binary64
import TypeRecovery.Number.Reader
import TypeRecovery.Number.Shortest
import TypeRecovery.Partition
import TypeRecovery.Queue
import TypeRecovery.Registers
import TypeRecovery.Report
import TypeRecovery.Settings
import TypeRecovery.Sketch.Basic
import TypeRecovery.Sketch.Layout
import TypeRecovery.Sketch.Shape
import TypeRecovery.Sketch.Table
import TypeRecovery.Solution
import TypeRecovery.Text.Blank
import TypeRecovery.Text.Capital
import TypeRecovery.Text.CaseTable
import TypeRecovery.Text.Cursor
import TypeRecovery.Text.DecimalDigit
import TypeRecovery.Text.Digits
import TypeRecovery.Text.Lines
import TypeRecovery.Text.Printable
import TypeRecovery.Text.Quoted
import TypeRecovery.Text.Utf8
import TypeRecovery.TypeVar
import TypeRecovery.Proofs.Entries
import TypeRecovery.Proofs.Graph.WellFormed
import TypeRecovery.Proofs.Graph.Construction
import TypeRecovery.Proofs.Closure.Rules
import TypeRecovery.Proofs.Closure.Run
import TypeRecovery.Proofs.Graph.Reach
import TypeRecovery.Proofs.Closure.LeastClosure
import TypeRecovery.Proofs.Closure.Paths
import TypeRecovery.Proofs.Components.Walk
import TypeRecovery.Proofs.Components.Correct
import TypeRecovery.Proofs.Partition.Classes
import TypeRecovery.Proofs.Partition.Congruence
import TypeRecovery.Proofs.Solution
import TypeRecovery.Proofs.Closure.Budget
import TypeRecovery.Proofs.Graph.Admission
import TypeRecovery.Proofs.Graph.Within
import TypeRecovery.Proofs.Graph.Twin
import TypeRecovery.Proofs.Order
import TypeRecovery.Proofs.Sketch.Layout
import TypeRecovery.Proofs.Sketch.Uses
import TypeRecovery.Proofs.Sketch.Steps
import TypeRecovery.Proofs.Sketch.Table
import TypeRecovery.Proofs.Sketch.Accounting
import TypeRecovery.Proofs.Partition.Renumber
import TypeRecovery.Proofs.Sketch.Rename
import TypeRecovery.Proofs.Reordering
import TypeRecovery.Proofs.Text.Digits
import TypeRecovery.Proofs.Language.Lexeme
import TypeRecovery.Proofs.Language.Rule
import TypeRecovery.Proofs.Language.Written
import TypeRecovery.Proofs.Language.Document
import TypeRecovery.Proofs.Language.RoundTrip
import TypeRecovery.Proofs.ConstraintSet
import TypeRecovery.Proofs.Registers
import TypeRecovery.Proofs.Text.Utf8
import TypeRecovery.Proofs.Message.Wire
import TypeRecovery.Proofs.Message.Schema
import TypeRecovery.Proofs.Message.Document
import TypeRecovery.Proofs.Message.RoundTrip
import TypeRecovery.Proofs.Closure.StepCount
import TypeRecovery.Proofs.Graph.Admissible
import TypeRecovery.Proofs.Json.RoundTrip
import TypeRecovery.Proofs.Document
import TypeRecovery.Proofs.Closure.Settled
import TypeRecovery.Proofs.Closure.Interleaved
import TypeRecovery.Proofs.Extension
import TypeRecovery.Proofs.Sketch.Closed
import TypeRecovery.Proofs.Sketch.Numbers
import TypeRecovery.Proofs.Command.Input
import TypeRecovery.Proofs.Language.InLine
import TypeRecovery.Proofs.Language.Lines
import TypeRecovery.Proofs.Severity
import TypeRecovery.Proofs.Command.Task
import TypeRecovery.Proofs.Command.ExitCode
import TypeRecovery.Proofs.Command.Breakdown
import TypeRecovery.Proofs.Components.LowLink
import TypeRecovery.Proofs.Components.Agreement
import TypeRecovery.Proofs.Sketch.Placement
import TypeRecovery.Proofs.Sketch.Conflicts
import TypeRecovery.Proofs.Sketch.Widths
import TypeRecovery.Proofs.Document.Stepwise
import TypeRecovery.Proofs.Document.Refusal
import TypeRecovery.Proofs.Document.Respelling
import TypeRecovery.Proofs.Message.Stepwise
import TypeRecovery.Proofs.Message.Extent
import TypeRecovery.Proofs.Message.Weight
import TypeRecovery.Proofs.Partition.Canonical
import TypeRecovery.Proofs.Partition.Targets
import TypeRecovery.Proofs.Message.Canonical
import TypeRecovery.Proofs.Sketch.Reachable
import TypeRecovery.Proofs.Sketch.Rendering
import TypeRecovery.Proofs.Rejections
import TypeRecovery.Proofs.Text.Lines
import TypeRecovery.Proofs.Language.Position
import TypeRecovery.Proofs.Text.Joined
import TypeRecovery.Proofs.Graph.Drawing
import TypeRecovery.Proofs.Language.Trail
import TypeRecovery.Proofs.Language.SideBySide
import TypeRecovery.Proofs.Language.Settling
import TypeRecovery.Proofs.Language.Behind
import TypeRecovery.Proofs.Insertion
