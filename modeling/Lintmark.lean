import Lintmark.Main
import Lintmark.Proofs.Document.Lines
import Lintmark.Proofs.Document.Rows
import Lintmark.Proofs.Document.Cut
import Lintmark.Proofs.Document.Columns
import Lintmark.Proofs.Document.Cells
import Lintmark.Proofs.Document.Partition
import Lintmark.Proofs.Annotation.Placement
import Lintmark.Proofs.Annotation.Range
import Lintmark.Proofs.Annotation.LineEndings
import Lintmark.Proofs.Annotation.Locality
import Lintmark.Proofs.Report.Location
import Lintmark.Proofs.Json.Grammar
import Lintmark.Proofs.Json.Strings
import Lintmark.Proofs.Json.Numbers
import Lintmark.Proofs.Json.Sequences
import Lintmark.Proofs.Json.Values
import Lintmark.Proofs.Json.Printer
import Lintmark.Proofs.Issue.Fields
import Lintmark.Proofs.Issue.Outputs
import Lintmark.Proofs.Issue.AllOrNothing
import Lintmark.Proofs.Check.Verdict
import Lintmark.Proofs.Command.Waiting
import Lintmark.Proofs.Command.Collecting
import Lintmark.Proofs.Command.TimeLimit
import Lintmark.Proofs.Command.Reaping
import Lintmark.Proofs.Check.Files
import Lintmark.Proofs.CommandLine.ExitStatus
import Lintmark.Proofs.Check.Workers
import Lintmark.Proofs.Report.Json
import Lintmark.Proofs.Report.Bounds
import Lintmark.Proofs.Annotation.WholeLine
import Lintmark.Proofs.Annotation.LineEndMark
import Lintmark.Proofs.Report.Lines
import Lintmark.Proofs.Command.Deadline
import Lintmark.Proofs.CommandLine.Timeouts
import Lintmark.Proofs.Command.Capture
import Lintmark.Proofs.Command.Threads
import Lintmark.Proofs.Command.Interleaving
import Lintmark.Proofs.Json.Skipping
import Lintmark.Proofs.Settings.Fields
import Lintmark.Proofs.Settings.TypedValues
import Lintmark.Proofs.Settings.Decoding
import Lintmark.Proofs.Version
import Lintmark.Proofs.Executable.Discovery
import Lintmark.Proofs.Annotation.SpanOrder
import Lintmark.Proofs.Command.Polling
import Lintmark.Proofs.Path.Components
import Lintmark.Proofs.Path.Extension
import Lintmark.Proofs.CommandLine.Scripts
import Lintmark.Proofs.Linter.MissingExecutable
