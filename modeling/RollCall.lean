import RollCall.Calendar.Lemmas
import RollCall.Main
import RollCall.Proofs.Query.Grammar
import RollCall.Proofs.Query.Reading
import RollCall.Proofs.Operator
import RollCall.Proofs.Query.Kinds
import RollCall.Proofs.Query.Strict
import RollCall.Proofs.Attendance.Order
import RollCall.Proofs.Report.Rows
import RollCall.Proofs.Report.Grouping
import RollCall.Proofs.Binary64.Numeral
import RollCall.Proofs.Instant.Pattern
import RollCall.Proofs.Query.Quoted
import RollCall.Proofs.Query.RoundTrip
import RollCall.Proofs.Attendance.Repeats
import RollCall.Proofs.Report.Retelling
import RollCall.Proofs.Query.Ways
import RollCall.Proofs.Query.Extent
import RollCall.Proofs.Query.Walk
import RollCall.Proofs.Query.Cursor
import RollCall.Proofs.Query.Tiling
import RollCall.Proofs.Query.Missed
import RollCall.Proofs.Query.Spacing
import RollCall.Proofs.Query.Viable
import RollCall.Proofs.Text.Utf16
import RollCall.Proofs.Encoding
import RollCall.Proofs.Result
import RollCall.Proofs.Template.Written
import RollCall.Proofs.Instant.Difference
import RollCall.Proofs.Attendance.Stays
import RollCall.Proofs.Report.Stays
import RollCall.Proofs.Command.Arguments
import RollCall.Proofs.Command.Outcome
import RollCall.Proofs.Query.Bracketed
import RollCall.Proofs.Query.Spelled
import RollCall.Proofs.Instant.HalfDay
import RollCall.Proofs.Report.Times
import RollCall.Proofs.Attendance.Blocks
import RollCall.Proofs.Query.Expected
import RollCall.Proofs.Report.Lines
import RollCall.Proofs.Report.Cells
import RollCall.Proofs.Report.Isolation
import RollCall.Proofs.Binary64.Longest
import RollCall.Proofs.Query.Numbers
import RollCall.Proofs.Query.Truncated
import RollCall.Proofs.Query.Faults
import RollCall.Proofs.Operator.Coherence
import RollCall.Proofs.Instant.Range
import RollCall.Proofs.Attendance.Range
import RollCall.Proofs.Template.Faults
import RollCall.Proofs.Query.Chain
import RollCall.Proofs.Table.Ending
import RollCall.Proofs.Report.Columns
import RollCall.Proofs.Span
import RollCall.Proofs.Report.Lengths
import RollCall.Proofs.Query.Size
import RollCall.Proofs.Query.Progress
