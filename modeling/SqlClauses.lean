import SqlClauses.Checked
import SqlClauses.Command.Line
import SqlClauses.Cut.Lemmas
import SqlClauses.Expression.Change
import SqlClauses.Grammar
import SqlClauses.Main
import SqlClauses.Occurrence
import SqlClauses.Rendering
import SqlClauses.Proofs.Text.Bytes
import SqlClauses.Proofs.Text.Split
import SqlClauses.Proofs.Text.Words
import SqlClauses.Proofs.Text.Normal
import SqlClauses.Proofs.Text.Tokens
import SqlClauses.Proofs.Marks
import SqlClauses.Proofs.Sorted
import SqlClauses.Proofs.Segmentation
import SqlClauses.Proofs.Query
import SqlClauses.Proofs.Recording
import SqlClauses.Proofs.Rendering
import SqlClauses.Proofs.Field
import SqlClauses.Proofs.Glue
import SqlClauses.Proofs.Condition
import SqlClauses.Proofs.Reparsing
import SqlClauses.Proofs.WellFormed
import SqlClauses.Proofs.Json
import SqlClauses.Proofs.Encoding
import SqlClauses.Proofs.Concatenation
import SqlClauses.Proofs.Repetition
import SqlClauses.Proofs.Occurrence
import SqlClauses.Proofs.Scanning
import SqlClauses.Proofs.Checked
import SqlClauses.Proofs.Changes
import SqlClauses.Proofs.Resumption
import SqlClauses.Proofs.Text.Runs
import SqlClauses.Proofs.Partition
import SqlClauses.Proofs.Spacing
import SqlClauses.Proofs.Trace
import SqlClauses.Proofs.Command.Reading
import SqlClauses.Proofs.Command.Completeness
import SqlClauses.Proofs.Command.Routes
