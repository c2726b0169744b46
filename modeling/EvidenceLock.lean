import EvidenceLock.Cli.Arguments
import EvidenceLock.Cli.CommandLine
import EvidenceLock.Cli.Markup
import EvidenceLock.Cli.Screen
import EvidenceLock.Decimal.Binary
import EvidenceLock.Decimal.Reading
import EvidenceLock.Decimal.Rounded
import EvidenceLock.Decimal.Shortest
import EvidenceLock.Digest.Sha1
import EvidenceLock.Failure
import EvidenceLock.Fix.Generator
import EvidenceLock.Fix.Prompt
import EvidenceLock.Fix.Report
import EvidenceLock.Fix.Run
import EvidenceLock.Fix.Verify
import EvidenceLock.Host
import EvidenceLock.Issue.Aggregate
import EvidenceLock.Issue.Evidence
import EvidenceLock.Issue.Guard
import EvidenceLock.Keyed
import EvidenceLock.Language
import EvidenceLock.Log
import EvidenceLock.Log.Setup
import EvidenceLock.Logged
import EvidenceLock.Main
import EvidenceLock.Number
import EvidenceLock.Patch.Apply
import EvidenceLock.Patch.Basic
import EvidenceLock.Patch.Parse
import EvidenceLock.Patch.Scope
import EvidenceLock.Path
import EvidenceLock.Run
import EvidenceLock.Session
import EvidenceLock.Settings.Basic
import EvidenceLock.Settings.Environment
import EvidenceLock.Settings.Limits
import EvidenceLock.Settings.Load
import EvidenceLock.Signal.Analysis
import EvidenceLock.Signal.Dependency
import EvidenceLock.Signal.Duplicate
import EvidenceLock.Signal.Metrics
import EvidenceLock.Signal.Report
import EvidenceLock.Signal.TestPresence
import EvidenceLock.Source.Comment
import EvidenceLock.Source.Discovery
import EvidenceLock.Source.Function
import EvidenceLock.Source.Index
import EvidenceLock.Source.Normalized
import EvidenceLock.Source.Record
import EvidenceLock.Syntax.Braced.Expressions
import EvidenceLock.Syntax.Braced.Form
import EvidenceLock.Syntax.Braced.Markup
import EvidenceLock.Syntax.Braced.Operands
import EvidenceLock.Syntax.Braced.Program
import EvidenceLock.Syntax.Braced.Statements
import EvidenceLock.Syntax.Braced.Types
import EvidenceLock.Syntax.Code
import EvidenceLock.Syntax.Indented.Expressions
import EvidenceLock.Syntax.Indented.Layout
import EvidenceLock.Syntax.Indented.Program
import EvidenceLock.Syntax.Indented.Rows
import EvidenceLock.Syntax.Node
import EvidenceLock.Syntax.Scan
import EvidenceLock.Syntax.Visitor
import EvidenceLock.Syntax.Walk
import EvidenceLock.Text.Blank
import EvidenceLock.Text.Cells
import EvidenceLock.Text.DecimalDigit
import EvidenceLock.Text.Lines
import EvidenceLock.Text.LowerCase
import EvidenceLock.Text.Printable
import EvidenceLock.Text.Quoted
import EvidenceLock.Text.Utf8
import EvidenceLock.Toml.Document
import EvidenceLock.Toml.Scalar
import EvidenceLock.Value
import EvidenceLock.Value.Json
import EvidenceLock.Value.Moment
import EvidenceLock.Proofs.Keyed
import EvidenceLock.Proofs.Edit
import EvidenceLock.Proofs.Outcome
import EvidenceLock.Proofs.PatchEdit
import EvidenceLock.Proofs.Scope
import EvidenceLock.Proofs.Lock
import EvidenceLock.Proofs.Lines
import EvidenceLock.Proofs.Attempt
import EvidenceLock.Proofs.Verdict
import EvidenceLock.Proofs.Verified
import EvidenceLock.Proofs.LongFunction
import EvidenceLock.Proofs.Diff
import EvidenceLock.Proofs.Analysis
import EvidenceLock.Proofs.Survival
import EvidenceLock.Proofs.Occurrence
import EvidenceLock.Proofs.Repeated
import EvidenceLock.Proofs.DuplicateBlocks
import EvidenceLock.Proofs.Coverage
import EvidenceLock.Proofs.FileOrder
import EvidenceLock.Proofs.HunkHeader
import EvidenceLock.Proofs.HunkLines
import EvidenceLock.Proofs.Snippet
import EvidenceLock.Proofs.Replacement
import EvidenceLock.Proofs.Rendering
import EvidenceLock.Proofs.EditPlaces
import EvidenceLock.Proofs.Reading
import EvidenceLock.Proofs.Narrative
import EvidenceLock.Proofs.LineBreaks
import EvidenceLock.Proofs.Unchanged
import EvidenceLock.Proofs.Retry
import EvidenceLock.Proofs.LargeIntegers
import EvidenceLock.Proofs.Guard
import EvidenceLock.Proofs.Utf8
import EvidenceLock.Proofs.PathNames
import EvidenceLock.Proofs.Disk
import EvidenceLock.Proofs.Rereading
import EvidenceLock.Proofs.NumberedLines
import EvidenceLock.Proofs.DependencyGraph
import EvidenceLock.Proofs.Cycles
import EvidenceLock.Proofs.DistinctKeys
import EvidenceLock.Proofs.Readings
import EvidenceLock.Proofs.Accepted
import EvidenceLock.Proofs.Indexed
import EvidenceLock.Proofs.Citations
import EvidenceLock.Proofs.Evidence
import EvidenceLock.Proofs.Layering
import EvidenceLock.Proofs.Precedence
import EvidenceLock.Proofs.Collisions
import EvidenceLock.Proofs.SettingsFaults
import EvidenceLock.Proofs.BlockCounts
import EvidenceLock.Proofs.SettingsUse
import EvidenceLock.Proofs.AcceptedRuns
import EvidenceLock.Proofs.PatchFit
import EvidenceLock.Proofs.Outline
import EvidenceLock.Proofs.Origin
import EvidenceLock.Proofs.Unfinished
import EvidenceLock.Proofs.Concatenation
import EvidenceLock.Proofs.OverlayFiles
import EvidenceLock.Proofs.WhiteSpace
import EvidenceLock.Proofs.Alignment
import EvidenceLock.Proofs.CommentScan
import EvidenceLock.Proofs.LineEnds
import EvidenceLock.Proofs.PathWalk
import EvidenceLock.Proofs.Imports
import EvidenceLock.Proofs.RelativeImports
import EvidenceLock.Proofs.Sorting
import EvidenceLock.Proofs.ImportGraph
import EvidenceLock.Proofs.IssueOrder
import EvidenceLock.Proofs.Preorder
import EvidenceLock.Proofs.Isolation
import EvidenceLock.Proofs.Discovery
import EvidenceLock.Proofs.SelectedPair
