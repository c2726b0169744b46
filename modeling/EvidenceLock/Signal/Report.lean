import EvidenceLock.Signal.Analysis
import EvidenceLock.Value

/-
  An analysis as named values, in the order in which they are written.
-/

namespace EvidenceLock

/-- The measurements as named values. -/
def Metrics.report (m : Metrics) : Value :=
  .table
    [("maxFunctionLength", .int m.maxLength), ("avgFunctionLength", .ofNumber m.averageLength),
     ("duplicateBlocks", .int m.duplicateBlocks), ("totalFunctions", .int m.functions)]

/-- A long function as named values. -/
def FunctionSpan.report (s : FunctionSpan) : Value :=
  .table
    [("file", .str s.file), ("name", .str s.name), ("length", .int s.length),
     ("startLine", .int s.first), ("endLine", .int s.last)]

/-- A place of a block as named values. -/
def Occurrence.report (o : Occurrence) : Value :=
  .table [("file", .str o.file), ("startLine", .int o.first), ("endLine", .int o.last)]

/-- A block as named values. -/
def DuplicateBlock.report (b : DuplicateBlock) : Value :=
  .table
    [("hash", .str b.hash), ("length", b.shownLength),
     ("occurrences", .list (b.occurrences.map Occurrence.report))]

/-- A cycle as named values. -/
def Cycle.report (c : Cycle) : Value :=
  .table
    [("from", .str c.source), ("to", .str c.target),
     ("fromStartLine", .int c.forth.1), ("fromEndLine", .int c.forth.2),
     ("toStartLine", .int c.back.1), ("toEndLine", .int c.back.2)]

/-- The signals as named values. -/
def Signals.report (s : Signals) : Value :=
  .table
    [("longFunctions", .list (s.longFunctions.map FunctionSpan.report)),
     ("duplicateBlocks", .list (s.duplicateBlocks.map DuplicateBlock.report)),
     ("circularDependencies", .list (s.cycles.map Cycle.report)),
     ("testPresence",
      .table
        [("hasTests", .bool s.hasTests), ("testFiles", .list (s.testFiles.map Value.str))])]

/-- The parts of an analysis that are reported. -/
def Analysis.fields (a : Analysis) : List (String × Value) :=
  [("metrics", a.metrics.report), ("signals", a.signals.report)]

/-- The analysis as named values. -/
def Analysis.report (a : Analysis) : Value := .table a.fields

end EvidenceLock
