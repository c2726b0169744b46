import EvidenceLock.Signal.Dependency
import EvidenceLock.Signal.Duplicate
import EvidenceLock.Signal.Metrics
import EvidenceLock.Signal.TestPresence
import EvidenceLock.Source.Index

/-
  One analysis pass over a set of records: index, measure, find duplicated blocks
  and import cycles. The result depends only on what the records read as.
-/

namespace EvidenceLock

/-- What an analysis reports. -/
structure Signals where
  /-- The long functions. -/
  longFunctions : List FunctionSpan := []
  /-- The duplicated blocks. -/
  duplicateBlocks : List DuplicateBlock := []
  /-- The import cycles. -/
  cycles : List Cycle := []
  /-- The test files. -/
  testFiles : List String := []
  deriving Repr, Inhabited

/-- There is a test file. -/
def Signals.hasTests (s : Signals) : Bool := !s.testFiles.isEmpty

/-- The result of an analysis. -/
structure Analysis where
  /-- The measurements. -/
  metrics : Metrics := {}
  /-- The signals. -/
  signals : Signals := {}
  /-- The summary of the imports. -/
  dependencies : DependencySummary := {}
  /-- The paths of the records that were skipped. -/
  skipped : List String := []
  deriving Repr, Inhabited

/-- The numbers that decide what is reported. -/
structure SignalLimits where
  /-- The length from which on a function is long. -/
  longFunction : Number := 50
  /-- The limits of duplicated blocks; asked for only when there is a file. -/
  blocks : Outcome BlockLimits := .ok (.of 10 50 2)

/-- An analysis together with what is worth logging about it. -/
structure AnalysisRun where
  /-- The result. -/
  analysis : Analysis
  /-- The outcome for each record, in the order of the paths. -/
  index : List Indexing
  /-- The number of duplicated blocks before covered ones were dropped. -/
  candidates : Nat
  deriving Repr

/-- The indexed files. -/
def AnalysisRun.files (r : AnalysisRun) : List IndexedFile := r.index.filterMap Indexing.file?

/-- The duplicated blocks of files before covered ones are dropped; none without files. -/
def candidatesWithin (files : List NormalizedFile) (limits : Outcome BlockLimits) :
    Outcome (List DuplicateBlock) :=
  if files.isEmpty then .ok [] else do candidateBlocks files (← limits)

/-- What an indexed set of files shows. -/
def analyzeIndexed (limits : SignalLimits) (paths : List String) (index : List Indexing) :
    Outcome AnalysisRun := do
  let files := index.filterMap Indexing.file?
  let normalized := files.map IndexedFile.normalized
  let spans := files.flatMap IndexedFile.functions
  let candidates ← candidatesWithin normalized limits.blocks
  let blocks := dropCovered candidates
  let known := normalized.map NormalizedFile.path
  let graph := DependencyGraph.ofFiles normalized known.contains
  let cycles := graph.cycles
  .ok {
    analysis := {
      metrics := { functionMetrics spans with duplicateBlocks := blocks.length }
      signals := {
        longFunctions := longFunctions limits.longFunction spans
        duplicateBlocks := blocks
        cycles
        testFiles := testPaths paths }
      dependencies := graph.summary cycles
      skipped := index.filterMap Indexing.skippedPath? }
    index
    candidates := candidates.length }

/-- One analysis pass. -/
def analyze (limits : SignalLimits) (read : Reader) (visit : Visitors) (rs : List FileRecord) :
    Outcome AnalysisRun := do
  let index ← indexAll read visit rs
  analyzeIndexed limits (rs.map FileRecord.path) index

/-- What is logged about an analysis. -/
def AnalysisRun.log (r : AnalysisRun) : Log :=
  let signals := r.analysis.signals
  r.index.flatMap Indexing.log ++
    [.debug "coderoast.signals.engine" s!"Indexed {r.files.length} of {r.index.length} files",
     .debug "coderoast.signals.duplicates"
       (s!"Duplicate detection: {r.candidates} candidate blocks, " ++
         s!"{signals.duplicateBlocks.length} reported"),
     .info "coderoast.signals.engine"
       (s!"Analysis complete: {r.analysis.metrics.functions} functions, " ++
         s!"{signals.longFunctions.length} long, {signals.duplicateBlocks.length} " ++
         s!"duplicate blocks, {signals.cycles.length} cycles")]

end EvidenceLock
