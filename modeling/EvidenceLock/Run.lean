import EvidenceLock.Fix.Generator
import EvidenceLock.Fix.Report
import EvidenceLock.Issue.Guard
import EvidenceLock.Settings.Limits

/-
  A whole run: find the source files, analyse them, collect the issues, let the
  guard look at them, and attempt fixes where that is asked for.
-/

namespace EvidenceLock

/-- An analysis and the issues it gives. -/
structure RunReport where
  /-- The analysed folder. -/
  root : String
  /-- The source files. -/
  files : List FileRecord
  /-- The analysis. -/
  analysis : Analysis
  /-- The issues. -/
  issues : List GuardedIssue
  deriving Repr, Inhabited

/-- The report as named values. -/
def RunReport.fields (r : RunReport) : List (String × Value) :=
  r.analysis.fields ++
    [("root", .str r.root), ("files", .int r.files.length),
     ("issues", .list (r.issues.map GuardedIssue.report))]

/-- A report and the outcome of fixing, if that was asked for. -/
structure RunResult where
  /-- The report. -/
  report : RunReport
  /-- The outcome of fixing. -/
  fixes : Option FixResult
  /-- The prompts that were sent, and what came back. -/
  exchanges : List Exchange
  deriving Repr

/-- The result as named values. -/
def RunResult.summary (r : RunResult) : Value :=
  .table (r.report.fields ++ (r.fixes.map fun f => ("fixes", f.report)).toList)

/-- The issues of an analysis after the guard has looked at them. -/
def Analysis.issues (a : Analysis) (cap : Number) : Outcome (List GuardedIssue) := do
  guardIssues (← aggregateIssues cap a)

namespace Host

/-- Finds the source files under a folder, and analyses what is read of them. -/
def analyzeReading (h : Host) (read : Reader) (visit : Visitors) (s : Settings) (path : String) :
    Logged RunReport := do
  let root ← .of (h.resolve path)
  let found ← .of (h.discover root s.selection)
  .write (found.log root)
  let files := found.records
  .write [.info "coderoast.pipeline" s!"Discovered {files.length} source files under {root}"]
  let run ← .of (analyze s.signalLimits read visit files)
  .write run.log
  let issues ← .of (aggregateIssues s.maxEvidence run.analysis)
  .write (aggregateLog issues)
  let guarded ← .of (guardIssues issues)
  return { root, files, analysis := run.analysis, issues := guarded }

/-- Finds and analyses the source files under a folder. -/
def analyzeFolder (h : Host) (visit : Visitors) (s : Settings) (path : String) :
    Logged RunReport :=
  h.analyzeReading (h.reader (Path.absolute h.workdir path)) visit s path

/-- What a fix works on. -/
def fixScene (h : Host) (visit : Visitors) (s : Settings) (root : String)
    (files : List FileRecord) (before : Analysis) : FixScene :=
  { read := h.reader root, visit, records := files, limits := s.signalLimits, before }

/-- The answers of a generator that is configured but cannot be reached. -/
def unreachable (issues : List GuardedIssue) : List Answer :=
  List.replicate (2 * issues.length) (.error "Connection error.")

/-- The answers that fixing can count on; none at all when there is no generator. -/
def answersFor (s : Settings) (injected : Option (List Answer)) (issues : List GuardedIssue) :
    Option (List Answer) :=
  match injected with
  | some script => some script
  | none => if s.generator.isConfigured then some (unreachable issues) else none

/-- A whole run under a folder; the answers of the generator may be given. -/
def run (h : Host) (visit : Visitors) (s : Settings) (path : String)
    (injected : Option (List Answer)) : Logged RunResult := do
  let report ← h.analyzeFolder visit s path
  if !s.enableFixes.truthy then return { report, fixes := none, exchanges := [] }
  else
    match answersFor s injected report.issues with
    | none =>
      .write [.warning "coderoast.pipeline"
        "Fixes requested but no generator API key is configured; skipping"]
      return { report, fixes := some {}, exchanges := [] }
    | some script =>
      let scene := h.fixScene visit s report.root report.files report.analysis
      let fixed ← runFixes scene s.maxFixes report.issues script
      return { report, fixes := some fixed.result, exchanges := fixed.exchanges }

end Host

end EvidenceLock
