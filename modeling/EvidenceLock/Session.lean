import EvidenceLock.Run

/-
  Working on one folder step by step: texts are replaced in an overlay and written
  to disk together, the last two analyses are kept for comparison, and the issues
  of the last one are what patches are checked against. A step that fails leaves
  the session as it was.
-/

namespace EvidenceLock

/-- The state of a working session. -/
structure Session where
  /-- The surroundings. -/
  host : Host
  /-- The folder that is worked on. -/
  root : String
  /-- The settings. -/
  settings : Settings
  /-- How the structure of texts is extracted. -/
  visit : Visitors
  /-- Texts that are not on disk yet. -/
  overlay : Overlay := []
  /-- The last analysis but one. -/
  before : Option Analysis := none
  /-- The last analysis. -/
  after : Option Analysis := none
  /-- The issues. -/
  issues : List GuardedIssue := []

namespace Session

/-- The paths of the overlay in order. -/
def overlayPaths (s : Session) : List String :=
  (Keyed.keys s.overlay).mergeSort fun a b => decide (a ≤ b)

/-- The source files on disk. -/
def records (s : Session) : Outcome (List FileRecord) := do
  .ok (← s.host.discover s.root s.settings.selection).records

/-- How texts are read: the overlay first, then the disk. -/
def read (s : Session) : Reader := (s.host.reader s.root).through s.overlay

/-- Puts a text into the overlay. -/
def set (s : Session) (path text : String) : Session :=
  { s with overlay := s.overlay.insert path text }

/-- Takes a text out of the overlay. -/
def drop (s : Session) (path : String) : Session := { s with overlay := s.overlay.erase path }

/-- Writes bytes to disk. -/
def writeFile (s : Session) (path : String) (bytes : List Nat) : Session :=
  { s with host := s.host.write (Path.resolveUnder s.root path) bytes }

/-- Deletes a file from disk. -/
def delete (s : Session) (path : String) : Session :=
  { s with host := s.host.delete (Path.resolveUnder s.root path) }

/-- Writes the overlay to disk and empties it. -/
def commit (s : Session) : Session :=
  { s.overlay.foldl (fun s (path, text) => s.writeFile path (Text.Utf8.encode text)) s with
    overlay := [] }

/-- Applies a diff to the texts as they are read, and keeps the new texts in the overlay. -/
def patch (s : Session) (diff : String) : Outcome (Session × Overlay) := do
  let patches ← Diff.parse diff
  let changed ← buildOverlay s.read patches
  .ok ({ s with overlay := Keyed.merge s.overlay changed }, changed)

/-- Analyses the files on disk with the overlay. -/
def analyze (s : Session) : Outcome (Session × Analysis) := do
  let run ← EvidenceLock.analyze s.settings.signalLimits s.read s.visit (← s.records)
  .ok ({ s with before := s.after, after := some run.analysis }, run.analysis)

/-- An analysis that must have been made. -/
def made (a : Option Analysis) : Outcome Analysis :=
  match a with
  | some a => .ok a
  | none => misuse .value "no analysis"

/-- Collects the issues of the last analysis. -/
def collect (s : Session) : Outcome (Session × List GuardedIssue) := do
  let issues ← (← made s.after).issues s.settings.maxEvidence
  .ok ({ s with issues }, issues)

/-- The issue with a number, counted from zero. -/
def issue (s : Session) (n : Nat) : Outcome GuardedIssue :=
  match s.issues[n]? with
  | some i => .ok i
  | none => misuse .index "list index out of range"

/-- Checks a diff against the evidence of an issue. -/
def scope (s : Session) (n : Nat) (diff : String) : Outcome Unit := do
  let patches ← Diff.parse diff
  let cited ← citationsOf (← s.issue n).evidence
  checkScope (allowedRanges cited) patches

/-- Compares the last two analyses as far as an issue is concerned. -/
def verify (s : Session) (n : Nat) : Outcome Verdict := do
  let i ← s.issue n
  let before ← made s.before
  let after ← made s.after
  if i.signal = longFunctionSignal then
    let cited ← citationsOf (i.evidence.take 1)
    match cited with
    | [] => misuse .index "list index out of range"
    | c :: _ => .ok (verifyLongFunction before after c s.settings.thresholds.longFunction)
  else .ok (verifyDuplicates before after)

/-- Attempts fixes for the issues, on the files on disk. -/
def fix (s : Session) (script : List Answer) : Outcome FixRun := do
  let records ← s.records
  let scene := s.host.fixScene s.visit s.settings s.root records (← made s.after)
  (runFixes scene s.settings.maxFixes s.issues script).result

end Session

end EvidenceLock
