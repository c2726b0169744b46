import EvidenceLock.Decimal.Reading
import EvidenceLock.Log
import EvidenceLock.Patch.Basic
import EvidenceLock.Text.Lines

/-
  Reading unified diffs from untrusted text. Outside of hunks everything counts as
  talk except pairs of file headers and hunk headers. Inside a hunk the marker of a
  line decides, and the header says how many lines are still expected: as long as
  some are, an empty line is an empty context line. A pair of file headers always
  starts the next file.
-/

namespace EvidenceLock.Diff

open EvidenceLock.Text EvidenceLock.Decimal

/-- A line as characters. -/
abbrev Line := List Char

/-- The start of an old-file header. -/
def oldMark : Line := ['-', '-', '-', ' ']

/-- The start of a new-file header. -/
def newMark : Line := ['+', '+', '+', ' ']

/-- The start of a hunk header. -/
def hunkMark : Line := ['@', '@']

/-- The path that a header names: what follows a tab and white space around it are left out, and one
of the leading folders `a/` and `b/`. -/
def headerPath (cs : Line) : String :=
  let cleaned := trim (cs.takeWhile (· != '\t'))
  if cleaned = noFile.toList then noFile
  else if startsWith cleaned ['a', '/'] || startsWith cleaned ['b', '/'] then
    String.ofList (cleaned.drop 2)
  else String.ofList cleaned

/-- The digits at the start of a text, at least one, and what follows. -/
def digits? (cs : Line) : Option (Line × Line) :=
  let ds := cs.takeWhile isDigit
  if ds.isEmpty then none else some (ds, cs.drop ds.length)

/-- What follows the given characters at the start of a text. -/
def after? (start cs : Line) : Option Line :=
  if startsWith cs start then some (cs.drop start.length) else none

/-- A start and an optional count, as digits, and what follows. -/
def range? (cs : Line) : Option (Line × Option Line × Line) := do
  let (start, rest) ← digits? cs
  match rest with
  | ',' :: rest =>
    let (count, rest) ← digits? rest
    some (start, some count, rest)
  | _ => some (start, none, rest)

/-- The parts of a hunk header: the two ranges as digits, and the text after it. -/
def headerParts? (cs : Line) : Option ((Line × Option Line) × (Line × Option Line) × Line) := do
  let cs ← after? ['@', '@', ' ', '-'] cs
  let (oldStart, oldCount, cs) ← range? cs
  let cs ← after? [' ', '+'] cs
  let (newStart, newCount, cs) ← range? cs
  let cs ← after? [' ', '@', '@'] cs
  if cs.contains '\n' then none else some ((oldStart, oldCount), (newStart, newCount), cs)

/-- The number that digits write. -/
def numberOf (ds : Line) : Outcome Int :=
  match naturalOfDigits ds with
  | .ok n => .ok n
  | .error (.tooLong n) => misuse .value (tooLongMessage n)
  | .error .malformed => .ok 0

/-- The number that digits write; one without digits. -/
def countOf (ds : Option Line) : Outcome Int :=
  match ds with
  | some ds => numberOf ds
  | none => .ok 1

/-- Reads a hunk header; the line number is for the report of a malformed one. -/
def hunkOfHeader (line : Line) (number : Option Int) : Outcome Hunk :=
  match headerParts? (trimEnd line) with
  | none => fail (.malformedHunk (String.ofList line) number)
  | some ((oldStart, oldCount), (newStart, newCount), rest) => do
    let oldStart ← numberOf oldStart
    let oldCount ← countOf oldCount
    let newStart ← numberOf newStart
    let newCount ← countOf newCount
    .ok { oldStart, oldCount, newStart, newCount, section_ := String.ofList (trim rest) }

/-- The path of the new-file header that completes an old-file header, and the number of lines
before it, which may only be blank or index lines. -/
def newHeader? : List Line → Option (String × Nat)
  | [] => none
  | line :: rest =>
    if startsWith line newMark then some (headerPath (line.drop 4), 0)
    else if !allBlank line && !startsWith line "index ".toList then none
    else (newHeader? rest).map fun (path, n) => (path, n + 1)

/-- The lines start with a pair of file headers. -/
def startsFile (line : Line) (rest : List Line) : Bool :=
  startsWith line oldMark && (newHeader? rest).isSome

/-- What a line is to an open hunk. -/
inductive Role where
  /-- It belongs to the hunk. -/
  | body (l : HunkLine)
  /-- It is a remark and belongs to no side. -/
  | remark
  /-- It ends the hunk. -/
  | closing
  deriving DecidableEq, Repr

/-- The role of a line in an open hunk; `expecting` says that the header announced more lines. -/
def roleOf (expecting : Bool) (line : Line) (rest : List Line) : Role :=
  if startsWith line ['\\'] then .remark
  else if startsFile line rest then .closing
  else if startsWith line hunkMark then .closing
  else
    match line with
    | ' ' :: text => .body { kind := .context, text := String.ofList text }
    | '-' :: text => .body { kind := .remove, text := String.ofList text }
    | '+' :: text => .body { kind := .add, text := String.ofList text }
    | [] => if expecting then .body { kind := .context, text := "" } else .closing
    | _ => .closing

/-- How many old and new lines a hunk still expects. -/
structure Expected where
  /-- Lines of the old file. -/
  old : Int
  /-- Lines of the new file. -/
  new : Int
  deriving DecidableEq, Repr

namespace Expected

/-- More lines are expected. -/
def any (e : Expected) : Bool := decide (0 < e.old) || decide (0 < e.new)

/-- What is expected after a line. -/
def after (e : Expected) : LineKind → Expected
  | .context => { old := e.old - 1, new := e.new - 1 }
  | .remove => { e with old := e.old - 1 }
  | .add => { e with new := e.new - 1 }

end Expected

/-- What has been read so far. Patches, their hunks and the lines of hunks are kept last first. -/
structure Progress where
  /-- The patches. -/
  patches : List FilePatch := []
  /-- What the open hunk still expects; nothing when no hunk is open. -/
  expected : Option Expected := none
  deriving DecidableEq, Repr, Inhabited

namespace Progress

/-- Adds a line to the open hunk. -/
def addLine (p : Progress) (l : HunkLine) : Progress :=
  { patches :=
      match p.patches with
      | { file, oldPath, newPath, hunks := h :: hs } :: rest =>
        { file, oldPath, newPath, hunks := { h with lines := l :: h.lines } :: hs } :: rest
      | ps => ps
    expected := p.expected.map (·.after l.kind) }

/-- Starts the patch of a file. -/
def addFile (p : Progress) (oldPath newPath : String) : Progress :=
  { patches := .ofHeaders oldPath newPath :: p.patches, expected := none }

/-- Starts a hunk of the current file; nothing when there is no file. -/
def addHunk? (p : Progress) (h : Hunk) : Option Progress :=
  match p.patches with
  | [] => none
  | f :: rest =>
    some {
      patches := { f with hunks := h :: f.hunks } :: rest
      expected := some { old := h.oldCount, new := h.newCount } }

/-- No hunk is open. -/
def close (p : Progress) : Progress := { p with expected := none }

/-- The patches in reading order. -/
def result (p : Progress) : List FilePatch :=
  p.patches.reverse.map fun f =>
    { f with hunks := f.hunks.reverse.map fun h => { h with lines := h.lines.reverse } }

end Progress

/-- Reads a line outside of hunks; also says how many of the next lines it takes along. -/
def readOutside (p : Progress) (number : Int) (line : Line) (rest : List Line) :
    Outcome (Progress × Nat) :=
  if startsWith line oldMark then
    match newHeader? rest with
    | none => fail (.unpairedHeader number)
    | some (newPath, n) => .ok (p.addFile (headerPath (line.drop 4)) newPath, n + 1)
  else if startsWith line hunkMark then
    if p.patches.isEmpty then fail (.homelessHunk number)
    else
      match hunkOfHeader line number with
      | .error e => .error e
      | .ok h => .ok ((p.addHunk? h).getD p, 0)
  else .ok (p, 0)

/-- Reads a line; also says how many of the next lines it takes along. -/
def readLine (p : Progress) (number : Int) (line : Line) (rest : List Line) :
    Outcome (Progress × Nat) :=
  match p.expected with
  | none => readOutside p number line rest
  | some e =>
    match roleOf e.any line rest with
    | .body l => .ok (p.addLine l, 0)
    | .remark => .ok (p, 0)
    | .closing => readOutside p.close number line rest

/-- Reads lines from a line number on; the first `skip` of them have been taken along before. -/
def readLines (p : Progress) (number : Int) (skip : Nat) : List Line → Outcome Progress
  | [] => .ok p
  | line :: rest =>
    match skip with
    | skip + 1 => readLines p (number + 1) skip rest
    | 0 =>
      match readLine p number line rest with
      | .error e => .error e
      | .ok (p, taken) => readLines p (number + 1) taken rest

/-- The lines without blank ones at the end. -/
def dropBlankEnd (ls : List Line) : List Line := (ls.reverse.dropWhile allBlank).reverse

/-- The lines of a diff text that matter. -/
def linesOf (text : String) : List Line := dropBlankEnd (splitLines text.toList)

/-- Refuses a list of patches that is empty or changes nothing. -/
def checked (ps : List FilePatch) : Outcome (List FilePatch) :=
  if ps.isEmpty then fail .emptyPatch
  else if ps.any fun p => p.hunks.any Hunk.changes then .ok ps
  else fail .noChanges

/-- Reads a diff. -/
def parse (text : String) : Outcome (List FilePatch) := do
  checked (← readLines {} 1 0 (linesOf text)).result

/-- What is logged about a diff that was read. -/
def parseLog (ps : List FilePatch) : Log :=
  let hunks := ps.foldl (fun n p => n + p.hunks.length) 0
  [.debug "coderoast.fixes.diff_parser" s!"Parsed diff: {ps.length} files, {hunks} hunks"]

end EvidenceLock.Diff
