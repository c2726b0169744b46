import EvidenceLock.Issue.Evidence
import EvidenceLock.Keyed
import EvidenceLock.Patch.Basic

/-
  The scope of a patch. Only files that are cited may be touched, and in them only
  lines within the cited ranges: a removed line must lie in one, and so must the
  old line before which a new line is put.
-/

namespace EvidenceLock

/-- For each file the ranges of lines that may change. -/
abbrev AllowedRanges := Keyed String (List (Int × Int))

/-- The cited ranges by file, files in the order in which they are first cited. -/
def allowedRanges (cs : List Citation) : AllowedRanges :=
  cs.foldl (fun ranges c => ranges.push c.file (c.first, c.last)) []

/-- A line lies in one of the ranges. -/
def inRanges (line : Int) (ranges : List (Int × Int)) : Bool :=
  ranges.any fun (first, last) => decide (first ≤ line) && decide (line ≤ last)

/-- Refuses an edit at a line, whose number is part of what is said. -/
def refuseEdit (file : String) (line : Int) (message : (number : String) → String) :
    Outcome Unit := do
  let number ← written line
  fail (.outOfScope (message number) file line)

/-- Checks the lines of a hunk; `cursor` is the number of the next old line. -/
def checkLines (file : String) (ranges : List (Int × Int)) (cursor : Int) :
    List HunkLine → Outcome Unit
  | [] => .ok ()
  | l :: ls =>
    match l.kind with
    | .context => checkLines file ranges (cursor + 1) ls
    | .remove =>
      if inRanges cursor ranges then checkLines file ranges (cursor + 1) ls
      else
        refuseEdit file cursor fun number =>
          s!"Patch removes line {number} outside evidence in {file}"
    | .add =>
      if inRanges cursor ranges then checkLines file ranges cursor ls
      else
        refuseEdit file cursor fun number =>
          s!"Patch adds line outside evidence near {number} in {file}"

/-- Checks the hunks of a patch. -/
def checkHunks (file : String) (ranges : List (Int × Int)) : List Hunk → Outcome Unit
  | [] => .ok ()
  | h :: hs => do
    checkLines file ranges h.oldStart h.lines
    checkHunks file ranges hs

/-- Checks the patch of a file. -/
def FilePatch.checkScope (allowed : AllowedRanges) (p : FilePatch) : Outcome Unit :=
  match allowed.find? p.file with
  | none | some [] =>
    fail (.outOfScope s!"Patch touches file outside evidence: {p.file}" p.file none)
  | some ranges => checkHunks p.file ranges p.hunks

/-- Refuses the patches at the first edit that is out of scope. -/
def checkScope (allowed : AllowedRanges) : List FilePatch → Outcome Unit
  | [] => .ok ()
  | p :: ps => do
    p.checkScope allowed
    checkScope allowed ps

end EvidenceLock
