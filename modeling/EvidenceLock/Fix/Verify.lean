import EvidenceLock.Issue.Evidence
import EvidenceLock.Signal.Analysis

/-
  Deciding whether a patch helped, by comparing the analysis before with the
  analysis after: the longest long function in the cited range has become shorter,
  or there are fewer duplicated blocks.
-/

namespace EvidenceLock

/-- The verdict on a patch. -/
structure Verdict where
  /-- The patch helped. -/
  ok : Bool
  /-- The verdict in words. -/
  message : String
  /-- The compared numbers. -/
  details : Option String := none
  deriving DecidableEq, Repr, Inhabited

/-- The longest long function in the cited range is gone or has become shorter. Where there was none
before, the citation does not fit the analysis, and nothing is verified. -/
def verifyLongFunction (before after : Analysis) (c : Citation) (threshold : Number) : Verdict :=
  let old := maxInRange before.signals.longFunctions c.file c.first c.last
  let new := maxInRange after.signals.longFunctions c.file c.first c.last
  if old = 0 then { ok := false, message := "No long function found in evidence range." }
  else
    let label := if new = 0 then s!"< {threshold.text}" else toString new
    let details := some s!"longFunctionLength: {old} -> {label}"
    if new = 0 ∨ new < old then { ok := true, message := "Long function length reduced.", details }
    else { ok := false, message := "Long function length did not improve.", details }

/-- There are fewer duplicated blocks. -/
def verifyDuplicates (before after : Analysis) : Verdict :=
  let old := before.metrics.duplicateBlocks
  let new := after.metrics.duplicateBlocks
  let details := some s!"duplicateBlocks: {old} -> {new}"
  if new < old then { ok := true, message := "Duplicate blocks reduced.", details }
  else { ok := false, message := "Duplicate blocks did not improve.", details }

end EvidenceLock
