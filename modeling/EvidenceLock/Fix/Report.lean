import EvidenceLock.Fix.Run
import EvidenceLock.Signal.Report

/-
  The outcome of fixing as named values, in the order in which they are written.
-/

namespace EvidenceLock

/-- The suggestion as named values, the compared numbers only if there are any. -/
def Suggestion.report (s : Suggestion) : Value :=
  .table <|
    [("issueId", .int s.id), ("issueType", .str s.category), ("signal", .str s.signal),
     ("files", .list (s.files.map Value.str)), ("patch", .str s.patch),
     ("verified", .bool s.verified), ("verificationMessage", .str s.message)] ++
    (s.details.map fun d => ("verificationDetails", .str d)).toList

/-- The difference of two means, rounded to two decimals unless both are whole. -/
def meanDifference (before after : Number) : Number :=
  match before.toInt?, after.toInt? with
  | some b, some a => .int (a - b)
  | _, _ => .float (Decimal.roundTo 2 (after.toFloat - before.toFloat))

/-- What changed between two measurements. -/
def Metrics.delta (before after : Metrics) : Metrics :=
  { maxLength := after.maxLength - before.maxLength
    averageLength := meanDifference before.averageLength after.averageLength
    duplicateBlocks := after.duplicateBlocks - before.duplicateBlocks
    functions := after.functions - before.functions }

/-- What changed with a fix. -/
def FixPreview.delta (p : FixPreview) : Metrics := p.before.delta p.after

/-- The preview as named values. -/
def FixPreview.report (p : FixPreview) : Value :=
  .table
    [("issueId", .int p.id), ("before", p.before.report), ("after", p.after.report),
     ("delta", p.delta.report)]

/-- The outcome as named values, the preview only if there is one. -/
def FixResult.report (r : FixResult) : Value :=
  .table <|
    ("suggestions", .list (r.suggestions.map Suggestion.report)) ::
    (r.preview.map fun p => ("previewSummary", p.report)).toList

end EvidenceLock
