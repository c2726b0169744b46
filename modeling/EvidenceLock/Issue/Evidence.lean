import EvidenceLock.Failure

/-
  Evidence and the issues that rest on it. An evidence item comes as it is given:
  each of its parts may be any value, and only the guard decides whether it names
  a place. A citation is an item that does.
-/

namespace EvidenceLock

/-- A measurement that an item carries. -/
structure EvidenceMetric where
  /-- What is measured. -/
  kind : Value
  /-- The measured value. -/
  value : Value
  deriving Repr, Inhabited

/-- A place given as evidence, not yet checked. -/
structure EvidenceItem where
  /-- The path of the file. -/
  file : Value := .null
  /-- The number of the first line. -/
  first : Value := .null
  /-- The number of the last line. -/
  last : Value := .null
  /-- The measurements, if there is a list of them. -/
  metrics : Option (List EvidenceMetric) := some []
  deriving Repr, Inhabited

/-- A place in a file: the lines from `first` to `last`, with measurements. -/
structure Citation where
  /-- The path of the file. -/
  file : String
  /-- The number of the first line. -/
  first : Int
  /-- The number of the last line. -/
  last : Int
  /-- The measurements. -/
  metrics : List EvidenceMetric := []
  deriving Repr, Inhabited

/-- A citation as an evidence item. -/
def Citation.item (c : Citation) : EvidenceItem :=
  { file := .str c.file, first := .int c.first, last := .int c.last, metrics := some c.metrics }

namespace EvidenceItem

/-- The place that an item names: a file, and two line numbers. -/
def citation? (i : EvidenceItem) : Option Citation :=
  match i.file, i.first, i.last with
  | .str file, .int first, .int last =>
    some { file, first, last, metrics := i.metrics.getD [] }
  | _, _, _ => none

/-- The value of the first measurement of a kind. -/
def metric? (i : EvidenceItem) (kind : String) : Option Value :=
  ((i.metrics.getD []).find? fun m => m.kind == .str kind).map EvidenceMetric.value

/-- The item as named values. -/
def report (i : EvidenceItem) : Value :=
  .table
    [("file", i.file), ("startLine", i.first), ("endLine", i.last),
     ("metrics", .list ((i.metrics.getD []).map fun m =>
        .table [("type", m.kind), ("value", m.value)]))]

end EvidenceItem

/-- The name of the signal of long functions. -/
def longFunctionSignal : String := "longFunctions"

/-- The name of the signal of duplicated blocks. -/
def duplicateSignal : String := "duplicateBlocks"

/-- The name of the signal of import cycles. -/
def cycleSignal : String := "circularDependencies"

/-- The name of the signal of missing tests. -/
def testSignal : String := "testPresence"

/-- Something worth attention, with the places it rests on. -/
structure Issue where
  /-- What kind of issue it is. -/
  category : String
  /-- The signal it comes from. -/
  signal : String
  /-- How sure it is. -/
  confidence : String
  /-- The places it rests on. -/
  evidence : List EvidenceItem
  deriving Repr, Inhabited

/-- An issue after the guard has looked at its evidence. -/
structure GuardedIssue extends Issue where
  /-- The evidence is complete. -/
  complete : Bool
  /-- What the evidence lacks. -/
  lack : Option String
  deriving Repr, Inhabited

/-- The parts of an issue by name. -/
def Issue.fields (i : Issue) : List (String × Value) :=
  [("type", .str i.category), ("signal", .str i.signal), ("confidence", .str i.confidence),
   ("evidence", .list (i.evidence.map EvidenceItem.report))]

/-- The issue as named values. -/
def Issue.report (i : Issue) : Value := .table i.fields

/-- The issue as named values, what is lacking only if there is something. -/
def GuardedIssue.report (i : GuardedIssue) : Value :=
  .table <| i.toIssue.fields ++ ("evidenceComplete", .bool i.complete) ::
    (match i.lack with
     | some reason => [("missingEvidenceReason", .str reason)]
     | none => [])

/-- Reports an issue, every item of which must have a list of measurements. -/
def GuardedIssue.report? (i : GuardedIssue) : Outcome Value :=
  if i.evidence.any fun item => item.metrics.isNone then
    misuse .type "'NoneType' object is not iterable"
  else .ok i.report

end EvidenceLock
