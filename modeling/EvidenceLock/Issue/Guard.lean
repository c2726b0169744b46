import EvidenceLock.Issue.Evidence

/-
  The evidence guard. The rules are checked item by item in order, and the first
  one that fails is what the evidence lacks; an issue without a lack is complete,
  and nothing later may act on any other.
-/

namespace EvidenceLock

/-- What evidence can lack. -/
inductive Lack where
  /-- There is no item. -/
  | items
  /-- An item names no file. -/
  | file
  /-- An item has no first or no last line. -/
  | range
  /-- The lines of an item are not positive integers in order. -/
  | validRange
  /-- An item has no measurement. -/
  | metrics
  /-- A measurement has no kind or an unusable value. -/
  | validMetric
  deriving DecidableEq, Repr

/-- A lack in words. -/
def Lack.reason : Lack → String
  | .items => "no evidence items provided"
  | .file => "evidence item missing file path"
  | .range => "evidence item missing line range"
  | .validRange => "evidence item line range is invalid"
  | .metrics => "evidence item missing metrics"
  | .validMetric => "evidence item has invalid metric"

namespace Value

/-- A text that is not all white space. -/
def isInk : Value → Bool
  | .str s => Text.hasInk s
  | _ => false

/-- There is no value. -/
def isNull : Value → Bool
  | .null => true
  | _ => false

/-- The positive integer that a value is. -/
def line? : Value → Option Int
  | .int i => if 0 < i then some i else none
  | _ => none

/-- A finite number that is not negative, or a text that is not all white space. Integers beyond the
range of doubles cannot be told finite. -/
def isMeasure (v : Value) : Outcome Bool :=
  match v with
  | .int i =>
    if Decimal.nearestBits i.natAbs 1 = Decimal.infinityBits then
      misuse .overflow "int too large to convert to float"
    else .ok (decide (0 ≤ i))
  | .float x =>
    match Decimal.Binary.ofFloat x with
    | .finite .. => .ok (decide (0.0 ≤ x))
    | _ => .ok false
  | v => .ok v.isInk

end Value

/-- The first metric of a list that is not usable. -/
def metricsLack : List EvidenceMetric → Outcome (Option Lack)
  | [] => .ok none
  | m :: rest => do
    if !m.kind.isInk then .ok (some .validMetric)
    else if !(← m.value.isMeasure) then .ok (some .validMetric)
    else metricsLack rest

/-- What an item lacks. -/
def EvidenceItem.lack (i : EvidenceItem) : Outcome (Option Lack) :=
  if !i.file.isInk then .ok (some .file)
  else if i.first.isNull || i.last.isNull then .ok (some .range)
  else
    match i.first.line?, i.last.line? with
    | some first, some last =>
      if last < first then .ok (some .validRange)
      else
        match i.metrics with
        | none | some [] => .ok (some .metrics)
        | some ms => metricsLack ms
    | _, _ => .ok (some .validRange)

/-- What the first item of a list lacks that lacks anything. -/
def itemsLack : List EvidenceItem → Outcome (Option Lack)
  | [] => .ok none
  | i :: rest => do
    match ← i.lack with
    | some l => .ok (some l)
    | none => itemsLack rest

/-- What the evidence of an issue lacks. -/
def Issue.lack (i : Issue) : Outcome (Option Lack) :=
  if i.evidence.isEmpty then .ok (some .items) else itemsLack i.evidence

/-- The issue with the verdict of the guard. -/
def Issue.guarded (i : Issue) : Outcome GuardedIssue := do
  let lack ← i.lack
  .ok { i with complete := lack.isNone, lack := lack.map Lack.reason }

/-- Every issue with the verdict of the guard, in order. -/
def guardIssues (is : List Issue) : Outcome (List GuardedIssue) := is.mapM Issue.guarded

end EvidenceLock
