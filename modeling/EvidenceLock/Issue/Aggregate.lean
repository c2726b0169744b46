import EvidenceLock.Issue.Evidence
import EvidenceLock.Log
import EvidenceLock.Signal.Analysis

/-
  Issues from an analysis. Each kind of signal gives at most one issue, whose
  evidence is ranked and cut off at a cap: the longest functions first, the blocks
  with most occurrences first, cycles in the order of the analysis.
-/

namespace EvidenceLock

/-- The first `n` elements; a negative `n` leaves that many off at the end. -/
def takeFirst {α : Type} (n : Int) (xs : List α) : List α :=
  if 0 ≤ n then xs.take n.toNat else xs.take (xs.length - n.natAbs)

/-- Cuts a list off at a cap, which must be a whole number. -/
def cutAt {α : Type} (cap : Number) (xs : List α) : Outcome (List α) :=
  match cap.toInt? with
  | some n => .ok (takeFirst n xs)
  | none => misuse .type "slice indices must be integers or None or have an __index__ method"

/-- A measurement of a number. -/
def countMetric (kind : String) (n : Int) : EvidenceMetric := { kind := .str kind, value := .int n }

/-- Lexicographic comparison with what is left to compare. -/
def orThen (a b : Ordering) : Ordering :=
  match a with
  | .eq => b
  | o => o

/-- Longer functions come first, then the order of the paths, then that of the lines. -/
def functionOrder (a b : FunctionSpan) : Ordering :=
  orThen (compare b.length a.length) (orThen (compare a.file b.file) (compare a.first b.first))

/-- The citation of a long function. -/
def FunctionSpan.citation (s : FunctionSpan) : Citation :=
  { file := s.file, first := s.first, last := s.last, metrics := [countMetric "loc" s.length] }

/-- A block with the first of its occurrences, which must exist. -/
def DuplicateBlock.withFirst (b : DuplicateBlock) : Outcome (DuplicateBlock × Occurrence) :=
  match b.occurrences with
  | o :: _ => .ok (b, o)
  | [] => misuse .index "list index out of range"

/-- Blocks with more occurrences come first, then longer ones, then by their first occurrence. -/
def blockOrder (a b : DuplicateBlock × Occurrence) : Ordering :=
  orThen (compare b.1.occurrences.length a.1.occurrences.length) <|
    orThen (compare b.1.length a.1.length) <|
      orThen (compare a.2.file b.2.file) (compare a.2.first b.2.first)

/-- The citation of an occurrence of a block. -/
def DuplicateBlock.citation (b : DuplicateBlock) (o : Occurrence) : Citation :=
  { file := o.file, first := o.first, last := o.last
    metrics :=
      [{ kind := .str "loc", value := b.shownLength },
       countMetric "count" b.occurrences.length,
       { kind := .str "hash", value := .str b.hash }] }

/-- The elements before the cap is reached. -/
def takeBelow {α : Type} (cap : Number) (xs : List α) : List α :=
  (xs.zipIdx.takeWhile fun (_, i) => !(cap.le (.int i))).map Prod.fst

/-- One citation for each occurrence, from the most repeated blocks down. -/
def duplicateCitations (cap : Number) (blocks : List DuplicateBlock) : Outcome (List Citation) := do
  let ranked := (← blocks.mapM DuplicateBlock.withFirst).mergeSort fun a b =>
    (blockOrder a b).isLE
  .ok <| takeBelow cap <| ranked.flatMap fun (b, _) => b.occurrences.map b.citation

/-- One citation for each of the two files of a cycle. -/
def Cycle.citations (c : Cycle) : List Citation :=
  [{ file := c.source, first := c.forth.1, last := c.forth.2, metrics := [countMetric "count" 2] },
   { file := c.target, first := c.back.1, last := c.back.2, metrics := [countMetric "count" 2] }]

/-- An issue that rests on citations. -/
def Issue.ofCitations (category signal confidence : String) (cs : List Citation) : Issue :=
  { category, signal, confidence, evidence := cs.map Citation.item }

/-- The issue of the long functions. -/
def longFunctionIssue (cap : Number) (spans : List FunctionSpan) : Outcome Issue := do
  let ranked := spans.mergeSort fun a b => (functionOrder a b).isLE
  let cited ← cutAt cap ranked
  .ok (.ofCitations "maintainability" longFunctionSignal "medium"
    (cited.map FunctionSpan.citation))

/-- The issue of the duplicated blocks. -/
def duplicateIssue (cap : Number) (blocks : List DuplicateBlock) : Outcome Issue := do
  .ok (.ofCitations "duplication" duplicateSignal "high" (← duplicateCitations cap blocks))

/-- The issue of the import cycles. -/
def cycleIssue (cap : Number) (cycles : List Cycle) : Outcome Issue := do
  .ok (.ofCitations "architecture" cycleSignal "high"
    (← cutAt cap (cycles.flatMap Cycle.citations)))

/-- The issue of missing tests, which rests on nothing. -/
def missingTestsIssue : Issue := .ofCitations "testing" testSignal "medium" []

/-- The issue that a signal gives when it holds anything. -/
def issueUnlessEmpty {α : Type} (xs : List α) (issue : List α → Outcome Issue) :
    Outcome (List Issue) :=
  if xs.isEmpty then .ok [] else do .ok [← issue xs]

/-- The issues of an analysis, each with evidence up to a cap. -/
def aggregateIssues (cap : Number) (a : Analysis) : Outcome (List Issue) := do
  let long ← issueUnlessEmpty a.signals.longFunctions (longFunctionIssue cap)
  let duplicate ← issueUnlessEmpty a.signals.duplicateBlocks (duplicateIssue cap)
  let cyclic ← issueUnlessEmpty a.signals.cycles (cycleIssue cap)
  .ok (long ++ duplicate ++ cyclic ++ if a.signals.hasTests then [] else [missingTestsIssue])

/-- What is logged about the issues of an analysis. -/
def aggregateLog (issues : List Issue) : Log :=
  [.debug "coderoast.insights.aggregator" s!"Aggregated {issues.length} issues"]

end EvidenceLock
