import EvidenceLock.Settings.Basic
import EvidenceLock.Signal.Analysis
import EvidenceLock.Source.Discovery

/-
  What the settings mean for the search for files and for the analysis. A setting
  that passed its rules can still be of a kind that cannot be used; that shows
  only when it is needed.
-/

namespace EvidenceLock

/-- The whole number that counts lines. -/
def Number.lineCount (n : Number) : Outcome Nat :=
  match n.toInt? with
  | some i => .ok i.toNat
  | none => misuse .type "'float' object cannot be interpreted as an integer"

/-- The number is a flag. -/
def Number.isFlag : Number → Bool
  | .flag _ => true
  | _ => false

/-- The limits of duplicated blocks. -/
def Thresholds.blockLimits (t : Thresholds) : Outcome BlockLimits := do
  let window ← t.minLines.lineCount
  .ok {
    window
    mayGrow := fun n => Number.lt (.int n) t.maxLines
    few := fun n => Number.lt (.int n) t.minOccurrences
    enough := fun n => Number.le t.minOccurrences (.int n)
    flagged := t.minLines.isFlag }

/-- The limits of the analysis. -/
def Settings.signalLimits (s : Settings) : SignalLimits :=
  { longFunction := s.thresholds.longFunction, blocks := s.thresholds.blockLimits }

/-- The names among the elements of a list, none of which may be a list or a table. -/
def namesAmong : List Value → Outcome (List String)
  | [] => .ok []
  | v :: rest =>
    match v with
    | .list _ | .table _ => misuse .type s!"unhashable type: '{v.typeName}'"
    | .str s => do .ok (s :: (← namesAmong rest))
    | _ => namesAmong rest

/-- The names that a value lists: those of a list, the characters of a text, the keys of a table. -/
def namesListed (v : Value) : Outcome (List String) :=
  match v with
  | .list items => namesAmong items
  | .str s => .ok (s.toList.map String.singleton)
  | .table fields => .ok (fields.map Prod.fst)
  | v => misuse .type s!"'{v.typeName}' object is not iterable"

/-- Which files are looked at. -/
def Settings.selection (s : Settings) : Outcome Selection := do
  .ok {
    excluded := ← namesListed s.excluded
    hidden := s.hidden.truthy
    sizeLimit := s.maxFileBytes }

end EvidenceLock
