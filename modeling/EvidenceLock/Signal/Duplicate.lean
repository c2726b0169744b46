import EvidenceLock.Digest.Sha1
import EvidenceLock.Keyed
import EvidenceLock.Source.Normalized

/-
  Duplicated blocks of normalized lines. Windows of a fixed number of lines are
  grouped by their text; a group that is large enough is extended line by line
  while all its members agree; groups with the same extended text are merged, and
  a block whose occurrences all lie inside those of another is dropped.
-/

namespace EvidenceLock

/-- One place where a block appears. -/
structure Occurrence where
  /-- The path of the file. -/
  file : String
  /-- The number of the first line. -/
  first : Int
  /-- The number of the last line. -/
  last : Int
  deriving DecidableEq, Repr, Inhabited

/-- A run of normalized lines that appears at several places. -/
structure DuplicateBlock where
  /-- A short label of the text. -/
  hash : String
  /-- The number of normalized lines. -/
  length : Int
  /-- The places, without repetition. -/
  occurrences : List Occurrence
  /-- The length was given as a flag, and is shown as one. -/
  flagged : Bool := false
  deriving DecidableEq, Repr, Inhabited

/-- The length as it is shown. -/
def DuplicateBlock.shownLength (b : DuplicateBlock) : Value :=
  if b.flagged then .bool true else .int b.length

/-- The label of a text: the first twelve digits of its digest. -/
def fingerprint (text : String) : String := String.ofList ((Digest.Sha1.hexDigest text).take 12)

/-- How long a block is at least and may become, and how often it has to appear. -/
structure BlockLimits where
  /-- The number of lines of a window, and the least length of a block. -/
  window : Nat
  /-- A block of this length may still grow. -/
  mayGrow : Nat → Bool
  /-- A window that appears so often is passed over. -/
  few : Nat → Bool
  /-- This many occurrences are enough for a block. -/
  enough : Nat → Bool
  /-- The number of lines of a window is given as a flag. -/
  flagged : Bool := false

/-- Limits given by whole numbers. -/
def BlockLimits.of (minLines maxLines minOccurrences : Nat) : BlockLimits :=
  { window := minLines
    mayGrow := fun n => decide (n < maxLines)
    few := fun n => decide (n < minOccurrences)
    enough := fun n => decide (minOccurrences ≤ n) }

/-- A place in a file: its path, and the index of a normalized line. -/
abbrev Position := String × Nat

/-- The text of a list of lines. -/
def blockText (lines : List String) : String := Text.joinLines lines

/-- What a list becomes as its elements are taken off one by one, itself first and nothing last. -/
def suffixes {α : Type} : List α → List (List α)
  | [] => [[]]
  | a :: rest => (a :: rest) :: suffixes rest

/-- The text of every window of a list of lines, with the index of its first line. -/
def windowTexts (window : Nat) (lines : List String) : List (Nat × String) :=
  (List.range (lines.length + 1 - window)).zip
    ((suffixes lines).map fun rest => blockText (rest.take window))

/-- The positions of each window text, texts and positions in order of appearance. -/
def windowGroups (window : Nat) (files : List NormalizedFile) : Keyed String (List Position) :=
  files.foldl
    (fun groups f =>
      (windowTexts window f.texts).foldl
        (fun groups (start, text) => groups.push text (f.path, start)) groups)
    []

/-- The lines of the last file with a path. -/
def linesAt (files : List NormalizedFile) (path : String) : List NumberedLine :=
  ((files.reverse.find? fun f => f.path == path).map NormalizedFile.lines).getD []

/-- The line `offset` lines after a position. -/
def lineAfter? (files : List NormalizedFile) (p : Position) (offset : Nat) : Option NumberedLine :=
  (linesAt files p.1)[p.2 + offset]?

/-- Grows a length while it may grow and all positions are followed by the same line. -/
def grow (files : List NormalizedFile) (limits : BlockLimits) (base : Position)
    (others : List Position) : (fuel : Nat) → (length : Nat) → Nat
  | 0, length => length
  | fuel + 1, length =>
    if limits.mayGrow length then
      match lineAfter? files base length with
      | none => length
      | some line =>
        if others.all fun p => (lineAfter? files p length).map NumberedLine.text == some line.text
        then grow files limits base others fuel (length + 1)
        else length
    else length

/-- The number of a line of a position, which must exist. -/
def numberAt (files : List NormalizedFile) (p : Position) (offset : Nat) : Outcome Int :=
  match lineAfter? files p offset with
  | some line => .ok line.number
  | none => misuse .index "list index out of range"

/-- The place of a block of a given length at a position. -/
def occurrenceAt (files : List NormalizedFile) (length : Nat) (p : Position) :
    Outcome Occurrence := do
  let first ← numberAt files p 0
  let last ← numberAt files p (length - 1)
  .ok { file := p.1, first, last }

/-- The extended length, text and places of a group of positions. -/
def extendGroup (files : List NormalizedFile) (limits : BlockLimits) (base : Position)
    (others : List Position) : Outcome (Nat × String × List Occurrence) := do
  let lines := linesAt files base.1
  let length := grow files limits base others lines.length limits.window
  let text := blockText (((lines.drop base.2).take length).map NumberedLine.text)
  let places ← (base :: others).mapM (occurrenceAt files length)
  .ok (length, text, places)

/-- A list with elements added that it does not hold yet. -/
def addNew {α : Type} [BEq α] (xs ys : List α) : List α :=
  ys.foldl (fun xs y => if xs.contains y then xs else xs ++ [y]) xs

/-- The extended groups that are not too small, merged by text; the first group of a text gives its
length. -/
def mergedGroups (files : List NormalizedFile) (limits : BlockLimits) :
    Outcome (Keyed String (Nat × List Occurrence)) :=
  (windowGroups limits.window files).foldlM
    (fun merged (_, positions) =>
      match positions with
      | [] => .ok merged
      | base :: others =>
        if limits.few positions.length then .ok merged
        else do
          let (length, text, places) ← extendGroup files limits base others
          .ok (merged.alter text fun old =>
            match old with
            | some (n, known) => (n, addNew known places)
            | none => (length, addNew [] places)))
    []

/-- A place lies inside another. -/
def Occurrence.inside (inner outer : Occurrence) : Bool :=
  outer.file == inner.file && decide (outer.first ≤ inner.first) &&
    decide (inner.last ≤ outer.last)

/-- Every occurrence of `small` lies inside one of `large`, which has at least as many. -/
def DuplicateBlock.coveredBy (small large : DuplicateBlock) : Bool :=
  decide (small.occurrences.length ≤ large.occurrences.length) &&
    small.occurrences.all fun inner => large.occurrences.any fun outer => inner.inside outer

/-- The blocks that no other block of the list covers. -/
def dropCovered (blocks : List DuplicateBlock) : List DuplicateBlock :=
  let numbered := blocks.zipIdx
  (numbered.filter fun (b, i) =>
    !(numbered.any fun (c, j) => i != j && b.coveredBy c)).map Prod.fst

/-- The blocks before covered ones are dropped. -/
def candidateBlocks (files : List NormalizedFile) (limits : BlockLimits) :
    Outcome (List DuplicateBlock) := do
  let merged ← mergedGroups files limits
  -- A block that has not grown keeps the length that was given.
  let blocks := merged.map fun (text, length, places) =>
    { hash := fingerprint text, length := (length : Int), occurrences := places
      flagged := limits.flagged && length == limits.window : DuplicateBlock }
  .ok (blocks.filter fun b => limits.enough b.occurrences.length)

/-- The duplicated blocks of a list of files. -/
def duplicateBlocks (files : List NormalizedFile) (limits : BlockLimits) :
    Outcome (List DuplicateBlock) := do
  .ok (dropCovered (← candidateBlocks files limits))

end EvidenceLock
