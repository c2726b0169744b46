import EvidenceLock.Source.Comment
import EvidenceLock.Failure

/-
  The normalized lines of a source file: comments removed, white space collapsed,
  and lines with nothing left dropped. Every line that stays carries its number in
  the file, so the numbers increase.
-/

namespace EvidenceLock

open EvidenceLock.Text

/-- A line and its number in the file. -/
structure NumberedLine where
  /-- The number, counted from 1. -/
  number : Int
  /-- The text. -/
  text : String
  deriving DecidableEq, Repr, Inhabited

/-- A line trimmed and with each run of white space replaced by a space. -/
def normalLine (cs : List Char) : List Char := trim (collapse cs)

/-- The lines that have something left, numbered from `first` on. -/
def numberedLines (first : Int) : List (List Char) → List NumberedLine
  | [] => []
  | l :: rest =>
    let text := normalLine l
    if text.isEmpty then numberedLines (first + 1) rest
    else { number := first, text := String.ofList text } :: numberedLines (first + 1) rest

/-- The normalized lines of a text. -/
def normalizedLines (language : Language) (content : String) : List NumberedLine :=
  numberedLines 1 (splitLines (language.stripComments content.toList))

/-- An import with the lines of the statement it stands in. -/
structure ImportRef where
  /-- What is imported, as written. -/
  specifier : String
  /-- The first line of the statement. -/
  first : Int
  /-- The last line of the statement. -/
  last : Int
  deriving DecidableEq, Repr, Inhabited

/-- The lines and imports of a file, as far as analysis across files needs them. -/
structure NormalizedFile where
  /-- The path of the file. -/
  path : String
  /-- The normalized lines. -/
  lines : List NumberedLine
  /-- The imports in order. -/
  imports : List ImportRef := []
  deriving DecidableEq, Repr, Inhabited

/-- A file from its lines and their numbers, of which there must be equally many. -/
def NormalizedFile.ofLines (path : String) (texts : List String) (numbers : List Int)
    (imports : List ImportRef) : Outcome NormalizedFile :=
  if texts.length ≠ numbers.length then
    misuse .value s!"{path}: {texts.length} lines but {numbers.length} line numbers"
  else
    .ok { path, imports, lines := List.zipWith (fun number text => { number, text }) numbers texts }

/-- The texts of the lines. -/
def NormalizedFile.texts (f : NormalizedFile) : List String := f.lines.map NumberedLine.text

/-- The numbers of the lines. -/
def NormalizedFile.numbers (f : NormalizedFile) : List Int := f.lines.map NumberedLine.number

end EvidenceLock
