import EvidenceLock.Decimal.Reading
import EvidenceLock.Failure

/-
  Patches: for each file the hunks that change it, and for each hunk its place in
  the old and the new file and its lines.
-/

namespace EvidenceLock

/-- The digits of an integer that an answer may have made as large as it likes. -/
def written (i : Int) : Outcome String :=
  if Decimal.writable i then .ok (toString i) else misuse .value Decimal.unwritableMessage

/-- What a line of a hunk does. -/
inductive LineKind where
  /-- The line stays. -/
  | context
  /-- The line is new. -/
  | add
  /-- The line goes. -/
  | remove
  deriving DecidableEq, Repr, Inhabited

/-- The character that marks a kind of line in a diff. -/
def LineKind.marker : LineKind → Char
  | .context => ' '
  | .add => '+'
  | .remove => '-'

/-- The name of a kind of line. -/
def LineKind.name : LineKind → String
  | .context => "context"
  | .add => "add"
  | .remove => "remove"

/-- A line of a hunk, without its marker. -/
structure HunkLine where
  /-- What the line does. -/
  kind : LineKind
  /-- The text. -/
  text : String
  deriving DecidableEq, Repr, Inhabited

/-- One changed stretch of a file. -/
structure Hunk where
  /-- The first line in the old file. -/
  oldStart : Int
  /-- The number of lines in the old file. -/
  oldCount : Int
  /-- The first line in the new file. -/
  newStart : Int
  /-- The number of lines in the new file. -/
  newCount : Int
  /-- The lines. -/
  lines : List HunkLine := []
  /-- What is said after the header. -/
  section_ : String := ""
  deriving DecidableEq, Repr, Inhabited

/-- The hunk adds or removes a line. -/
def Hunk.changes (h : Hunk) : Bool := h.lines.any fun l => l.kind != .context

/-- The path that stands for no file. -/
def noFile : String := "/dev/null"

/-- The changes of one file. -/
structure FilePatch where
  /-- The path of the file. -/
  file : String
  /-- The path in the old header. -/
  oldPath : String
  /-- The path in the new header. -/
  newPath : String
  /-- The hunks in order. -/
  hunks : List Hunk := []
  deriving DecidableEq, Repr, Inhabited

/-- A patch without hunks, whose file is that of the new header unless that is no file. -/
def FilePatch.ofHeaders (oldPath newPath : String) : FilePatch :=
  { file := if newPath = noFile then oldPath else newPath, oldPath, newPath }

end EvidenceLock
