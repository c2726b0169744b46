/-
  Line splitting. A line ends at a line feed, or at a carriage return directly
  followed by one; a lone carriage return is an ordinary character. A text with
  `n` line feeds has `n + 1` lines, so a final line feed leaves an empty last line.
  Everything that speaks of line numbers counts these lines from 1.
-/

namespace EvidenceLock.Text

/-- The lines of a text. -/
def splitLines (cs : List Char) : List (List Char) := go [] cs
where
  /-- `line` is the current line so far, reversed. -/
  go (line : List Char) : List Char → List (List Char)
    | [] => [line.reverse]
    | '\n' :: r => line.reverse :: go [] r
    | '\r' :: '\n' :: r => line.reverse :: go [] r
    | c :: r => go (c :: line) r

/-- The lines of a string. -/
def linesOf (s : String) : List String := (splitLines s.toList).map String.ofList

/-- Lines written one after the other with a line feed between neighbours. -/
def joinLines (ls : List String) : String := "\n".intercalate ls

/-- Only the line feeds of a text. -/
def keepLineFeeds (cs : List Char) : List Char := cs.filter (· == '\n')

end EvidenceLock.Text
