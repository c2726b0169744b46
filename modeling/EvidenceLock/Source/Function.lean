import EvidenceLock.Failure

/-
  Functions of a source file by the lines they span.
-/

namespace EvidenceLock

/-- A function with a body, and its first and last line. -/
structure FunctionSpan where
  /-- The path of the file. -/
  file : String
  /-- The name of the function. -/
  name : String
  /-- The first line. -/
  first : Int
  /-- The last line. -/
  last : Int
  /-- A function does not end before it starts. -/
  ordered : first ≤ last := by omega
  deriving DecidableEq, Repr

namespace FunctionSpan

/-- The number of lines. -/
def length (s : FunctionSpan) : Int := s.last - s.first + 1

/-- A span from its lines, which must be in order. -/
def ofLines (file name : String) (first last : Int) : Outcome FunctionSpan :=
  if h : first ≤ last then .ok { file, name, first, last, ordered := h }
  else misuse .value s!"function span ends before it starts: {file}:{first}-{last}"

theorem length_pos (s : FunctionSpan) : 0 < s.length := by
  have := s.ordered
  unfold length
  omega

end FunctionSpan

end EvidenceLock
