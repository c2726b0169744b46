import EvidenceLock.Decimal.Rounded
import EvidenceLock.Number
import EvidenceLock.Source.Function

/-
  The lengths of functions: which functions are long, and the largest, the mean
  and the number of all lengths.
-/

namespace EvidenceLock

/-- Measurements of a set of files. -/
structure Metrics where
  /-- The length of the longest function; zero without functions. -/
  maxLength : Int := 0
  /-- The mean length rounded to two decimals. -/
  averageLength : Number := .float 0.0
  /-- The number of duplicated blocks. -/
  duplicateBlocks : Int := 0
  /-- The number of functions. -/
  functions : Int := 0
  deriving Repr, Inhabited

/-- The functions whose length reaches a threshold, in order. -/
def longFunctions (threshold : Number) (spans : List FunctionSpan) : List FunctionSpan :=
  spans.filter fun s => threshold.le (.int s.length)

/-- The largest of a list of lengths; zero for none. -/
def maxLength (lengths : List Int) : Int :=
  match lengths with
  | [] => 0
  | n :: rest => rest.foldl max n

/-- The mean of a list of positive lengths, rounded to two decimals. -/
def meanLength (lengths : List Int) : Float :=
  Decimal.roundTo 2 (Decimal.nearest false (lengths.foldl (· + ·) 0).natAbs lengths.length)

/-- The measurements of a list of functions; duplicated blocks are left at zero. -/
def functionMetrics (spans : List FunctionSpan) : Metrics :=
  let lengths := spans.map FunctionSpan.length
  if lengths.isEmpty then {}
  else
    { maxLength := maxLength lengths
      averageLength := .float (meanLength lengths)
      functions := lengths.length }

/-- The function shares a line with a range of lines of a file. -/
def FunctionSpan.overlaps (s : FunctionSpan) (file : String) (first last : Int) : Bool :=
  s.file == file && decide (s.first ≤ last) && decide (first ≤ s.last)

/-- The largest length of the given functions that share a line with a range; zero for none. -/
def maxInRange (spans : List FunctionSpan) (file : String) (first last : Int) : Int :=
  maxLength ((spans.filter fun s => s.overlaps file first last).map FunctionSpan.length)

end EvidenceLock
