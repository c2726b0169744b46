import EvidenceLock.Syntax.Node

/-
  Reading a program from its text, without a separate pass for its words: each part asks
  for what it needs at the position reached. A reading fails or gives a value and moves on;
  after a failure another reading may be tried from the same place. Between the parts of
  a program stand gaps of white space and comments, which are passed over at once.
-/

namespace EvidenceLock.Syntax

/-- White space and comments: where they end, and the comments among them. -/
structure Gap where
  /-- The position behind the gap. -/
  stop : Nat
  /-- The comments as start and stop. -/
  comments : List (Nat × Nat) := []

/-- A text to be read and the rules for reading it. -/
structure Source where
  /-- The text. -/
  code : Code
  /-- Whether types may be written. -/
  typed : Bool := false
  /-- Whether markup elements may be written. -/
  markup : Bool := false
  /-- The gap at a position, outside or inside brackets. -/
  gap : Code → (nested : Bool) → Nat → Gap

/-- How far a text has been read. -/
structure Cursor where
  /-- Where the next part starts. -/
  pos : Nat := 0
  /-- Where the part before it stopped. -/
  previous : Nat := 0
  /-- The comments in between. -/
  comments : List (Nat × Nat) := []
  /-- Whether a bracket is open. -/
  nested : Bool := false

/-- A reading of a text. -/
abbrev Scan := ReaderT Source (StateT Cursor Option)

namespace Scan

/-- The text being read. -/
def code : Scan Code := return (← read).code

/-- Whether types may be written. -/
def typed : Scan Bool := return (← read).typed

/-- Whether markup elements may be written. -/
def markup : Scan Bool := return (← read).markup

/-- Where the next part starts. -/
def here : Scan Nat := return (← get).pos

/-- Where the part before stopped. -/
def previous : Scan Nat := return (← get).previous

/-- The comments between the part before and the next one. -/
def commentsHere : Scan (List (Nat × Nat)) := return (← get).comments

/-- The character a number of places further on. -/
def charAfter (n : Nat) : Scan Char := return (← code).char ((← here) + n)

/-- The next character. -/
def char : Scan Char := charAfter 0

/-- Whether nothing is left. -/
def atEnd : Scan Bool := return (← code).size ≤ (← here)

/-- Ends a part at a position and passes over the gap behind it. -/
def stopAt (i : Nat) : Scan Unit := do
  let source ← read
  modify fun c =>
    let gap := source.gap source.code c.nested i
    { c with pos := gap.stop, previous := i, comments := gap.comments }

/-- Goes to a position, with no gap passed over. -/
def jumpTo (i : Nat) : Scan Unit := modify fun c => { c with pos := i }

/-- Reads a number of characters as one part. -/
def skip (n : Nat) : Scan Unit := do stopAt ((← here) + n)

/-- Whether the text goes on with the given characters. -/
def sees (s : String) : Scan Bool := return (← code).goesOn (← here) s.toList

/-- Reads the given characters, if they are next. -/
def eat (s : String) : Scan Bool := do
  if ← sees s then
    skip s.length
    return true
  return false

/-- Reads the given characters, which must be next. -/
def expect (s : String) : Scan Unit := do
  unless ← eat s do failure

/-- Goes on only if a condition holds. -/
def check (b : Bool) : Scan Unit := do
  unless b do failure

/-- The next word; empty if something else is next. -/
def word : Scan String := do
  let code ← code
  let i ← here
  if (code.char i).isDigit then return ""
  return code.slice i (code.wordStop i)

/-- Reads the next word whatever it is. -/
def skipWord : Scan Unit := do
  let code ← code
  let i ← here
  let stop := code.wordStop i
  check (i < stop)
  stopAt stop

/-- Reads a given word, if it is next. -/
def eatWord (w : String) : Scan Bool := do
  if (← word) == w then
    skipWord
    return true
  return false

/-- Reads a given word, which must be next. -/
def expectWord (w : String) : Scan Unit := do
  unless ← eatWord w do failure

/-- Whether a row ended between the part before and the next one. -/
def newRow : Scan Bool := do
  let code ← code
  return code.row (← previous) < code.row (← here)

/-- A node from a position up to another one. -/
def nodeTo (kind : Kind) (start stop : Nat) (children : List Node) : Scan Node := do
  return .mk kind none ((← code).extent start stop) children

/-- A node from a position up to where the last part stopped. -/
def node (kind : Kind) (start : Nat) (children : List Node) : Scan Node := do
  nodeTo kind start (← previous) children

/-- Reads up to a position as a node without parts. -/
def leafTo (kind : Kind) (stop : Nat) : Scan Node := do
  let start ← here
  stopAt stop
  node kind start []

/-- The next word as a node. -/
def wordLeaf (kind : Kind) : Scan Node := do
  let stop := (← code).wordStop (← here)
  check ((← here) < stop)
  leafTo kind stop

/-- Whether a part could be read next; nothing is read. -/
def ahead {α : Type} (part : Scan α) : Scan Bool := fun source cursor =>
  some ((part source cursor).isSome, cursor)

/-- Repeats a step on a value until it fails or reads nothing. -/
def iterate {α : Type} (step : α → Scan α) (a : α) : Scan α := fun source cursor =>
  go source (source.code.size + 1 - cursor.pos) a cursor
where
  /-- Repeats at most a number of times. -/
  go (source : Source) : Nat → α → Cursor → Option (α × Cursor)
    | 0, a, c => some (a, c)
    | n + 1, a, c =>
      match step a source c with
      | none => some (a, c)
      | some (b, d) => if c.pos < d.pos then go source n b d else some (b, d)

/-- Reads parts as long as there are any. -/
def many {α : Type} (part : Scan α) : Scan (List α) := do
  let parts ← iterate (fun parts => return (← part) :: parts) []
  return parts.reverse

/-- Reads a part, if there is one. -/
def maybe {α : Type} (part : Scan α) : Scan (Option α) :=
  (some <$> part) <|> pure none

/-- Reads between brackets of one character each. -/
def between {α : Type} (opening closing : String) (inner : Scan α) : Scan α := do
  let outer := (← get).nested
  check (← sees opening)
  modify ({ · with nested := true })
  skip 1
  let a ← inner
  check (← sees closing)
  modify ({ · with nested := outer })
  skip 1
  return a

end Scan

end EvidenceLock.Syntax
