import EvidenceLock.Syntax.Scan

/-
  The language whose blocks are set off by indentation: what lies between the parts of a
  row, and which rows belong to a block. A block ends before the first row of code that
  is indented less; the comment rows before it that are indented as deep as the block still
  belong to it, up to the first one that is not.
-/

namespace EvidenceLock.Syntax.Indented

open Scan

/-- The position behind a backslash that joins a row with the next one. -/
def joinStop? (c : Code) (i : Nat) : Option Nat :=
  if c.goesOn i ['\\', '\n'] then some (i + 2)
  else if c.goesOn i ['\\', '\r', '\n'] then some (i + 3)
  else none

/-- The position behind a comment: the end of its row. -/
def commentStop (c : Code) (i : Nat) : Nat := max i (c.skipWhile (· != '\n') i)

theorem le_commentStop (c : Code) (i : Nat) : i ≤ commentStop c i := Nat.le_max_left ..

/-- White space up to the end of the row; in brackets rows and comments are passed over. -/
def gap (c : Code) (nested : Bool) (i : Nat) : Gap :=
  if h : i < c.size then
    if c.char i == '\n' && !nested then { stop := i }
    else if Code.isSpace (c.char i) then gap c nested (i + 1)
    else if c.char i == '\\' then
      match joinStop? c i with
      | some j => if i < j then gap c nested j else { stop := i }
      | none => { stop := i }
    else if c.char i == '#' && nested then
      have := le_commentStop c (i + 1)
      gap c nested (commentStop c (i + 1))
    else { stop := i }
  else { stop := c.size }
  termination_by c.size - i

/-- The row of code that follows. -/
structure NextRow where
  /-- Where its code starts. -/
  start : Nat
  /-- How far it is indented. -/
  indent : Nat
  /-- The first row with a comment before it: how far it is indented, and its end. -/
  comment : Option (Nat × Nat)

/-- The row of code that follows a position at the end of a row. A tab indents by eight; the end
of the text is not indented. -/
def nextRow (c : Code) (i : Nat) (indent : Nat := 0) (comment : Option (Nat × Nat) := none) :
    NextRow :=
  if _h : i < c.size then
    match c.char i with
    | '\n' | '\r' | '\x0c' => nextRow c (i + 1) 0 comment
    | ' ' => nextRow c (i + 1) (indent + 1) comment
    | '\t' => nextRow c (i + 1) (indent + 8) comment
    | '#' =>
      have := le_commentStop c (i + 1)
      nextRow c (commentStop c (i + 1)) 0 (comment <|> some (indent, commentStop c (i + 1)))
    | '\\' =>
      match joinStop? c i with
      | some j => if i < j then nextRow c j indent comment else { start := i, indent, comment }
      | none => { start := i, indent, comment }
    | _ => { start := i, indent, comment }
  else { start := c.size, indent := 0, comment }
  termination_by c.size - i

/-- Where a block goes on behind a position: the end of the comments that still belong to it, and
the start of its next row if it has one. -/
def blockRow (c : Code) (indent : Nat) (i : Nat) : Nat × Option Nat :=
  let next := nextRow c i
  if next.start < c.size && indent ≤ next.indent then (i, some next.start)
  else
    match next.comment with
    | some (depth, stop) =>
      if _h : indent ≤ depth ∧ i < stop ∧ i < c.size then blockRow c indent stop else (i, none)
    | none => (i, none)
  termination_by c.size - i

/-- Whether the row is at its end. -/
def rowEnded : Scan Bool := do
  let c ← char
  return (← atEnd) || c == '\n' || c == '#'

/-- Reads the comment at the end of a row. -/
def rowComment : Scan Unit := do
  if (← char) == '#' then stopAt (commentStop (← code) (← here))

/-- Goes to the code of a row. -/
def startRow (i : Nat) : Scan Unit := do jumpTo (gap (← code) false i).stop

/-- Goes to the next row of a block; tells whether there is one. -/
def nextBlockRow (indent : Nat) : Scan Bool := do
  rowComment
  let (stop, next) := blockRow (← code) indent (← previous)
  stopAt stop
  match next with
  | some start =>
    startRow start
    return true
  | none => return false

/-- Reads between brackets of one character each; the closing one may be missing. -/
def bracket {α : Type} (opening closing : String) (inner : Scan α) : Scan α := do
  let outer := (← get).nested
  check (← sees opening)
  modify ({ · with nested := true })
  skip 1
  let a ← inner
  modify ({ · with nested := outer })
  let _ ← eat closing
  return a

end EvidenceLock.Syntax.Indented
