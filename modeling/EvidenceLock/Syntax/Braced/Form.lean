import EvidenceLock.Syntax.Scan

/-
  The family of scripts, whose blocks stand in braces: what lies between the parts of a
  script, the forms that contain one another, and where a statement ends that has no
  semicolon.
-/

namespace EvidenceLock.Syntax.Braced

open Scan

/-- White space, comments up to the end of a row and comments between `/*` and `*/`. -/
def gap (c : Code) (nested : Bool) (i : Nat) (comments : List (Nat × Nat) := []) : Gap :=
  if h : i < c.size then
    if Code.isSpace (c.char i) then gap c nested (i + 1) comments
    else if c.goesOn i ['/', '/'] then
      let j := max (i + 2) (c.skipWhile (· != '\n') i)
      gap c nested j ((i, j) :: comments)
    else if c.goesOn i ['/', '*'] then
      let j := max (i + 4) (blockStop (i + 2))
      gap c nested j ((i, j) :: comments)
    else { stop := i, comments := comments.reverse }
  else { stop := c.size, comments := comments.reverse }
  termination_by c.size - i
where
  /-- The position behind the end mark of a comment. -/
  blockStop (i : Nat) : Nat :=
    if i < c.size then
      if c.goesOn i ['*', '/'] then i + 2 else blockStop (i + 1)
    else c.size
  termination_by c.size - i

/-- What surrounds an expression. -/
structure Mode where
  /-- Whether `in` joins operands; it does not in the head of a loop. -/
  allowIn : Bool := true
  /-- Whether a function written with an arrow may give its result type; it may not where the
  colon of a conditional expression is due. -/
  arrowTypes : Bool := true

/-- The forms that contain one another. -/
inductive Form where
  /-- Operands joined by operators. -/
  | expression (m : Mode)
  /-- One operand with what stands before and behind it. -/
  | operand (m : Mode)
  /-- A statement or declaration. -/
  | statement
  /-- A type. -/
  | type
  /-- A bracket of a type with everything in it. -/
  | group
  /-- A markup element. -/
  | element

/-- Reads the forms of which a form consists. -/
abbrev Forms := Form → Scan Node

/-- Whether a semicolon is supplied in front of what comes next in a new row. It is not if the
next part can only go on with the statement. Behind an operand a bracket goes on with it; in
typed scripts brackets start anew elsewhere. -/
def startsAnew (behindOperand : Bool) : Scan Bool := do
  let next ← charAfter 1
  match ← char with
  | '`' | ',' | ':' | ';' | '*' | '%' | '>' | '<' | '=' | '?' | '^' | '|' | '&' | '/' =>
    return false
  | '[' | '(' => return (← typed) && !behindOperand
  | '.' => return !(← typed) && next.isDigit
  | '+' => return next == '+'
  | '-' => return next == '-'
  | '!' => return next != '='
  | 'i' =>
    let w ← word
    return w != "in" && w != "instanceof"
  | _ => return true

/-- Whether a semicolon is supplied here. -/
def semicolonSupplied (behindOperand : Bool) : Scan Bool := do
  if (← atEnd) || (← char) == '}' then return true
  return (← newRow) && (← startsAnew behindOperand)

/-- Whether an operand may go on with what comes next. -/
def goesOn : Scan Bool := do
  return !(← atEnd) && !((← newRow) && (← startsAnew true))

/-- Where a statement stops whose semicolon is supplied: behind its last part. In typed scripts
the comments that start in the same row are taken in, if the semicolon is supplied behind
them. -/
def suppliedStop (behindOperand : Bool) : Scan Nat := do
  let code ← code
  let last ← previous
  let commented := (← commentsHere).foldl
    (fun stop c => if code.row c.1 == code.row stop then c.2 else stop) last
  if !(← typed) || commented == last then return last
  let supplied ← do
    if (← atEnd) || (← char) == '}' then pure true
    else if code.row commented < code.row (← here) then startsAnew behindOperand
    else pure false
  return if supplied then commented else last

/-- Ends a statement: with a semicolon, or where one is supplied. -/
def terminated (kind : Kind) (start : Nat) (children : List Node) : Scan Node := do
  if ← eat ";" then node kind start children
  else nodeTo kind start (← suppliedStop true) children

/-- Whether the next part can be the name of a property. -/
def seesPropertyName : Scan Bool := do
  let c ← char
  return Code.isWordChar c || c == '[' || c == '"' || c == '\'' || c == '#' || c == '\\'

/-- Reads a quoted text. -/
def quoted : Scan Node := do
  let q ← char
  check (q == '"' || q == '\'')
  leafTo .string ((← code).quotedStop [q] ((← here) + 1))

/-- Reads a number. -/
def number : Scan Node := do
  let c ← char
  check (c.isDigit || (c == '.' && (← charAfter 1).isDigit))
  leafTo .other ((← code).numberStop (← here))

end EvidenceLock.Syntax.Braced
