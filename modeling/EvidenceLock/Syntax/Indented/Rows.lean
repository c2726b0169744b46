import EvidenceLock.Syntax.Indented.Expressions

/-
  Rows of code and the blocks below them. A row that ends in a colon has a suite: what
  follows in the row, or the block of the rows below that are indented more. A word that
  no rule asks for is passed over.
-/

namespace EvidenceLock.Syntax.Indented

open Scan

/-- Expressions with commas between them. -/
def expressions (forms : Forms) : Scan Node := do
  let start ← here
  let first ← forms .expression
  let rest ← many do
    expect ","
    return (← maybe (forms .expression)).toList
  if rest.isEmpty then return first
  node .other start (first :: rest.flatten)

/-- Whether a value follows that is given to what stands before. -/
def seesValue : Scan Bool := do
  return (← sees "=") && !(← sees "==")

/-- A target with its value, which may itself be a target with a value; or expressions alone. -/
def assignment (forms : Forms) : Scan Node := do
  let start ← here
  let left ← expressions forms
  let types ← if ← eat ":" then (do return [← forms .expression]) else pure []
  if ← seesValue then
    skip 1
    let right ← forms .assignment
    node .assignment start (left.as .left :: types ++ [right])
  else if !types.isEmpty then node .assignment start (left.as .left :: types)
  else
    let code ← code
    let i ← here
    match updating.find? fun o => code.goesOn i (o.toList ++ ['=']) with
    | none => return left
    | some o =>
      skip (o.length + 1)
      let right ← forms .assignment
      node .other start [left, right]

/-- Names joined by points. -/
def dottedName : Scan Node := do
  let start ← here
  skipWord
  let _ ← many do
    expect "."
    skipWord
  node .dottedName start []

/-- The module that names are imported from: points and names, or names alone. -/
def moduleName : Scan Node := do
  let start ← here
  if !(← sees ".") then dottedName
  else
    let _ ← many (expect ".")
    let points ← node .importPrefix start []
    let named ← maybe do
      check ((← word) != "import")
      dottedName
    node .relativeImport start (points :: named.toList)

/-- A name that is imported, and the name that it is given. -/
def importedName : Scan Node := do
  let start ← here
  let name ← dottedName
  if ← eatWord "as" then
    skipWord
    node .aliasedImport start [name.as .name]
  else return name

/-- An import of names from a module. -/
def importFrom : Scan Node := do
  let start ← here
  expectWord "from"
  let source ← moduleName
  expectWord "import"
  let names : Scan (List Node) := many do
    let name ← importedName
    let _ ← eat ","
    return name.as .name
  let names ←
    if ← eat "*" then pure []
    else if ← sees "(" then bracket "(" ")" names
    else names
  node .importFrom start (source.as .moduleName :: names)

/-- A type under a name. -/
def typeAlias (forms : Forms) : Scan Node := do
  let start ← here
  expectWord "type"
  check ((← word) != "")
  let name ← forms .expression
  expect "="
  let value ← forms .expression
  node .other start [name, value]

/-- What stands in a row up to its end. -/
def simpleRow (forms : Forms) : Scan (List Node) := do
  let parts ← many do
    check !(← rowEnded)
    if ← eat ";" then return []
    (do return [← importFrom]) <|> (do return [← typeAlias forms]) <|>
      (do return [← forms .assignment]) <|> stray
  return parts.flatten

/-- What belongs to a row that ends in a colon: the rest of the row, or the block below. -/
def suite (forms : Forms) (indent : Nat) : Scan Node := do
  let start ← here
  if !(← rowEnded) then
    let parts ← simpleRow forms
    node .other start parts
  else
    rowComment
    let next := nextRow (← code) (← previous)
    if indent < next.indent then
      startRow next.start
      forms (.block next.indent)
    else
      node .other (← previous) []

/-- A function with a suite. -/
def definition (forms : Forms) (indent : Nat) : Scan Node := do
  let start ← here
  let _ ← eatWord "async"
  expectWord "def"
  let name ← wordLeaf .identifier
  let types ← if ← sees "[" then (do return [← group forms .other "[" "]"]) else pure []
  let given ← if ← sees "(" then (do return [← group forms .other "(" ")"]) else pure []
  let result ← if ← eat "->" then (do return [← expressions forms]) else pure []
  let _ ← eat ":"
  let body ← suite forms indent
  node .functionDefinition start (name.as .name :: types ++ given ++ result ++ [body.as .body])

/-- A row that starts with a word of its own and has a suite. -/
def compound (forms : Forms) (indent : Nat) : Scan Node := do
  let start ← here
  skipWord
  let head ← many do
    check (!(← rowEnded) && (← char) != ':')
    (do return [← forms .expression]) <|> stray
  expect ":"
  let body ← suite forms indent
  node .other start (head.flatten ++ [body])

/-- The words that start a row with a suite. -/
def compoundWords : List String :=
  ["class", "if", "elif", "else", "for", "while", "try", "except", "finally", "with"]

/-- A choice between patterns, or one of its cases: the word alone does not tell. -/
def matching (forms : Forms) (indent : Nat) : Scan Node := do
  let w ← word
  check (w == "match" || w == "case")
  check (!(← ahead do
    skipWord
    check (['=', '.', ',', ':', ')'].contains (← char))))
  compound forms indent

/-- A row of code with the rows below it. -/
def row (forms : Forms) (indent : Nat) : Scan Node := do
  let w ← word
  if w == "def" then definition forms indent
  else if w == "async" then
    definition forms indent <|> (do
      skipWord
      compound forms indent)
  else if compoundWords.contains w then compound forms indent <|> plain
  else matching forms indent <|> plain
where
  /-- A row without a suite. -/
  plain : Scan Node := do
    let start ← here
    let parts ← simpleRow forms
    node .other start parts

/-- The rows of a block, with the comments that belong to it. -/
def block (forms : Forms) (indent : Nat) : Scan Node := do
  let start ← here
  let (parts, _) ← iterate (fun (parts, more) => do
    check more
    let part ← forms (.row indent)
    let more ← nextBlockRow indent
    return (part :: parts, more)) (([] : List Node), true)
  node .other start parts.reverse

end EvidenceLock.Syntax.Indented
