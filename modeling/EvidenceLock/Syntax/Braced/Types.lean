import EvidenceLock.Syntax.Braced.Form

/-
  Types in scripts. What matters of a type is where it ends and which modules it names in
  calls; what stands in its brackets is therefore taken as a group of balanced parts.
-/

namespace EvidenceLock.Syntax.Braced

open Scan

/-- The bracket that closes an opening one. -/
def closing? : Char → Option String
  | '(' => some ")"
  | '[' => some "]"
  | '{' => some "\x7d"
  | '<' => some ">"
  | _ => none

/-- A text in back quotes; `braced` reads a substitution with its braces. -/
def template (braced : Scan (List Node)) : Scan Node := do
  check ((← char) == '`')
  let start ← here
  jumpTo (start + 1)
  let parts ← many do
    let i := textStop (← code) (← here)
    check ((← code).char i == '$')
    jumpTo (i + 1)
    let parts ← braced
    jumpTo (← previous)
    return parts
  stopAt (textStop (← code) (← here) + 1)
  node .other start parts.flatten
where
  /-- The position of the next substitution or of the closing quote. -/
  textStop (c : Code) (i : Nat) : Nat :=
    if i < c.size then
      if c.char i == '`' || c.goesOn i ['$', '\x7b'] then i
      else if c.char i == '\\' then textStop c (i + 2)
      else textStop c (i + 1)
    else c.size
  termination_by c.size - i

/-- The module of a type that is given as a call: the keyword and one quoted text. -/
def moduleCall : Scan Node := do
  let start ← here
  let kind := if (← word) == "import" then Kind.importKeyword else .identifier
  let callee ← wordLeaf kind
  let open' ← here
  let parts ← between "(" ")" do
    let first ← quoted
    let comments ← commentsHere
    let _ ← eat ","
    let others ← comments.mapM fun c => nodeTo .comment c.1 c.2 []
    return first :: others
  let arguments ← node .arguments open' parts
  node .call start [callee.as .function, arguments.as .arguments]

/-- A part of a group. -/
def groupItem (forms : Forms) : Scan (List Node) := do
  let c ← char
  if (← atEnd) || [')', ']', '}', '>'].contains c then failure
  else if (closing? c).isSome then return [← forms .group]
  else if c == '"' || c == '\'' then return [← quoted]
  else if c == '`' then return [← template (do return [← forms .group])]
  else if c.isDigit then return [← number]
  else if ← eat "=>" then return []
  else
    let w ← word
    if w == "" then
      skip 1
      return []
    (do check (w == "import" || w == "require"); return [← moduleCall]) <|> (do skipWord; return [])

/-- A bracket with everything in it. -/
def group (forms : Forms) : Scan Node := do
  let start ← here
  let c ← char
  match closing? c with
  | none => failure
  | some closing =>
    let parts ← between (String.singleton c) closing (many (groupItem forms))
    node .other start parts.flatten

/-- A group with a given bracket, if it is next. -/
def groupAt (forms : Forms) (opening : Char) : Scan (List Node) := do
  if (← char) == opening then return [← forms .group]
  return []

/-- Types between angle brackets. -/
def typeArguments (forms : Forms) : Scan Node := do
  let start ← here
  let types ← between "<" ">" do
    let first ← forms .type
    let rest ← many do
      expect ","
      forms .type
    let _ ← eat ","
    return first :: rest
  node .other start types

/-- Whether a type can start with what comes next in the same row. -/
def seesType : Scan Bool := do
  let c ← char
  return !(← newRow) && !(← atEnd) &&
    (Code.isWordChar c || ['(', '[', '{', '"', '\'', '`', '-'].contains c)

/-- The words in front of a type. -/
def typeOperators : List String :=
  ["keyof", "unique", "readonly", "infer", "asserts", "abstract", "new", "typeof"]

/-- A type without operators around it. -/
def primaryType (forms : Forms) : Scan (List Node) := do
  let c ← char
  if c == '<' then
    let parameters ← forms .group
    return parameters :: (← forms .type).children
  else if c == '(' then
    let parameters ← forms .group
    if ← eat "=>" then return parameters :: (← forms .type).children
    return [parameters]
  else if c == '[' || c == '{' then return [← forms .group]
  else if c == '"' || c == '\'' then return [← quoted]
  else if c == '`' then return [← template (do return [← forms .group])]
  else if c == '-' then
    skip 1
    return [← number]
  else if c.isDigit then return [← number]
  else
    let w ← word
    check (w != "")
    let first ← (if w == "import" || w == "require" then moduleCall else failure) <|>
      wordLeaf .other
    let _ ← many do
      expect "."
      skipWord
    let arguments ←
      if (← char) == '<' && !(← newRow) then (do return [← forms .group]) <|> pure [] else pure []
    return first :: arguments

/-- A type with the words before it and the brackets behind it. -/
def operatedType (forms : Forms) : Scan (List Node) := do
  let _ ← many do
    check (typeOperators.contains (← word))
    skipWord
    check ((← seesType) || (← char) == '<')
  let first ← primaryType forms
  let suffixes ← many do
    check (!(← newRow))
    if (← char) == '[' then forms .group
    else
      check (← eatWord "is")
      forms .type
  return first ++ suffixes

/-- A type: members of unions and intersections, and the branches of a condition. -/
def type (forms : Forms) : Scan Node := do
  let start ← here
  let joined : Scan (List Node) := do
    let _ ← joint
    let first ← operatedType forms
    let rest ← many do
      check (← joint)
      operatedType forms
    return first ++ rest.flatten
  let first ← joined
  let bounds ← many do
    check (!(← newRow))
    expectWord "extends"
    joined
  let branches ←
    if bounds.isEmpty then pure []
    else (do
      expect "?"
      let yes ← forms .type
      expect ":"
      return [yes, ← forms .type]) <|> pure []
  node .other start (first ++ bounds.flatten ++ branches)
where
  /-- Reads the sign of a union or an intersection. -/
  joint : Scan Bool := do
    let c ← char
    if (c == '|' || c == '&') && (← charAfter 1) != c then
      skip 1
      return true
    return false

/-- The type behind a colon, if there is one. -/
def annotation (forms : Forms) : Scan (List Node) := do
  if (← typed) && (← eat ":") then return [← forms .type]
  return []

/-- The type parameters, if there are any. -/
def typeParameters (forms : Forms) : Scan (List Node) := do
  if ← typed then groupAt forms '<' else return []

end EvidenceLock.Syntax.Braced
