import EvidenceLock.Syntax.Braced.Types

/-
  Expressions in scripts. Operators have no ranks here: operands joined by operators are
  the parts of one node, since neither a function's lines nor its name depends on which of
  them belong closer together. An operand alone keeps its own kind.
-/

namespace EvidenceLock.Syntax.Braced

open Scan

/-- The words that cannot be operands. -/
def reserved : List String :=
  ["break", "case", "catch", "const", "continue", "debugger", "default", "do", "else", "extends",
    "finally", "for", "if", "in", "instanceof", "return", "switch", "throw", "try", "var", "while",
    "with"]

/-- The signs between two operands, no sign after one that it starts with. -/
def operators : List String :=
  [">>>=", "===", "!==", "**=", "<<=", ">>=", ">>>", "&&=", "||=", "??=", "==", "!=", "<=", ">=",
    "&&", "||", "??", "**", "<<", ">>", "+=", "-=", "*=", "/=", "%=", "&=", "|=", "^=", "=", "<",
    ">", "+", "-", "*", "/", "%", "&", "|", "^"]

/-- Expressions with commas between them. -/
def sequence (forms : Forms) (m : Mode := {}) : Scan Node := do
  let start ← here
  let first ← forms (.expression m)
  let rest ← many do
    expect ","
    forms (.expression m)
  if rest.isEmpty then return first
  node .other start (first :: rest)

/-- The value behind an equals sign, if there is one. -/
def initial (forms : Forms) (m : Mode := {}) : Scan (List Node) := do
  if ← eat "=" then return [← forms (.expression m)]
  return []

/-- Statements up to a closing brace. A character that starts none is passed over. -/
def statements (forms : Forms) : Scan (List Node) := many (forms .statement <|> do
  check (!(← atEnd) && (← char) != '}')
  let start ← here
  skip 1
  node .other start [])

/-- Statements between braces. -/
def block (forms : Forms) : Scan Node := do
  let start ← here
  let parts ← between "\x7b" "\x7d" (statements forms)
  node .other start parts

/-- The arguments of a call and the comments between them. -/
def arguments (forms : Forms) : Scan Node := do
  let start ← here
  let parts ← between "(" ")" do
    let first ← comments
    let rest ← many do
      if ← eat "," then comments
      else
        let start ← here
        let spread ← eat "..."
        let a ← forms (.expression {})
        let part ← if spread then node .other start [a] else pure a
        return part :: (← comments)
    return first ++ rest.flatten
  node .arguments start parts
where
  /-- The comments in front of the next part. -/
  comments : Scan (List Node) := do
    (← commentsHere).mapM fun c => nodeTo .comment c.1 c.2 []

/-- A call of what has been read. -/
def callOf (forms : Forms) (n : Node) : Scan Node := do
  let given ← arguments forms
  node .call n.extent.start [n.as .function, given.as .arguments]

/-- What stands behind an `@` in front of a declaration. -/
def decorator (forms : Forms) : Scan Node := do
  let start ← here
  expect "@"
  let first ←
    if (← char) == '(' then between "(" ")" (sequence forms) else wordLeaf .identifier
  let whole ← iterate (fun n => do
    match ← char with
    | '.' =>
      skip 1
      skipWord
      node .other n.extent.start [n]
    | '(' => callOf forms n
    | '<' =>
      let types ← forms .group
      node .other n.extent.start [n, types]
    | _ => failure) first
  node .other start [whole]

/-- A name, a quoted text, a number or an expression in brackets, naming a property. -/
def propertyName (forms : Forms) : Scan Node := do
  let start ← here
  let c ← char
  if c == '[' then
    let inner ← between "[" "]" (sequence forms)
    node .other start [inner]
  else if c == '"' || c == '\'' then quoted
  else if c.isDigit || c == '.' then number
  else if c == '#' then
    jumpTo (start + 1)
    skipWord
    node .other start []
  else wordLeaf .other

/-- Reads the words in front of a property's name. In a class such a word is itself the name
of a field, if a semicolon is supplied behind it. -/
def modifiers (words : List String) (ofClass : Bool) : Scan Unit := do
  let _ ← many do
    check (words.contains (← word))
    skipWord
    check ((← seesPropertyName) || (← char) == '*' || (← char).isDigit)
    check !(ofClass && (← semicolonSupplied false))
  let _ ← eat "*"

/-- The words in front of a parameter of a typed script. -/
def parameterModifiers : List String :=
  ["public", "private", "protected", "readonly", "override"]

/-- The parameters of a function. -/
def parameters (forms : Forms) : Scan Node := do
  let start ← here
  let parts ← between "(" ")" (many do
    if ← eat "," then return []
    let decorators ← many (decorator forms)
    if ← typed then
      let _ ← many do
        check (parameterModifiers.contains (← word))
        skipWord
        check ((← seesPropertyName) || (← char) == '{')
    let _ ← eat "..."
    let name ← forms (.operand {})
    let _ ← eat "?"
    let types ← annotation forms
    let value ← initial forms
    return decorators ++ name :: types ++ value)
  node .other start parts.flatten

/-- The parameters and the block of a function that starts at a position. -/
def functionTail (forms : Forms) (kind : Kind) (start : Nat) (before : List Node) :
    Scan Node := do
  let types ← typeParameters forms
  let given ← parameters forms
  let result ← annotation forms
  let body ← block forms
  node kind start (before ++ types ++ given :: result ++ [body.as .body])

/-- Reads the words and the star that start a function. -/
def functionWord : Scan Unit := do
  if ← eatWord "async" then check (← goesOn)
  expectWord "function"
  let _ ← eat "*"

/-- A function as an operand. -/
def functionExpression (forms : Forms) : Scan Node := do
  let start ← here
  functionWord
  let name ← maybe (wordLeaf .identifier)
  functionTail forms .functionExpression start (name.map (·.as .name)).toList

/-- The arrow of a function and what it gives. -/
def arrowBody (forms : Forms) (m : Mode) (start : Nat) (before : List Node) : Scan Node := do
  expect "=>"
  let body ← if (← char) == '{' then block forms else forms (.expression m)
  node .arrowFunction start (before ++ [body.as .body])

/-- The result type, the arrow and what the function gives. -/
def arrowTail (forms : Forms) (m : Mode) (start : Nat) (before : List Node) : Scan Node := do
  let result ← if m.arrowTypes then annotation forms else pure []
  arrowBody forms m start (before ++ result)

/-- What stands in parentheses: an expression, or the parameters of a function. -/
structure Covered where
  /-- The parts. -/
  parts : List Node
  /-- Whether only parameters can be written like this. -/
  onlyParameters : Bool

/-- Reads what stands in parentheses, before it is known what it is. -/
def covered (forms : Forms) : Scan Covered := between "(" ")" do
  let items ← many do
    let spread ← eat "..."
    let first ← forms (.expression {})
    let (types, mark) ←
      if ← typed then
        let optional ← eat "?"
        let types ← annotation forms
        pure (types, optional || !types.isEmpty)
      else pure ([], false)
    let value ← if mark then initial forms else pure []
    let comma ← eat ","
    return ({
      parts := first :: types ++ value
      onlyParameters := spread || mark || (comma && (← char) == ')') } : Covered)
  return {
    parts := items.flatMap (·.parts)
    onlyParameters := items.isEmpty || items.any (·.onlyParameters) }

/-- A bracketed expression, or a function with its parameters in parentheses. -/
def parenthesized (forms : Forms) (m : Mode) : Scan Node := do
  let start ← here
  let inside ← covered forms
  let given ← node .other start inside.parts
  (do
    let next ← char
    check (next == '=' || next == ':')
    arrowTail forms m start [given]) <|> (do
    check (!inside.onlyParameters)
    return given)

/-- A function with type parameters, written with an arrow. -/
def genericArrow (forms : Forms) (m : Mode) (start : Nat) : Scan Node := do
  check (← typed)
  let types ← forms .group
  let given ← parameters forms
  arrowTail forms m start [types, given]

/-- A function written with an arrow that starts with `async`, or a call of what has that name. -/
def asyncArrow (forms : Forms) (m : Mode) : Scan Node := do
  let word ← wordLeaf .identifier
  let start := word.extent.start
  check (← goesOn)
  match ← char with
  | '(' =>
    let open' ← here
    let inside ← covered forms
    let given ← node .arguments open' inside.parts
    arrowTail forms m start [given] <|> (do
      check (!inside.onlyParameters)
      node .call start [word.as .function, given.as .arguments])
  | '<' => genericArrow forms m start
  | _ =>
    let parameter ← wordLeaf .identifier
    arrowBody forms m start [parameter]

/-- The content of an object literal or of an object pattern. -/
def objectItem (forms : Forms) : Scan (List Node) := do
  if ← eat "," then return []
  if ← eat "..." then return [← forms (.expression {})]
  let start ← here
  modifiers ["async", "get", "set"] false
  let name ← propertyName forms
  let c ← char
  if c == '(' || (c == '<' && (← typed)) then
    return [← functionTail forms .methodDefinition start [name.as .name]]
  else if ← eat ":" then
    let value ← forms (.expression {})
    return [← node .pair start [name.as .key, value.as .value]]
  else if ← eat "=" then
    let value ← forms (.expression {})
    return [← node .other start [name, value]]
  else return [name]

/-- An object literal or an object pattern. -/
def object (forms : Forms) : Scan Node := do
  let start ← here
  let parts ← between "\x7b" "\x7d" (many (objectItem forms))
  node .other start parts.flatten

/-- An array literal or an array pattern. -/
def array (forms : Forms) : Scan Node := do
  let start ← here
  let parts ← between "[" "]" (many do
    if ← eat "," then return []
    let _ ← eat "..."
    return [← forms (.expression {})])
  node .other start parts.flatten

/-- A pattern between slashes; a slash in brackets does not end it. -/
def regularExpression : Scan Node := do
  check ((← char) == '/')
  let code ← code
  let stop := patternStop code false ((← here) + 1)
  leafTo .other (code.wordStop stop)
where
  /-- The position behind the closing slash. -/
  patternStop (c : Code) (inClass : Bool) (i : Nat) : Nat :=
    if i < c.size then
      let x := c.char i
      if x == '\\' then patternStop c inClass (i + 2)
      else if x == '/' && !inClass then i + 1
      else patternStop c (x == '[' || (inClass && x != ']')) (i + 1)
    else c.size
  termination_by c.size - i

end EvidenceLock.Syntax.Braced
