import EvidenceLock.Syntax.Indented.Layout

/-
  Expressions of the language with blocks by indentation. As in scripts operators have no
  ranks: operands joined by operators are the parts of one node, and an operand alone
  keeps its own kind.
-/

namespace EvidenceLock.Syntax.Indented

open Scan

/-- The forms that contain one another. -/
inductive Form where
  /-- Operands joined by operators. -/
  | expression
  /-- One operand with what stands before and behind it. -/
  | operand
  /-- An expression in braces inside a quoted text. -/
  | interpolation
  /-- A target with its value. -/
  | assignment
  /-- A row of code in a block, with the rows below it. -/
  | row (indent : Nat)
  /-- The rows of a block. -/
  | block (indent : Nat)

/-- Reads the forms of which a form consists. -/
abbrev Forms := Form → Scan Node

/-- The words that cannot be operands. -/
def reserved : List String :=
  ["and", "as", "assert", "async", "break", "class", "continue", "def", "del", "elif", "else",
    "except", "finally", "for", "from", "global", "if", "import", "in", "is", "nonlocal", "or",
    "pass", "raise", "return", "try", "while", "with"]

/-- The signs between two operands, no sign after one that it starts with. -/
def operators : List String :=
  ["**", "//", "<<", ">>", "<=", ">=", "==", "!=", "<>", ":=", "+", "-", "*", "/", "%", "@", "&",
    "|", "^", "<", ">"]

/-- The operators that can be joined with an equals sign to change a target. -/
def updating : List String := ["**", "//", "<<", ">>", "+", "-", "*", "/", "%", "@", "&", "|", "^"]

/-- Passes over a word or a character that has no place in an expression. -/
def stray : Scan (List Node) := do
  check (!(← atEnd) && !([')', ']', '}'].contains (← char)))
  skipWord <|> skip 1
  return []

/-- How a quoted text is written. -/
structure Quotation where
  /-- The position behind the opening quotes. -/
  content : Nat
  /-- The quotes. -/
  quotes : List Char
  /-- Whether braces hold expressions. -/
  formatted : Bool

/-- The quoted text that starts here, if one does: up to three letters, and one quote or three. -/
def quotation? : Scan (Option Quotation) := do
  let code ← code
  let start ← here
  let stop := code.skipWhile (fun c => "rRbBuUfFtT".toList.contains c) start
  let letters := (code.slice start stop).toList
  let q := code.char stop
  if 3 < letters.length || (q != '"' && q != '\'') then return none
  let triple := code.goesOn stop [q, q, q]
  return some {
    content := if triple then stop + 3 else stop + 1
    quotes := if triple then [q, q, q] else [q]
    formatted := letters.any fun c => "fFtT".toList.contains c }

/-- The position of the end of a formatted text or of its next expression. -/
def formattedStop (c : Code) (quotes : List Char) (i : Nat) : Nat :=
  if i < c.size then
    if c.goesOn i quotes then i
    else if c.goesOn i ['\x7b', '\x7b'] then formattedStop c quotes (i + 2)
    else if c.char i == '\x7b' then i
    else if c.char i == '\\' then
      if c.char (i + 1) == '\x7b' then formattedStop c quotes (i + 1)
      else formattedStop c quotes (i + 2)
    else formattedStop c quotes (i + 1)
  else c.size
  termination_by c.size - i

/-- A quoted text. -/
def quoted (forms : Forms) : Scan Node := do
  let start ← here
  match ← quotation? with
  | none => failure
  | some q =>
    let code ← code
    if !q.formatted then leafTo .string (code.quotedStop q.quotes q.content)
    else
      jumpTo q.content
      let parts ← many do
        let i := formattedStop code q.quotes (← here)
        check (code.char i == '\x7b')
        jumpTo i
        forms .interpolation
      stopAt (formattedStop code q.quotes (← here) + q.quotes.length)
      node (if parts.isEmpty then .string else .other) start parts

/-- An expression in braces, how it is converted, and how it is laid out. What follows the
closing brace is text again. -/
def interpolation (forms : Forms) : Scan Node := do
  let start ← here
  let outer := (← get).nested
  modify ({ · with nested := true })
  skip 1
  let parts ← many do
    let c ← char
    check (c != ':' && c != '!')
    (do return [← forms .expression]) <|> stray
  if (← char) == '!' then
    skip 1
    skipWord
  let code ← code
  let layout ←
    if (← char) == ':' then
      jumpTo ((← here) + 1)
      let parts ← many do
        jumpTo (layoutStop code (← here))
        check ((← char) == '\x7b')
        forms .interpolation
      jumpTo (layoutStop code (← here))
      pure parts
    else pure []
  check ((← char) == '\x7d')
  modify ({ · with nested := outer })
  let stop := (← here) + 1
  jumpTo stop
  nodeTo .other start stop (parts.flatten ++ layout)
where
  /-- The position of the next brace. -/
  layoutStop (c : Code) (i : Nat) : Nat := c.skipWhile (fun x => x != '\x7b' && x != '\x7d') i

/-- A part of a bracket. Only calls have arguments given by name, only braces have keys. -/
def item (forms : Forms) (called keyed : Bool) : Scan (List Node) := do
  let start ← here
  let first ← forms .expression
  if keyed && (← sees ":") then
    skip 1
    let value ← forms .expression
    return [← node .pair start [first.as .key, value.as .value]]
  else if called && first.kind == .identifier && (← sees "=") then
    skip 1
    let value ← forms .expression
    return [← node .keywordArgument start [first.as .name, value.as .value]]
  else return [first]

/-- A bracket with everything in it. -/
def group (forms : Forms) (kind : Kind) (opening closing : String) : Scan Node := do
  let start ← here
  let parts ← bracket opening closing
    (many (item forms (kind == .arguments) (opening == "\x7b") <|> stray))
  node kind start parts.flatten

/-- A number; its digits need not be told from its marks. -/
def number : Scan Node := do
  let c ← char
  check (c.isDigit || (c == '.' && (← charAfter 1).isDigit))
  leafTo .other ((← code).numberStop (← here))

/-- A function that is one expression. -/
def lambda (forms : Forms) : Scan Node := do
  let start ← here
  expectWord "lambda"
  let given ← here
  let parameters ← many do
    check ((← char) != ':')
    if ← eat "=" then return [← forms .expression]
    stray
  let parameters ← node .other given parameters.flatten
  expect ":"
  let body ← forms .expression
  node .lambda start [parameters, body.as .body]

/-- An operand without anything before or behind it. -/
def primary (forms : Forms) : Scan Node := do
  match ← char with
  | '(' => group forms .other "(" ")"
  | '[' => group forms .other "[" "]"
  | '{' => group forms .other "\x7b" "\x7d"
  | _ =>
    let start ← here
    (do
      let first ← quoted forms
      let rest ← many (quoted forms)
      if rest.isEmpty then return first
      node .other start (first :: rest)) <|> number <|> (do
      expect "..."
      node .other start []) <|> (do
      check (!reserved.contains (← word))
      wordLeaf .identifier)

/-- A member, a call or an element of an operand. -/
def suffixed (forms : Forms) (n : Node) : Scan Node := do
  match ← char with
  | '.' =>
    skip 1
    let name ← wordLeaf .identifier
    node .attribute n.extent.start [n, name.as .attribute]
  | '(' =>
    let given ← group forms .arguments "(" ")"
    node .call n.extent.start [n.as .function, given.as .arguments]
  | '[' =>
    let inner ← group forms .other "[" "]"
    node .other n.extent.start [n, inner]
  | _ => failure

/-- An operand with what stands before and behind it. -/
def operand (forms : Forms) : Scan Node := do
  let start ← here
  let wrap : Scan Node := do
    let inner ← forms .operand
    node .other start [inner]
  match ← word with
  | "lambda" => lambda forms
  | "not" =>
    skipWord
    wrap
  | "await" => (do skipWord; wrap) <|> (do iterate (suffixed forms) (← primary forms))
  | "yield" =>
    skipWord
    let _ ← eatWord "from"
    let inner ← maybe (forms .expression)
    node .other start inner.toList
  | _ =>
    let c ← char
    if c == '+' || c == '-' || c == '~' || c == '*' then
      skip 1
      wrap
    else iterate (suffixed forms) (← primary forms)

/-- Reads an operator. -/
def operator : Scan Unit := do
  let w ← word
  if w != "" then
    check (["and", "or", "in", "is", "if", "else", "not"].contains w)
    skipWord
    if w == "not" then expectWord "in"
  else
    let code ← code
    let i ← here
    match operators.find? fun o => code.goesOn i o.toList with
    | none => failure
    | some o =>
      check (!(updating.contains o && code.char (i + o.length) == '='))
      check (!(o == "-" && code.char (i + 1) == '>'))
      skip o.length

/-- Operands joined by operators. -/
def expression (forms : Forms) : Scan Node := do
  let start ← here
  let first ← forms .operand
  let rest ← many do
    operator
    forms .operand
  if rest.isEmpty then return first
  node .other start (first :: rest)

end EvidenceLock.Syntax.Indented
