import EvidenceLock.Syntax.Braced.Expressions

/-
  Operands in scripts: what can stand alone, what stands before and behind it, and how
  operators and conditions join operands to expressions.
-/

namespace EvidenceLock.Syntax.Braced

open Scan

/-- A member, by name or by a private name. -/
def memberOf (n : Node) : Scan Node := do
  if (← char) == '#' then jumpTo ((← here) + 1)
  skipWord
  node .other n.extent.start [n]

/-- An element in square brackets. -/
def elementOf (forms : Forms) (n : Node) : Scan Node := do
  let inner ← between "[" "]" (sequence forms)
  node .other n.extent.start [n, inner]

/-- A text in back quotes with its substitutions. -/
def templateText (forms : Forms) : Scan Node :=
  template (do return [← between "\x7b" "\x7d" (sequence forms)])

/-- A text in back quotes behind a function that takes it. -/
def taggedOf (forms : Forms) (n : Node) : Scan Node := do
  let text ← templateText forms
  node .call n.extent.start [n.as .function, text.as .arguments]

/-- Whether type arguments that are not followed by a call may end here. -/
def typeArgumentsEnd : Scan Bool := do
  if ← atEnd then return true
  let closers := [')', ']', '}', ',', ';', ':', '.', '?', '=', '!', '|', '&']
  return (← newRow) || closers.contains (← char)

/-- Type arguments, and the call that they belong to. -/
def instantiated (forms : Forms) (n : Node) : Scan Node := do
  check (← typed)
  let types ← typeArguments forms
  match ← char with
  | '(' =>
    let given ← arguments forms
    node .call n.extent.start [n.as .function, types, given.as .arguments]
  | '`' => taggedOf forms n
  | _ =>
    check (← typeArgumentsEnd)
    node .other n.extent.start [n, types]

/-- What stands behind an operand and belongs to it. -/
def suffixed (forms : Forms) (n : Node) : Scan Node := do
  check (← goesOn)
  let next ← charAfter 1
  match ← char with
  | '.' =>
    check !next.isDigit
    skip 1
    memberOf n
  | '?' =>
    check (next == '.' && !(← charAfter 2).isDigit)
    skip 2
    match ← char with
    | '(' => callOf forms n
    | '[' => elementOf forms n
    | '<' => instantiated forms n
    | _ => memberOf n
  | '(' => callOf forms n
  | '[' => elementOf forms n
  | '`' => taggedOf forms n
  | '<' => instantiated forms n
  | '!' =>
    check ((← typed) && next != '=')
    skip 1
    node .other n.extent.start [n]
  | '+' | '-' =>
    check (next == (← char) && !(← newRow))
    skip 2
    node .other n.extent.start [n]
  | _ => failure

/-- The words that may come before the name of a member of a class. -/
def memberModifiers : Scan (List String) := do
  let words := ["static", "async", "get", "set", "accessor"]
  return if ← typed then
    words ++ ["public", "private", "protected", "readonly", "abstract", "override", "declare"]
  else words

/-- A member of a class. In untyped scripts decorators are part of their member. -/
def classMember (forms : Forms) : Scan (List Node) := do
  let outer ← here
  if ← eat ";" then return []
  let decorators ← many (decorator forms)
  let typed ← typed
  let start ← if typed then here else pure outer
  let kept := if typed then [] else decorators
  let apart := if typed then decorators else []
  let whole ← staticBlock <|> member start kept (← memberModifiers)
  return apart ++ [whole]
where
  /-- Statements that are run once for the class. -/
  staticBlock : Scan Node := do
    let start ← here
    expectWord "static"
    node .other start [← block forms]
  /-- A method or a field. -/
  member (start : Nat) (decorators : List Node) (words : List String) : Scan Node := do
    modifiers words true
    let name ← propertyName forms <|> forms .group
    let typed ← typed
    if typed then
      let _ ← eat "?"
      let _ ← eat "!"
    let c ← char
    if c == '(' || (c == '<' && typed) then
      functionTail forms .methodDefinition start (decorators ++ [name.as .name]) <|> (do
        let types ← typeParameters forms
        let given ← parameters forms
        let result ← annotation forms
        node .other start (types ++ given :: result))
    else
      let types ← annotation forms
      let value ← initial forms
      let role := if typed then Role.name else .property
      node .fieldDefinition start
        (decorators ++ name.as role :: types ++ value.map (·.as .value))

/-- What follows the name of a class: what it extends, and its members. -/
def classTail (forms : Forms) : Scan (List Node) := do
  let types ← typeParameters forms
  let parent ←
    if ← eatWord "extends" then do
      let value ← forms (.operand {})
      let types ← typeParameters forms
      pure (value :: types)
    else pure []
  let interfaces ←
    if ← eatWord "implements" then do
      let first ← forms .type
      let rest ← many do
        expect ","
        forms .type
      pure (first :: rest)
    else pure []
  let start ← here
  let members ← between "\x7b" "\x7d" (many (classMember forms))
  let body ← node .other start members.flatten
  return types ++ parent ++ interfaces ++ [body.as .body]

/-- The name of a class, if it has one. -/
def className : Scan (List Node) := do
  let w ← word
  if w == "" || w == "extends" || w == "implements" then return []
  return [← wordLeaf .identifier]

/-- A class as an operand. -/
def classExpression (forms : Forms) : Scan Node := do
  let start ← here
  let decorators ← many (decorator forms)
  expectWord "class"
  let name ← className
  let tail ← classTail forms
  node .other start (decorators ++ name ++ tail)

/-- An operand that is made new. -/
def construction (forms : Forms) (primary : Scan Node) : Scan Node := do
  let start ← here
  expectWord "new"
  if ← eat "." then
    skipWord
    node .other start []
  else
    let made ←
      if (← word) == "new" then forms (.operand {})
      else
        iterate (fun n => do
          match ← char with
          | '.' =>
            skip 1
            memberOf n
          | '[' => elementOf forms n
          | '!' =>
            check (← typed)
            skip 1
            pure n
          | _ => failure) (← primary)
    let types ← maybe do
      check ((← typed) && (← char) == '<')
      typeArguments forms
    let given ←
      if (← char) == '(' then (do return [← arguments forms]) else pure []
    node .other start (made :: types.toList ++ given)

/-- A name, or the function whose only parameter it is. -/
def name (forms : Forms) (m : Mode) : Scan Node := do
  check (!reserved.contains (← word))
  let n ← wordLeaf .identifier
  if ← sees "=>" then arrowBody forms m n.extent.start [n] else return n

/-- An operand without anything before or behind it, not a construction. -/
def plainPrimary (forms : Forms) (m : Mode) : Scan Node := do
  match ← char with
  | '(' => parenthesized forms m
  | '[' => array forms
  | '{' => object forms
  | '`' => templateText forms
  | '"' | '\'' => quoted
  | '/' => regularExpression
  | '@' => classExpression forms
  | '#' => propertyName forms
  | _ =>
    match ← word with
    | "" => number
    | "function" => functionExpression forms
    | "class" => classExpression forms
    | "import" =>
      let n ← wordLeaf .importKeyword
      if ← eat "." then
        skipWord
        node .other n.extent.start [n]
      else
        return n
    | "async" => functionExpression forms <|> asyncArrow forms m <|> name forms m
    | _ => name forms m

/-- An operand without anything before or behind it. -/
def primary (forms : Forms) (m : Mode) : Scan Node := do
  if (← word) == "new" then construction forms (plainPrimary forms {}) else plainPrimary forms m

/-- Whether nothing follows that an optional operand could be. -/
def nothingFollows : Scan Bool := do
  return (← semicolonSupplied false) || [')', ']', ',', ';', ':'].contains (← char)

/-- An operand with what stands before and behind it. -/
def operand (forms : Forms) (m : Mode) : Scan Node := do
  let start ← here
  let c ← char
  let next ← charAfter 1
  let w ← word
  let wrap : Scan Node := do
    let inner ← forms (.operand m)
    node .other start [inner]
  if w == "typeof" || w == "void" || w == "delete" then
    skipWord
    wrap
  else if w == "await" then (do skipWord; wrap) <|> suffixes (name forms m)
  else if w == "yield" then
    skipWord
    let all ← eat "*"
    if !all && (← nothingFollows) then node .other start []
    else
      let inner ← forms (.expression m)
      node .other start [inner]
  else if c == '!' || c == '~' then
    skip 1
    wrap
  else if c == '+' || c == '-' then
    skip (if next == c then 2 else 1)
    wrap
  else if c == '<' then
    suffixes (genericArrow forms m start <|>
      (if ← markup then forms .element else do
        let target ← forms .group
        let inner ← forms (.operand m)
        node .other start [target, inner]))
  else suffixes (primary forms m)
where
  /-- Reads on behind an operand. -/
  suffixes (first : Scan Node) : Scan Node := do
    iterate (suffixed forms) (← first)

/-- A further operand of an expression, with the operator or condition in front of it. -/
def joined (forms : Forms) (m : Mode) : Scan (List Node) := do
  check (← goesOn)
  let w ← word
  if w == "instanceof" || (w == "in" && m.allowIn) then
    skipWord
    return [← forms (.operand m)]
  else if w == "as" || w == "satisfies" then
    check (← typed)
    skipWord
    return [← forms .type]
  else if (← char) == '?' && (← charAfter 1) != '?' then
    skip 1
    let branch (arrowTypes : Bool) : Scan Node := do
      let n ← forms (.expression { arrowTypes })
      expect ":"
      return n
    let yes ← (do check m.arrowTypes; branch true) <|> branch false
    return [yes, ← forms (.expression m)]
  else
    check !(← sees "=>")
    let code ← code
    let i ← here
    match operators.find? fun o => code.goesOn i o.toList with
    | none => failure
    | some o =>
      skip o.length
      return [← forms (.operand m)]

/-- Operands joined by operators. -/
def expression (forms : Forms) (m : Mode) : Scan Node := do
  let start ← here
  let first ← forms (.operand m)
  let rest ← many (joined forms m)
  if rest.isEmpty then return first
  node .other start (first :: rest.flatten)

end EvidenceLock.Syntax.Braced
