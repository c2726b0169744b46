import EvidenceLock.Syntax.Braced.Operands

/-
  Statements in scripts. A condition, a loop and the like are nodes whose parts are the
  expressions and statements in them; declarations keep what a name may be taken from.
-/

namespace EvidenceLock.Syntax.Braced

open Scan

/-- An expression in parentheses. -/
def condition (forms : Forms) : Scan Node := between "(" ")" (sequence forms)

/-- A declared variable. -/
def declarator (forms : Forms) (m : Mode) : Scan Node := do
  let start ← here
  let target ← forms (.operand {})
  let types ← annotation forms
  let value ← initial forms m
  node .variableDeclarator start (target.as .name :: types ++ value.map (·.as .value))

/-- Declared variables with commas between them. -/
def declarators (forms : Forms) (m : Mode := {}) : Scan (List Node) := do
  let first ← declarator forms m
  let rest ← many do
    expect ","
    declarator forms m
  return first :: rest

/-- Whether the next part can start what is declared. -/
def seesBinding : Scan Bool := do
  let c ← char
  let w ← word
  return c == '[' || c == '{' || (w != "" && !(["in", "instanceof", "of"].contains w))

/-- The word or words that start a declaration of variables. -/
def declarationWord : Scan Unit := do
  match ← word with
  | "var" | "const" =>
    skipWord
    check (← seesBinding)
  | "let" =>
    skipWord
    check ((← seesBinding) && (← goesOn))
  | "using" =>
    skipWord
    check ((← word) != "" && (← seesBinding) && !(← newRow))
  | "await" =>
    skipWord
    expectWord "using"
    check ((← word) != "" && (← seesBinding) && !(← newRow))
  | _ => failure

/-- A declaration of variables. -/
def variableDeclaration (forms : Forms) : Scan Node := do
  let start ← here
  declarationWord
  let parts ← declarators forms
  terminated .statement start parts

/-- The head of a loop over the elements of something. -/
def loopOver (forms : Forms) : Scan (List Node) := do
  let _ ← maybe declarationWord
  let target ← forms (.operand {})
  let value ← initial forms { allowIn := false }
  let w ← word
  check (w == "of" || w == "in")
  skipWord
  return target :: value ++ [← sequence forms]

/-- The head of a loop with a start, a condition and a step. -/
def loopWhile (forms : Forms) : Scan (List Node) := do
  let start ← here
  let first ← (do
    declarationWord
    let parts ← declarators forms { allowIn := false }
    expect ";"
    return [← node .statement start parts]) <|> (do
    let parts ← maybe (sequence forms { allowIn := false })
    expect ";"
    return parts.toList)
  let test ← maybe (sequence forms)
  expect ";"
  let step ← maybe (sequence forms)
  return first ++ test.toList ++ step.toList

/-- A loop with a head. -/
def forLoop (forms : Forms) : Scan Node := do
  let start ← here
  expectWord "for"
  let _ ← eatWord "await"
  let head ← between "(" ")" (loopOver forms) <|> between "(" ")" (loopWhile forms)
  let body ← forms .statement
  node .statement start (head ++ [body])

/-- A choice between two statements. -/
def conditional (forms : Forms) : Scan Node := do
  let start ← here
  expectWord "if"
  let test ← condition forms
  let yes ← forms .statement
  let no ← if ← eatWord "else" then (do return [← forms .statement]) else pure []
  node .statement start (test :: yes :: no)

/-- A choice between values. -/
def switch (forms : Forms) : Scan Node := do
  let start ← here
  expectWord "switch"
  let value ← condition forms
  let open' ← here
  let parts ← between "\x7b" "\x7d" (many (do
    if ← eatWord "case" then
      let test ← sequence forms
      expect ":"
      return test
    else (do
      let start ← here
      expectWord "default"
      expect ":"
      node .other start []) <|> forms .statement))
  let body ← node .other open' parts
  node .statement start [value, body]

/-- Statements whose failure is caught. -/
def attempt (forms : Forms) : Scan Node := do
  let start ← here
  expectWord "try"
  let body ← block forms
  let caught ←
    if ← eatWord "catch" then do
      let target ←
        if (← char) == '(' then
          between "(" ")" (do return (← forms (.operand {})) :: (← annotation forms))
        else pure []
      pure (target ++ [← block forms])
    else pure []
  let final ← if ← eatWord "finally" then (do return [← block forms]) else pure []
  node .statement start (body :: caught ++ final)

/-- A statement that leaves or does something with a value that may be missing. -/
def leaving (forms : Forms) : Scan Node := do
  let start ← here
  let optional := (← word) != "throw"
  skipWord
  if (← char) == ';' || (optional && (← semicolonSupplied false)) then
    terminated .statement start []
  else
    let value ← sequence forms
    terminated .statement start [value]

/-- A function as a statement. A typed one may lack its block. -/
def functionDeclaration (forms : Forms) : Scan Node := do
  let start ← here
  functionWord
  let name ← wordLeaf .identifier
  (do
    let whole ← functionTail forms .functionDeclaration start [name.as .name]
    let whole ← nodeTo whole.kind start (← suppliedStop false) whole.children
    return whole) <|> (do
    check (← typed)
    let types ← typeParameters forms
    let given ← parameters forms
    let result ← annotation forms
    terminated .other start (types ++ given :: result))

/-- A class as a statement. -/
def classDeclaration (forms : Forms) (start : Nat) (decorators : List Node) : Scan Node := do
  let _ ← eatWord "abstract"
  expectWord "class"
  let name ← className
  check (!name.isEmpty)
  let tail ← classTail forms
  nodeTo .statement start (← suppliedStop false) (decorators ++ name ++ tail)

/-- The attributes of an import behind its module. -/
def importAttributes (forms : Forms) : Scan (List Node) := do
  let w ← word
  if (w == "with" || w == "assert") && !(← newRow) then
    skipWord
    return [← object forms]
  return []

/-- The module behind `from`. -/
def fromModule (forms : Forms) : Scan (List Node) := do
  expectWord "from"
  let source ← quoted
  return source.as .source :: (← importAttributes forms)

/-- A name, a star, a comma or names in braces, in front of the module. -/
def importName (forms : Forms) : Scan Unit := do
  match ← char with
  | '{' =>
    let _ ← forms .group
    return
  | '*' | ',' => skip 1
  | _ => skipWord

/-- What an import takes from a module: from a call, or by another name. -/
def importEquals (start : Nat) : Scan Node := do
  let clause ← here
  expect "="
  (do
    expectWord "require"
    let source ← between "(" ")" quoted
    let clause ← node .importRequireClause clause [source.as .source]
    terminated .importStatement start [clause]) <|> (do
    skipWord
    let _ ← many do
      expect "."
      skipWord
    terminated .other start [])

/-- A statement that imports. -/
def importStatement (forms : Forms) : Scan Node := do
  let start ← here
  expectWord "import"
  let c ← char
  check (c != '(' && c != '.')
  (do
    let source ← quoted
    let attributes ← importAttributes forms
    terminated .importStatement start (source.as .source :: attributes)) <|> (do
    let _ ← many do
      check (!(← ahead do expectWord "from"; quoted))
      importName forms
    if ← sees "=" then importEquals start
    else terminated .importStatement start (← fromModule forms))

/-- A type under a name. -/
def typeAlias (forms : Forms) : Scan Node := do
  let start ← here
  expectWord "type"
  check (!(← newRow))
  skipWord
  let types ← typeParameters forms
  expect "="
  let value ← forms .type
  terminated .statement start (types ++ [value])

/-- Words, points, commas and groups up to a brace. -/
def typedHead (forms : Forms) : Scan (List Node) := do
  let parts ← many do
    match ← char with
    | '<' => return [← forms .group]
    | '.' | ',' =>
      skip 1
      return []
    | _ =>
      skipWord
      return []
  return parts.flatten

/-- The names of an object type. -/
def interface (forms : Forms) : Scan Node := do
  let start ← here
  expectWord "interface"
  check (!(← newRow) && (← word) != "")
  let head ← typedHead forms
  check ((← char) == '{')
  let body ← forms .group
  node .statement start (head ++ [body])

/-- Names with values. -/
def enumeration (forms : Forms) : Scan Node := do
  let start ← here
  let _ ← eatWord "const"
  expectWord "enum"
  skipWord
  let members ← between "\x7b" "\x7d" (many do
    if ← eat "," then return []
    let name ← propertyName forms
    let value ← initial forms
    return name :: value)
  node .statement start members.flatten

/-- Statements under a name. The word used decides whether the whole is a statement. -/
def namespaceBlock (forms : Forms) : Scan Node := do
  let start ← here
  let w ← word
  check (w == "namespace" || w == "module" || w == "global")
  skipWord
  check (!(← newRow))
  if w != "global" then
    (do let _ ← quoted) <|> skipWord
    let _ ← many do
      expect "."
      skipWord
  let kind := if w == "namespace" then Kind.statement else .other
  if (← char) == '{' then
    let body ← block forms
    node kind start [body]
  else
    check (w == "module")
    terminated kind start []

/-- A declaration that only typed scripts have. -/
def typedDeclaration (forms : Forms) : Scan Node := do
  check (← typed)
  match ← word with
  | "type" => typeAlias forms
  | "interface" => interface forms
  | "enum" | "const" => enumeration forms
  | "namespace" | "module" => namespaceBlock forms
  | "abstract" => classDeclaration forms (← here) []
  | "declare" =>
    let start ← here
    skipWord
    check (!(← newRow))
    let declared ← (if (← word) == "global" then namespaceBlock forms else do
      check (["var", "let", "const", "function", "class", "abstract", "enum", "interface", "type",
        "namespace", "module", "async", "import"].contains (← word))
      forms .statement)
    node .statement start [declared]
  | _ => failure

/-- What is exported as the default: a declaration, or the value of an expression. -/
def exportDefault (forms : Forms) (start : Nat) (before : List Node) : Scan Node := do
  (do
    let declared ← functionDeclaration forms <|> typedDeclaration forms <|> (do
      let start ← here
      classDeclaration forms start (← many (decorator forms)))
    node .exportStatement start (before ++ [declared.as .value])) <|> (do
    let value ← sequence forms
    terminated .exportStatement start (before ++ [value.as .value]))

/-- What is exported from the module itself or from another one. -/
def exportNames (forms : Forms) (start : Nat) : Scan Node := do
  let _ ← (do
    check ((← typed) && (← eatWord "type"))
    let c ← char
    check (c == '{' || c == '*')) <|> pure ()
  let group ← (do
    expect "*"
    if ← eatWord "as" then
      (do let _ ← quoted) <|> skipWord
    return []) <|> (do
    check ((← char) == '{')
    return [← forms .group])
  let source ← fromModule forms <|> pure []
  terminated .exportStatement start (group ++ source)

/-- A statement that exports. -/
def exportStatement (forms : Forms) (start : Nat) (decorators : List Node) : Scan Node := do
  expectWord "export"
  if ← eatWord "default" then exportDefault forms start decorators
  else exportNames forms start <|> (do
    check ((← typed) && (← eat "="))
    let value ← sequence forms
    terminated .exportStatement start [value]) <|> (do
    check ((← typed) && (← eatWord "as") && (← eatWord "namespace"))
    skipWord
    terminated .exportStatement start []) <|> (do
    let declared ← forms .statement
    node .exportStatement start (decorators ++ [declared]))

/-- A statement with a name in front. -/
def labeled (forms : Forms) : Scan Node := do
  let start ← here
  skipWord
  expect ":"
  let inner ← forms .statement
  node .statement start [inner]

/-- An expression as a statement. -/
def expressionStatement (forms : Forms) : Scan Node := do
  let start ← here
  let value ← sequence forms
  terminated .statement start [value]

/-- A loop with its condition in front, or a statement with an object opened up. -/
def headed (forms : Forms) : Scan Node := do
  let start ← here
  skipWord
  let test ← condition forms
  let body ← forms .statement
  node .statement start [test, body]

/-- A loop with its condition behind. -/
def doLoop (forms : Forms) : Scan Node := do
  let start ← here
  expectWord "do"
  let body ← forms .statement
  expectWord "while"
  let test ← condition forms
  terminated .statement start [body, test]

/-- A statement or declaration that starts with a word of its own. -/
def worded (forms : Forms) (w : String) : Scan Node := do
  match w with
  | "var" | "let" | "using" | "await" => variableDeclaration forms
  | "const" => typedDeclaration forms <|> variableDeclaration forms
  | "function" | "async" => functionDeclaration forms
  | "class" => classDeclaration forms (← here) []
  | "if" => conditional forms
  | "for" => forLoop forms
  | "while" | "with" => headed forms
  | "do" => doLoop forms
  | "switch" => switch forms
  | "try" => attempt forms
  | "return" | "throw" | "break" | "continue" | "debugger" => leaving forms
  | "import" => importStatement forms
  | "export" => exportStatement forms (← here) []
  | _ => typedDeclaration forms

/-- A statement or declaration. -/
def statement (forms : Forms) : Scan Node := do
  let start ← here
  match ← char with
  | '{' => block forms
  | ';' =>
    skip 1
    node .statement start []
  | '@' =>
    let decorators ← many (decorator forms)
    if (← word) == "export" then exportStatement forms start decorators
    else classDeclaration forms start decorators
  | _ =>
    let w ← word
    if w == "" then expressionStatement forms
    else
      worded forms w <|> (do
        check (!reserved.contains w)
        labeled forms <|> expressionStatement forms)

end EvidenceLock.Syntax.Braced
