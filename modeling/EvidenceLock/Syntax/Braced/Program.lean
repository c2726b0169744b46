import EvidenceLock.Syntax.Braced.Markup
import EvidenceLock.Syntax.Braced.Statements
import EvidenceLock.Syntax.Walk

/-
  Whole scripts: the forms tied together. Each form is read by a fixed number of forms
  below it between two characters, so a depth in proportion to the length of the text
  is never used up.
-/

namespace EvidenceLock.Syntax.Braced

open Scan

/-- Reads a form by the forms below it. -/
def form (forms : Forms) : Forms
  | .expression m => expression forms m
  | .operand m => operand forms m
  | .statement => statement forms
  | .type => type forms
  | .group => group forms
  | .element => element forms

/-- Reads forms that contain one another at most to a depth. -/
def formsTo : (depth : Nat) → Forms
  | 0 => fun _ => failure
  | n + 1 => form (formsTo n)

/-- Reads a whole script. A first row that names an interpreter is passed over. -/
def program : Scan Node := do
  let code ← code
  stopAt (if code.goesOn 0 ['#', '!'] then code.skipWhile (· != '\n') 0 else 0)
  let forms := formsTo (8 * (code.size + 2))
  let parts ← many (statements forms >>= fun parts => do
    if parts.isEmpty then skip 1
    return parts)
  nodeTo .program 0 code.size parts.flatten

/-- The tree of a script. -/
def parse (code : Code) (typed markup : Bool) : Node :=
  match program { code, typed, markup, gap := gap } {} with
  | some (n, _) => n
  | none => .mk .program none (code.extent 0 code.size) []

/-- The functions of scripts. -/
def isFunction : Kind → Bool
  | .functionDeclaration | .functionExpression | .arrowFunction | .methodDefinition => true
  | _ => false

/-- The name of what a function is the value of, if it has one. -/
def boundName? (code : Code) (parent : Node) : Option String :=
  match parent.kind with
  | .variableDeclarator =>
    (parent.child? .name).bind fun n =>
      if n.kind == .identifier then some (n.text code) else none
  | .pair => (parent.child? .key).map (·.text code)
  | .fieldDefinition => (parent.child? .name <|> parent.child? .property).map (·.text code)
  | _ => none

/-- A function is named by itself, or else by the variable, key or field it is the value of. -/
def functionName (code : Code) (p : Place) : String :=
  match p.node.child? .name with
  | some n => n.text code
  | none => (p.around.head?.bind (boundName? code)).getD anonymous

/-- The module that an import or export names. -/
def statementSource? (code : Code) (n : Node) : Option String := do
  let source ← n.child? .source <|>
    (n.children.find? (·.kind == .importRequireClause)).bind (·.child? .source)
  if source.kind == .string then some (source.unquoted code) else none

/-- The module that a call names: one quoted text given to `require` or to an import. -/
def callSource? (code : Code) (n : Node) : Option String := do
  let callee ← n.child? .function
  let given ← n.child? .arguments
  let loads := callee.kind == .importKeyword ||
    (callee.kind == .identifier && callee.text code == "require")
  match given.children with
  | [a] => if loads && a.kind == .string then some (a.unquoted code) else none
  | _ => none

/-- Imports and exports name a module for their own lines, calls for those of the statement
around them. -/
def imports (code : Code) (p : Place) : List ImportRef :=
  match p.node.kind with
  | .importStatement | .exportStatement =>
    ((statementSource? code p.node).map fun specifier =>
      { specifier, first := p.node.firstLine, last := p.node.lastLine }).toList
  | .call =>
    let around := enclosingStatement p.node p.around
    ((callSource? code p.node).map fun specifier =>
      { specifier, first := around.firstLine, last := around.lastLine }).toList
  | _ => []

/-- The grammar of scripts. -/
def grammar : Grammar := { isFunction, functionName, imports }

end EvidenceLock.Syntax.Braced
