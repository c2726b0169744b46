import EvidenceLock.Syntax.Indented.Rows
import EvidenceLock.Syntax.Walk

/-
  Whole programs of the language with blocks by indentation: the forms tied together, and
  what functions and imports are among its nodes.
-/

namespace EvidenceLock.Syntax.Indented

open Scan

/-- Reads a form by the forms below it. -/
def form (forms : Forms) : Forms
  | .expression => expression forms
  | .operand => operand forms
  | .interpolation => interpolation forms
  | .assignment => assignment forms
  | .row indent => row forms indent
  | .block indent => block forms indent

/-- Reads forms that contain one another at most to a depth. -/
def formsTo : (depth : Nat) → Forms
  | 0 => fun _ => failure
  | n + 1 => form (formsTo n)

/-- Reads a whole program. -/
def program : Scan Node := do
  let code ← code
  startRow (nextRow code 0).start
  let whole ← block (formsTo (8 * (code.size + 2))) 0
  nodeTo .program 0 code.size [whole]

/-- The tree of a program. -/
def parse (code : Code) : Node :=
  match program { code, gap } {} with
  | some (n, _) => n
  | none => .mk .program none (code.extent 0 code.size) []

/-- The functions of the language. -/
def isFunction : Kind → Bool
  | .functionDefinition | .lambda => true
  | _ => false

/-- The name of what a function is the value of, if it has one. -/
def boundName? (code : Code) (parent : Node) : Option String :=
  match parent.kind with
  | .assignment =>
    (parent.child? .left).bind fun n =>
      match n.kind with
      | .identifier => some (n.text code)
      | .attribute => (n.child? .attribute).map (·.text code)
      | _ => none
  | .keywordArgument => (parent.child? .name).map (·.text code)
  | .pair => (parent.child? .key).map (·.unquoted code)
  | _ => none

/-- A function is named by itself, or else by the target, argument or key it is the value of. -/
def functionName (code : Code) (p : Place) : String :=
  match p.node.child? .name with
  | some n => n.text code
  | none => (p.around.head?.bind (boundName? code)).getD anonymous

/-- Points as they separate folders. -/
def asFolders (s : String) : String := s.map fun c => if c == '.' then '/' else c

/-- The names that an import takes from its module. -/
def importedNames (code : Code) (n : Node) : List String :=
  (n.childrenAs .name).filterMap fun name =>
    let name? := if name.kind == .aliasedImport then name.child? .name else some name
    name?.map fun name => asFolders (name.text code)

/-- What leads from the folder of a module to the one that a number of points stands for. -/
def upwards (level : Nat) : String :=
  if level = 1 then "./" else String.join (List.replicate (level - 1) "../")

/-- The specifiers of an import from a module that is named from the importing one: that
module, or the imported names if it is a folder. -/
def relativeSpecifiers (code : Code) (n : Node) : List String :=
  match n.child? .moduleName with
  | none => []
  | some module =>
    if module.kind != .relativeImport then []
    else
      let last (kind : Kind) := (module.children.filter (·.kind == kind)).getLast?
      let level := match last .importPrefix with
        | some points => ((points.text code).toList.filter (· == '.')).length
        | none => 0
      if level = 0 then []
      else
        let names := match last .dottedName with
          | some name => [asFolders (name.text code)]
          | none => importedNames code n
        names.map (upwards level ++ ·)

/-- Imports name files only if their module is named from the importing one. -/
def imports (code : Code) (p : Place) : List ImportRef :=
  if p.node.kind == .importFrom then
    (relativeSpecifiers code p.node).map fun specifier =>
      { specifier, first := p.node.firstLine, last := p.node.lastLine }
  else []

/-- The grammar of the language with blocks by indentation. -/
def grammar : Grammar := { isFunction, functionName, imports }

end EvidenceLock.Syntax.Indented
