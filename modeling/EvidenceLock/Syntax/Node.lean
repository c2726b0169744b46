import EvidenceLock.Syntax.Code

/-
  Syntax trees. A node has a kind, the role it plays in its parent, its stretch of the
  text and its parts in order. Punctuation and keywords are no nodes, and kinds that no
  rule of the library asks for are `statement`, `comment` or `other`.
-/

namespace EvidenceLock.Syntax

/-- What a node is. -/
inductive Kind where
  /-- A whole program. -/
  | program
  /-- A function as a statement. -/
  | functionDeclaration
  /-- A function as an operand. -/
  | functionExpression
  /-- A function written with an arrow. -/
  | arrowFunction
  /-- A method, getter or setter. -/
  | methodDefinition
  /-- A statement that imports from a module. -/
  | importStatement
  /-- A statement that exports. -/
  | exportStatement
  /-- The part of an import that gives the module in a call. -/
  | importRequireClause
  /-- Any other statement or declaration. -/
  | statement
  /-- A call. -/
  | call
  /-- The arguments of a call. -/
  | arguments
  /-- The keyword of an import that is called. -/
  | importKeyword
  /-- A quoted text without substitutions. -/
  | string
  /-- A name. -/
  | identifier
  /-- A declared variable with its value. -/
  | variableDeclarator
  /-- A key and its value. -/
  | pair
  /-- A field of a class. -/
  | fieldDefinition
  /-- A function with a suite. -/
  | functionDefinition
  /-- A function that is one expression. -/
  | lambda
  /-- A target and its value. -/
  | assignment
  /-- A member of an object. -/
  | attribute
  /-- An argument given by name. -/
  | keywordArgument
  /-- An import of names from a module. -/
  | importFrom
  /-- A module named from the importing one. -/
  | relativeImport
  /-- The points in front of a relative module. -/
  | importPrefix
  /-- Names joined by points. -/
  | dottedName
  /-- A name imported under another one. -/
  | aliasedImport
  /-- A comment. -/
  | comment
  /-- Anything else. -/
  | other
  deriving DecidableEq, Repr

/-- What a node is to its parent. -/
inductive Role where
  | name | body | key | property | value | left | attribute | source | function | arguments
  | moduleName
  deriving DecidableEq, Repr

/-- A node and what is below it. -/
inductive Node where
  | mk (kind : Kind) (role : Option Role) (extent : Extent) (children : List Node)
  deriving Repr

/-- The statements and declarations. -/
def Kind.isStatement : Kind → Bool
  | .functionDeclaration | .importStatement | .exportStatement | .importFrom | .statement => true
  | _ => false

namespace Node

/-- The kind of a node. -/
def kind : Node → Kind
  | mk kind .. => kind

/-- The role of a node in its parent. -/
def role : Node → Option Role
  | mk _ role .. => role

/-- The stretch of a node. -/
def extent : Node → Extent
  | mk _ _ extent _ => extent

/-- The parts of a node. -/
def children : Node → List Node
  | mk _ _ _ children => children

/-- The node in a role. -/
def as (n : Node) (role : Role) : Node := mk n.kind (some role) n.extent n.children

/-- The first part in a role. -/
def child? (n : Node) (role : Role) : Option Node := n.children.find? (·.role == some role)

/-- The parts in a role. -/
def childrenAs (n : Node) (role : Role) : List Node := n.children.filter (·.role == some role)

/-- The text of a node. -/
def text (code : Code) (n : Node) : String := code.slice n.extent.start n.extent.stop

/-- The first line of a node, from 1. -/
def firstLine (n : Node) : Int := n.extent.first + 1

/-- The last line of a node, from 1. -/
def lastLine (n : Node) : Int := n.extent.last + 1

mutual

/-- The number of nodes of a tree. -/
def size : Node → Nat
  | mk _ _ _ children => 1 + sizes children

/-- The number of nodes of some trees. -/
def sizes : List Node → Nat
  | [] => 0
  | n :: r => n.size + sizes r

end

theorem size_eq (n : Node) : n.size = 1 + sizes n.children := by
  cases n
  simp [size, children]

end Node

end EvidenceLock.Syntax
