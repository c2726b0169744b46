import EvidenceLock.Source.Index
import EvidenceLock.Syntax.Node

/-
  The facts of a syntax tree. The walk takes nodes from a stack, so that deep trees are
  no harder than broad ones; a node's parts go on the stack in their order, and what
  is found comes in the order of the text. What counts as a function, how functions
  are named and which nodes import is up to a `Grammar`.
-/

namespace EvidenceLock.Syntax

/-- A node and the nodes around it, the nearest first. -/
structure Place where
  /-- The node. -/
  node : Node
  /-- The nodes around it. -/
  around : List Node := []

namespace Place

/-- The places of the parts of a node. -/
def below (p : Place) : List Place := p.node.children.map fun n => ⟨n, p.node :: p.around⟩

/-- The number of nodes below some places, themselves included. -/
def sizes : List Place → Nat
  | [] => 0
  | p :: ps => p.node.size + sizes ps

theorem sizes_append (ps qs : List Place) : sizes (ps ++ qs) = sizes ps + sizes qs := by
  induction ps with
  | nil => simp [sizes]
  | cons p r ih => simp [sizes, ih, Nat.add_assoc]

theorem sizes_below (p : Place) : sizes p.below = Node.sizes p.node.children := by
  unfold below
  induction p.node.children with
  | nil => rfl
  | cons n r ih => simp [sizes, Node.sizes, ih]

end Place

/-- What a language family makes of the nodes of a tree. -/
structure Grammar where
  /-- Whether nodes of a kind are functions. -/
  isFunction : Kind → Bool
  /-- The name of a function. -/
  functionName : Code → Place → String
  /-- The imports that a node that is no function makes. -/
  imports : Code → Place → List ImportRef

namespace Grammar

/-- The function that a node is, if it is one and has a body. -/
def function? (g : Grammar) (code : Code) (path : String) (p : Place) : Option FunctionSpan :=
  if g.isFunction p.node.kind && (p.node.child? .body).isSome then
    some {
      file := path
      name := g.functionName code p
      first := p.node.firstLine
      last := p.node.lastLine
      ordered := by
        have := p.node.extent.ordered
        unfold Node.firstLine Node.lastLine
        omega }
  else none

/-- The imports that a node makes; functions make none themselves. -/
def nodeImports (g : Grammar) (code : Code) (p : Place) : List ImportRef :=
  if g.isFunction p.node.kind then [] else g.imports code p

/-- Takes the nodes from a stack one by one and gathers what they are. -/
def gather (g : Grammar) (code : Code) (path : String) :
    (stack : List Place) → Array FunctionSpan → Array ImportRef → FileFacts
  | [], functions, imports => { functions := functions.toList, imports := imports.toList }
  | p :: rest, functions, imports =>
    g.gather code path (p.below ++ rest)
      (functions ++ (g.function? code path p).toArray)
      (imports ++ (g.nodeImports code p).toArray)
  termination_by stack => Place.sizes stack
  decreasing_by
    rw [Place.sizes_append, Place.sizes, Place.sizes_below, Node.size_eq]
    omega

/-- The functions and imports of a tree. -/
def walk (g : Grammar) (code : Code) (path : String) (root : Node) : FileFacts :=
  g.gather code path [⟨root, []⟩] #[] #[]

end Grammar

/-- The name of a function that has none. -/
def anonymous : String := "<anonymous>"

/-- The content of a text in quotes, and any other text as it is. -/
def unquoted (s : String) : String :=
  match s.toList with
  | q :: r =>
    let isQuote := q == '"' || q == '\''
    if isQuote && r.getLast? == some q then String.ofList r.dropLast else s
  | [] => s

/-- The content of a quoted node. -/
def Node.unquoted (code : Code) (n : Node) : String := Syntax.unquoted (n.text code)

/-- The statement around a node: the nearest statement, itself included, or what stands directly
in the program. -/
def enclosingStatement : Node → List Node → Node
  | n, [] => n
  | n, p :: ps => if p.kind == .program || n.kind.isStatement then n else enclosingStatement p ps

end EvidenceLock.Syntax
