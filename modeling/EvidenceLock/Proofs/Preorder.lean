import EvidenceLock.Syntax.Walk
import Mathlib.Data.List.Basic
import Mathlib.Logic.Function.Iterate

/-!
# The walk takes a tree in the order of its text

A node stands at an address, the numbers of the parts that lead down to it. `Node.addresses` lists
the addresses of a tree by recursion: each one once and in lexicographic order, a node before what
is below it (`Node.pairwise_addresses`, `Place.mem_addresses`). The walk takes one node from its
stack at each turn and puts the parts of that node there instead, so what is still to come is at all
times what stands below the stack in this order (`Grammar.gather_eq`). It ends after as many turns
as there are nodes (`Grammar.stack_turns`).
-/

namespace EvidenceLock.Syntax

/-- Where a node stands in a tree: the numbers of the parts that lead down to it, from 0. -/
abbrev Address := List Nat

/-! ## Addresses -/

namespace Node

mutual

/-- The addresses of a node and of what is below it, a node before its parts and these in order. -/
def addresses : Node → List Address
  | mk _ _ _ children => [] :: addressesFrom 0 children

/-- The addresses in some trees that are parts of one node, the first one with the number `k`. -/
def addressesFrom (k : Nat) : List Node → List Address
  | [] => []
  | n :: rest => n.addresses.map (k :: ·) ++ addressesFrom (k + 1) rest

end

theorem addresses_eq (n : Node) : n.addresses = [] :: addressesFrom 0 n.children := by
  cases n
  rw [addresses, children]

theorem mem_addressesFrom {k : Nat} {ns : List Node} {a : Address} :
    a ∈ addressesFrom k ns ↔ ∃ i n b, a = (k + i) :: b ∧ ns[i]? = some n ∧ b ∈ n.addresses := by
  induction ns generalizing k with
  | nil => simp [addressesFrom]
  | cons n ns ih =>
    rw [addressesFrom, List.mem_append, List.mem_map, ih]
    constructor
    · rintro (⟨b, hb, rfl⟩ | ⟨i, m, b, rfl, hm, hb⟩)
      · exact ⟨0, n, b, rfl, rfl, hb⟩
      · exact ⟨i + 1, m, b, by rw [Nat.add_right_comm, Nat.add_assoc], hm, hb⟩
    · rintro ⟨i, m, b, rfl, hm, hb⟩
      cases i with
      | zero =>
        cases hm
        exact .inl ⟨b, hb, rfl⟩
      | succ i => exact .inr ⟨i, m, b, by rw [Nat.add_right_comm, Nat.add_assoc], hm, hb⟩

mutual

/-- **Addresses come in lexicographic order**, so each of them once. -/
theorem pairwise_addresses : ∀ n : Node, n.addresses.Pairwise (· < ·)
  | mk _ _ _ children => by
    rw [addresses, List.pairwise_cons]
    refine ⟨fun a ha => ?_, pairwise_addressesFrom 0 children⟩
    obtain ⟨i, n, b, rfl, -⟩ := mem_addressesFrom.1 ha
    exact List.nil_lt_cons _ _

theorem pairwise_addressesFrom (k : Nat) : ∀ ns : List Node,
    (addressesFrom k ns).Pairwise (· < ·)
  | [] => by
    rw [addressesFrom]
    exact List.Pairwise.nil
  | n :: ns => by
    rw [addressesFrom, List.pairwise_append, List.pairwise_map]
    refine ⟨(pairwise_addresses n).imp fun h => List.cons_lt_cons_self.2 h,
      pairwise_addressesFrom (k + 1) ns, fun a ha b hb => ?_⟩
    obtain ⟨c, -, rfl⟩ := List.mem_map.1 ha
    obtain ⟨i, m, d, rfl, -⟩ := mem_addressesFrom.1 hb
    exact List.cons_lt_cons_iff.2 (.inl (by omega))

end

end Node

/-! ## Places -/

namespace Place

/-- The place at an address below a place. -/
def at? (p : Place) : Address → Option Place
  | [] => some p
  | k :: a => p.below[k]?.bind fun q => q.at? a

/-- The places of a node and of what is below it, in the order of their addresses. -/
def preorder (p : Place) : List Place := p.node.addresses.filterMap p.at?

theorem preorder_eq (p : Place) : p.preorder = p :: p.below.flatMap preorder := by
  -- The parts that are still to come are those with the numbers from `k` on.
  have hfrom (ns : List Node) (k : Nat) (h : p.node.children.drop k = ns) :
      (Node.addressesFrom k ns).filterMap p.at? =
        (ns.map fun n => (⟨n, p.node :: p.around⟩ : Place)).flatMap preorder := by
    induction ns generalizing k with
    | nil => simp [Node.addressesFrom]
    | cons n ns ih =>
      have hn : p.below[k]? = some ⟨n, p.node :: p.around⟩ := by
        rw [below, List.getElem?_map, ← List.head?_drop, h, List.head?_cons, Option.map_some]
      have hrest : p.node.children.drop (k + 1) = ns := by
        rw [← List.tail_drop, h, List.tail_cons]
      rw [Node.addressesFrom, List.filterMap_append, ih (k + 1) hrest, List.map_cons,
        List.flatMap_cons, List.filterMap_map, preorder]
      congr 2
      funext a
      rw [Function.comp_apply, at?, hn, Option.bind_some]
  rw [preorder, Node.addresses_eq, List.filterMap_cons, at?, hfrom _ 0 List.drop_zero]
  rfl

/-- The addresses of a tree are those under which something stands. -/
theorem mem_addresses {p : Place} {a : Address} : a ∈ p.node.addresses ↔ (p.at? a).isSome := by
  induction a generalizing p with
  | nil => simp [Node.addresses_eq, at?]
  | cons k a ih =>
    rw [Node.addresses_eq, List.mem_cons, Node.mem_addressesFrom, at?, below, List.getElem?_map]
    constructor
    · rintro (h | ⟨i, n, b, h, hn, hb⟩)
      · cases h
      · obtain ⟨rfl, rfl⟩ := List.cons.inj h
        rw [Nat.zero_add, hn, Option.map_some, Option.bind_some]
        exact ih.1 hb
    · intro h
      cases hn : p.node.children[k]? with
      | none =>
        rw [hn] at h
        cases h
      | some n =>
        rw [hn, Option.map_some, Option.bind_some] at h
        exact .inr ⟨k, n, a, by rw [Nat.zero_add], hn, ih.2 h⟩

/-- The places of a tree are what stands at its addresses. -/
theorem forall₂_preorder (p : Place) :
    List.Forall₂ (fun a q => p.at? a = some q) p.node.addresses p.preorder := by
  have hsome : ∀ a ∈ p.node.addresses, (p.at? a).isSome := fun a ha => mem_addresses.1 ha
  rw [preorder]
  generalize p.node.addresses = as at hsome
  induction as with
  | nil => exact .nil
  | cons a as ih =>
    obtain ⟨q, hq⟩ := Option.isSome_iff_exists.1 (hsome a List.mem_cons_self)
    rw [List.filterMap_cons_some hq]
    exact .cons hq (ih fun b hb => hsome b (List.mem_cons_of_mem a hb))

theorem sizes_reverse (ps : List Place) : sizes ps.reverse = sizes ps := by
  induction ps with
  | nil => rfl
  | cons p ps ih =>
    rw [List.reverse_cons, sizes_append, ih, sizes, sizes, sizes, Nat.add_zero, Nat.add_comm]

theorem sizes_eq_zero {ps : List Place} : sizes ps = 0 ↔ ps = [] := by
  cases ps with
  | nil => exact iff_of_true rfl rfl
  | cons p ps =>
    rw [sizes, Node.size_eq]
    exact iff_of_false (by omega) (List.cons_ne_nil _ _)

end Place

/-! ## The loop -/

/-- A walk on its way. -/
structure Walking where
  /-- The places that are still to be looked at, the next one last. -/
  stack : List Place
  /-- The functions that were found. -/
  functions : Array FunctionSpan := #[]
  /-- The imports that were found. -/
  imports : Array ImportRef := #[]

/-- The walk of a tree as it starts. -/
def Walking.start (root : Node) : Walking := { stack := [⟨root, []⟩] }

namespace Grammar

variable (g : Grammar) (code : Code) (path : String)

/-- One turn of the loop: the last place is taken off, and its parts are put on in reverse. Nothing
changes when the stack is empty. -/
def turn (w : Walking) : Walking :=
  match w.stack.getLast? with
  | none => w
  | some p =>
    { stack := w.stack.dropLast ++ p.below.reverse
      functions := w.functions ++ (g.function? code path p).toArray
      imports := w.imports ++ (g.nodeImports code p).toArray }

/-- What is gathered from a walk on its way. -/
def finish (w : Walking) : FileFacts := g.gather code path w.stack.reverse w.functions w.imports

theorem turn_concat (rest : List Place) (p : Place) (functions : Array FunctionSpan)
    (imports : Array ImportRef) :
    g.turn code path { stack := rest ++ [p], functions, imports } =
      { stack := rest ++ p.below.reverse
        functions := functions ++ (g.function? code path p).toArray
        imports := imports ++ (g.nodeImports code p).toArray } := by
  simp [turn]

/-- A turn leads on to the same facts, and takes one node off. -/
theorem turn_spec (w : Walking) : g.finish code path (g.turn code path w) = g.finish code path w ∧
    Place.sizes (g.turn code path w).stack = Place.sizes w.stack - 1 := by
  obtain ⟨stack, functions, imports⟩ := w
  rcases stack.eq_nil_or_concat' with rfl | ⟨rest, p, rfl⟩
  · exact ⟨rfl, rfl⟩
  · rw [turn_concat]
    constructor
    · rw [finish, finish, List.reverse_append, List.reverse_reverse, List.reverse_concat,
        gather.eq_2]
    · rw [Place.sizes_append, Place.sizes_append, Place.sizes_reverse, Place.sizes_below,
        Place.sizes, Node.size_eq, Place.sizes]
      omega

/-- **The loop ends** after as many turns as there are nodes, and not before. -/
theorem stack_turns (n : Nat) (w : Walking) :
    ((g.turn code path)^[n] w).stack = [] ↔ Place.sizes w.stack ≤ n := by
  rw [← Place.sizes_eq_zero]
  induction n generalizing w with
  | zero => exact Nat.le_zero.symm
  | succ n ih =>
    rw [Function.iterate_succ_apply, ih, (g.turn_spec code path w).2]
    omega

theorem finish_turns (n : Nat) (w : Walking) :
    g.finish code path ((g.turn code path)^[n] w) = g.finish code path w := by
  induction n generalizing w with
  | zero => rfl
  | succ n ih => rw [Function.iterate_succ_apply, ih, (g.turn_spec code path w).1]

/-! ## The walk -/

/-- What is gathered comes from the places below the stack, in the order of the text. -/
theorem gather_eq (stack : List Place) (functions : Array FunctionSpan)
    (imports : Array ImportRef) :
    g.gather code path stack functions imports =
      { functions :=
          functions.toList ++ (stack.flatMap Place.preorder).filterMap (g.function? code path)
        imports :=
          imports.toList ++ (stack.flatMap Place.preorder).flatMap (g.nodeImports code) } := by
  induction stack, functions, imports using gather.induct g code path with
  | case1 functions imports => simp [gather]
  | case2 p rest functions imports ih =>
    rw [gather, ih, List.flatMap_cons, Place.preorder_eq, List.flatMap_append, List.cons_append,
      List.filterMap_cons, List.flatMap_cons]
    cases g.function? code path p <;> simp

/-- The node is of a kind of functions, and it has a body. -/
def defines (p : Place) : Bool := g.isFunction p.node.kind && (p.node.child? .body).isSome

/-- What is reported of a function is its file, its name and its rows, counted from 1. -/
structure Spans (p : Place) (s : FunctionSpan) : Prop where
  file : s.file = path
  name : s.name = g.functionName code p
  first : s.first = p.node.extent.first + 1
  last : s.last = p.node.extent.last + 1

/-- The functions of some places are those nodes that define one, each one once. -/
theorem forall₂_functions (ps : List Place) :
    List.Forall₂ (g.Spans code path) (ps.filter g.defines)
      (ps.filterMap (g.function? code path)) := by
  induction ps with
  | nil => exact .nil
  | cons p ps ih =>
    by_cases hp : g.defines p = true
    · have hsome : g.function? code path p = some _ := if_pos hp
      rw [List.filter_cons_of_pos hp, List.filterMap_cons_some hsome]
      exact .cons ⟨rfl, rfl, rfl, rfl⟩ ih
    · have hnone : g.function? code path p = none := if_neg hp
      rw [List.filter_cons_of_neg hp, List.filterMap_cons_none hnone]
      exact ih

/-- A function that is reported is one of the file. -/
theorem file_of_mem_walk {root : Node} {s : FunctionSpan}
    (hs : s ∈ (g.walk code path root).functions) : s.file = path := by
  rw [walk, gather_eq, List.nil_append] at hs
  obtain ⟨p, -, hp⟩ := List.mem_filterMap.1 hs
  unfold function? at hp
  split at hp
  · cases hp
    rfl
  · cases hp

/-- The imports of some places are those of the nodes that are no functions. -/
theorem flatMap_nodeImports (ps : List Place) :
    ps.flatMap (g.nodeImports code) =
      (ps.filter fun p => !g.isFunction p.node.kind).flatMap (g.imports code) := by
  induction ps with
  | nil => rfl
  | cons p ps ih =>
    rw [List.flatMap_cons, ih, nodeImports, List.filter_cons]
    cases g.isFunction p.node.kind <;> rfl

/-- **The walk is the recursive one.** For every grammar and every tree, the loop over the stack
ends after as many turns as the tree has nodes, with what the walk reports. The addresses of the
tree are in the order of the text, a node before its parts and these in order, and are exactly those
under which there is a node. The functions are the nodes of a kind of functions that have a body,
in this order, each one once and with its own rows; those inside of functions are among them. The
imports are what the grammar takes from each node of another kind, one after the other in the same
order. -/
theorem walk_preorder (root : Node) :
    (∀ n, ((g.turn code path)^[n] (.start root)).stack = [] ↔ root.size ≤ n) ∧
    (∀ n, root.size ≤ n → let w := (g.turn code path)^[n] (.start root)
      g.walk code path root = { functions := w.functions.toList, imports := w.imports.toList }) ∧
    root.addresses.Pairwise (· < ·) ∧
    (∀ a, a ∈ root.addresses ↔ ((⟨root, []⟩ : Place).at? a).isSome) ∧
    ∃ places : List Place,
      List.Forall₂ (fun a p => (⟨root, []⟩ : Place).at? a = some p) root.addresses places ∧
      List.Forall₂ (g.Spans code path) (places.filter g.defines)
        (g.walk code path root).functions ∧
      (g.walk code path root).imports =
        (places.filter fun p => !g.isFunction p.node.kind).flatMap (g.imports code) := by
  have hsize : Place.sizes (Walking.start root).stack = root.size := Nat.add_zero _
  have hwalk : g.walk code path root = _ := g.gather_eq code path [⟨root, []⟩] #[] #[]
  rw [List.flatMap_cons, List.flatMap_nil, List.append_nil, flatMap_nodeImports] at hwalk
  refine ⟨fun n => ?_, fun n hn => ?_, root.pairwise_addresses,
    fun a => @Place.mem_addresses ⟨root, []⟩ a, _, Place.forall₂_preorder _, ?_, ?_⟩
  · rw [stack_turns, hsize]
  · have hend := (g.stack_turns code path n (.start root)).2 (hsize ▸ hn)
    have hturns := g.finish_turns code path n (.start root)
    rw [finish, hend, List.reverse_nil, gather] at hturns
    exact hturns.symm
  · rw [hwalk]
    exact g.forall₂_functions code path _
  · rw [hwalk]
    rfl

end Grammar

end EvidenceLock.Syntax
