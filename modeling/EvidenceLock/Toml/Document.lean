import EvidenceLock.Toml.Scalar

/-
  Settings files as nested tables. A statement opens a table, adds a table to a
  list, or sets a key. No key is set twice: what a statement has closed to later
  ones is remembered as paths. A path that is `sealed_` closes everything below it
  as well, a path that is `opened` only itself.
-/

namespace EvidenceLock.Toml

/-- Named values in order. -/
abbrev Fields := List (String × Value)

/-- The names on the way to a value. -/
abbrev KeyPath := List String

/-- A character of a name without quotes. -/
def isBare (c : Char) : Bool :=
  isPlainDigit c || ('a' ≤ c && c ≤ 'z') || ('A' ≤ c && c ≤ 'Z') || c == '-' || c == '_'

/-- A name, bare or between quotes. -/
def name (cs : List Char) : Reads String :=
  match cs with
  | '"' :: r => basic r
  | '\'' :: r => literal r
  | cs =>
    let bare := cs.takeWhile isBare
    if bare.isEmpty then .error .malformed else .ok (String.ofList bare, cs.drop bare.length)

/-- The names after the first, each after a dot. -/
def moreNames : (fuel : Nat) → (acc : KeyPath) → List Char → Except Flaw (KeyPath × List Char)
  | 0, _, _ => .error .malformed
  | fuel + 1, acc, cs =>
    match skipSpace cs with
    | '.' :: r => do
      let (n, r) ← name (skipSpace r)
      moreNames fuel (acc ++ [n]) r
    | r => .ok (acc, r)

/-- Names with dots between them. -/
def keyPath (cs : List Char) : Except Flaw (KeyPath × List Char) := do
  let (n, r) ← name cs
  moreNames (r.length + 1) [n] r

/-- The text after a comment, if one starts here. -/
def skipComment (cs : List Char) : Except Flaw (List Char) :=
  match cs with
  | '#' :: r =>
    let comment := r.takeWhile (· != '\n')
    if comment.any (isControl false) then .error .malformed else .ok (r.drop comment.length)
  | cs => .ok cs

/-- The text after white space, line feeds and comments. -/
def skipBetween : (fuel : Nat) → List Char → Except Flaw (List Char)
  | 0, cs => .ok cs
  | fuel + 1, cs => do
    let r ← skipComment (cs.dropWhile isSpaceOrFeed)
    if r.length = cs.length then .ok r else skipBetween fuel r

/-- The text after everything that may stand between the items of a list. -/
def skipFiller (cs : List Char) : Except Flaw (List Char) := skipBetween (cs.length + 1) cs

/-- Applies a function to the table under a path. Tables on the way are made; where `lists` is set,
a list stands for its last element. -/
def atTable (lists : Bool) (fields : Fields) (path : KeyPath) (f : Fields → Option Fields) :
    Option Fields :=
  match path with
  | [] => f fields
  | k :: rest =>
    let put (v : Value) : Fields :=
      if fields.any fun e => e.1 == k then fields.map fun e => if e.1 == k then (k, v) else e
      else fields ++ [(k, v)]
    match Value.field? fields k with
    | none => (atTable lists [] rest f).map fun t => put (.table t)
    | some (.table t) => (atTable lists t rest f).map fun t => put (.table t)
    | some (.list items) =>
      match lists, items.getLast? with
      | true, some (.table t) =>
        (atTable lists t rest f).map fun t => put (.list (items.dropLast ++ [.table t]))
      | _, _ => none
    | some _ => none

/-- A new field at the end of a table. -/
def addField (k : String) (v : Value) (fields : Fields) : Option Fields :=
  if (Value.field? fields k).isSome then none else some (fields ++ [(k, v)])

/-- An empty table at the end of a list of tables, which is made if there is none. -/
def addTable (k : String) (fields : Fields) : Option Fields :=
  match Value.field? fields k with
  | none => some (fields ++ [(k, .list [.table []])])
  | some (.list items) =>
    some <| fields.map fun e => if e.1 == k then (k, .list (items ++ [.table []])) else e
  | some _ => none

/-- A result that must be there. -/
def required {α : Type} : Option α → Except Flaw α
  | some a => .ok a
  | none => .error .malformed

/-- The value is made of other values. -/
def isCompound : Value → Bool
  | .list _ | .table _ => true
  | _ => false

/-- One of the paths is the start of a path. -/
def covers (paths : List KeyPath) (path : KeyPath) : Bool := paths.any fun p => p.isPrefixOf path

/-- A name, an equals sign and a value. -/
def assignment (value : List Char → Reads Value) (cs : List Char) :
    Except Flaw ((KeyPath × Value) × List Char) := do
  let (path, r) ← keyPath cs
  let r ← required (after '=' r)
  let (v, r) ← value (skipSpace r)
  .ok ((path, v), r)

/-- The items of a list up to its closing bracket. -/
def items (value : List Char → Reads Value) :
    (fuel : Nat) → (acc : List Value) → List Char → Except Flaw (Value × List Char)
  | 0, _, _ => .error .malformed
  | fuel + 1, acc, cs => do
    match ← skipFiller cs with
    | ']' :: r => .ok (.list acc.reverse, r)
    | r =>
      let (v, r) ← value r
      match ← skipFiller r with
      | ']' :: r => .ok (.list (v :: acc).reverse, r)
      | ',' :: r => items value fuel (v :: acc) r
      | _ => .error .malformed

/-- The fields of a table on one line, after its first brace or a comma. -/
def inlineFields (value : List Char → Reads Value) :
    (fuel : Nat) → (fields : Fields) → (sealed_ : List KeyPath) → List Char →
      Except Flaw (Value × List Char)
  | 0, _, _, _ => .error .malformed
  | fuel + 1, fields, sealed_, cs => do
    let ((path, v), r) ← assignment value (skipSpace cs)
    if covers sealed_ path then .error .malformed
    else
      let stem := path.getLast?.getD ""
      let fields ← required (atTable false fields path.dropLast (addField stem v))
      match skipSpace r with
      | '}' :: r => .ok (.table fields, r)
      | ',' :: r =>
        inlineFields value fuel fields (if isCompound v then path :: sealed_ else sealed_) r
      | _ => .error .malformed

/-- A value; `fuel` bounds the depth. -/
def value : (fuel : Nat) → List Char → Except Flaw (Value × List Char)
  | 0, _ => .error .malformed
  | fuel + 1, cs =>
    match cs with
    | '[' :: r => items (value fuel) (r.length + 1) [] r
    | '{' :: r =>
      match skipSpace r with
      | '}' :: r => .ok (.table [], r)
      | r => inlineFields (value fuel) (r.length + 1) [] [] r
    | cs =>
      match quoted? cs with
      | some text => text.map fun (s, r) => (.str s, r)
      | none => plainScalar cs

/-- What the statements so far have written and closed. -/
structure Document where
  /-- The tables. -/
  fields : Fields := []
  /-- The table that keys are set in. -/
  header : KeyPath := []
  /-- Paths that are closed with everything below them. -/
  sealed_ : List KeyPath := []
  /-- Paths of tables that cannot be opened again. -/
  opened : List KeyPath := []
  /-- Paths that become such when the next table is opened. -/
  pending : List KeyPath := []

namespace Document

/-- The document when the next table is about to be opened. -/
def settled (d : Document) : Document := { d with opened := d.pending ++ d.opened, pending := [] }

/-- Opens a table. -/
def openTable (d : Document) (path : KeyPath) : Except Flaw Document := do
  if d.opened.contains path || covers d.sealed_ path then .error .malformed
  else
    let fields ← required (atTable true d.fields path some)
    .ok { d with fields, header := path, opened := path :: d.opened }

/-- Opens a new table at the end of a list; what was closed below it is free again. -/
def openItem (d : Document) (path : KeyPath) : Except Flaw Document := do
  if covers d.sealed_ path then .error .malformed
  else
    let fields ← required <|
      atTable true d.fields path.dropLast (addTable (path.getLast?.getD ""))
    let free (p : KeyPath) : Bool := !path.isPrefixOf p
    .ok { d with
      fields, header := path
      opened := path :: d.opened.filter free, sealed_ := d.sealed_.filter free }

/-- Sets a key of the table that was opened last. -/
def set (d : Document) (path : KeyPath) (v : Value) : Except Flaw Document := do
  let between := (List.range (path.length - 1)).map fun i => d.header ++ path.take (i + 1)
  let parent := d.header ++ path.dropLast
  if between.any d.opened.contains || covers d.sealed_ parent then .error .malformed
  else
    let fields ← required <|
      atTable true d.fields parent (addField (path.getLast?.getD "") v)
    .ok { d with
      fields, pending := between ++ d.pending
      sealed_ := if isCompound v then (d.header ++ path) :: d.sealed_ else d.sealed_ }

end Document

/-- A statement at the start of a line. -/
def statement (d : Document) (cs : List Char) :
    Except Flaw (Document × List Char) :=
  match cs with
  | '[' :: '[' :: r => do
    let (path, r) ← keyPath (skipSpace r)
    let d ← d.settled.openItem path
    match r with
    | ']' :: ']' :: r => .ok (d, r)
    | _ => .error .malformed
  | '[' :: r => do
    let (path, r) ← keyPath (skipSpace r)
    let d ← d.settled.openTable path
    .ok (d, ← required (after ']' r))
  | cs => do
    let ((path, v), r) ← assignment (value (cs.length + 1)) cs
    .ok (← d.set path v, r)

/-- The document after all lines of a text. -/
def statements : (fuel : Nat) → Document → List Char → Except Flaw Document
  | 0, _, _ => .error .malformed
  | fuel + 1, d, cs => do
    let (d, r) ←
      match skipSpace cs with
      | [] => pure (d, [])
      | '\n' :: r => pure (d, '\n' :: r)
      | '#' :: r => pure (d, '#' :: r)
      | r => statement d r
    match ← skipComment (skipSpace r) with
    | [] => .ok d
    | '\n' :: r => statements fuel d r
    | _ => .error .malformed

/-- Line feeds in place of each carriage return and line feed. -/
def unixFeeds : List Char → List Char
  | [] => []
  | '\r' :: '\n' :: r => '\n' :: unixFeeds r
  | c :: r => c :: unixFeeds r

/-- The table that a text writes. -/
def parse (text : String) : Except Flaw Fields := do
  let cs := unixFeeds text.toList
  let d ← statements (cs.length + 1) {} cs
  .ok d.fields

end EvidenceLock.Toml
