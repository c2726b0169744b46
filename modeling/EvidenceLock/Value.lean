import EvidenceLock.Number
import EvidenceLock.Text.Quoted
import EvidenceLock.Value.Moment

/-
  Values of no fixed type: what a settings file or an outside caller may put where
  a number or a text is expected. Tables keep the order of their keys.
-/

namespace EvidenceLock

/-- A value of no fixed type. -/
inductive Value where
  /-- Nothing. -/
  | null
  /-- A truth value. -/
  | bool (b : Bool)
  /-- An integer of any size. -/
  | int (i : Int)
  /-- A double. -/
  | float (x : Float)
  /-- A text. -/
  | str (s : String)
  /-- A date, a time, or both. -/
  | moment (m : Moment)
  /-- Values in order. -/
  | list (items : List Value)
  /-- Named values in order. -/
  | table (fields : List (String × Value))
  deriving Repr, Inhabited

namespace Value

/-- The number that a value is. -/
def number? : Value → Option Number
  | .bool b => some (.flag b)
  | .int i => some (.int i)
  | .float x => some (.float x)
  | _ => none

/-- A number as a value. -/
def ofNumber : Number → Value
  | .flag b => .bool b
  | .int i => .int i
  | .float x => .float x

/-- The text that a value is. -/
def str? : Value → Option String
  | .str s => some s
  | _ => none

/-- The name of the type of a value. -/
def typeName : Value → String
  | .null => "NoneType"
  | .bool _ => "bool"
  | .int _ => "int"
  | .float _ => "float"
  | .str _ => "str"
  | .moment m => m.typeName
  | .list _ => "list"
  | .table _ => "dict"

/-- A value that counts as yes: anything but nothing, zero and what is empty. -/
def truthy : Value → Bool
  | .null => false
  | .bool b => b
  | .int i => i != 0
  | .float x => !(x == 0.0)
  | .str s => !s.isEmpty
  | .moment _ => true
  | .list items => !items.isEmpty
  | .table fields => !fields.isEmpty

mutual

/-- The value as it is written inside a list. -/
def quoted : Value → String
  | .null => "None"
  | .bool b => (Number.flag b).text
  | .int i => toString i
  | .float x => Decimal.floatText x
  | .str s => Text.Quoted.encode s
  | .moment m => m.quoted
  | .list items => "[" ++ quotedItems items ++ "]"
  | .table fields => "\x7b" ++ quotedFields fields ++ "\x7d"

/-- The items with commas between them. -/
def quotedItems : List Value → String
  | [] => ""
  | [v] => quoted v
  | v :: w :: rest => quoted v ++ ", " ++ quotedItems (w :: rest)

/-- The fields with commas between them. -/
def quotedFields : List (String × Value) → String
  | [] => ""
  | [(k, v)] => Text.Quoted.encode k ++ ": " ++ quoted v
  | (k, v) :: f :: rest =>
    Text.Quoted.encode k ++ ": " ++ quoted v ++ ", " ++ quotedFields (f :: rest)

end

/-- The value as it is shown on its own: a text as it stands, everything else as inside a list. -/
def text : Value → String
  | .str s => s
  | .moment m => m.text
  | v => v.quoted

mutual

/-- Equality of values, in which numbers are equal when their values are. -/
def same : Value → Value → Bool
  | .null, .null => true
  | .str s, .str t => s == t
  | .moment m, .moment n => m == n
  | .list xs, .list ys => sameItems xs ys
  | .table xs, .table ys => sameFields xs ys
  | v, w =>
    match v.number?, w.number? with
    | some a, some b => a.same b
    | _, _ => false

/-- Equality item by item. -/
def sameItems : List Value → List Value → Bool
  | [], [] => true
  | v :: vs, w :: ws => same v w && sameItems vs ws
  | _, _ => false

/-- Equality field by field. -/
def sameFields : List (String × Value) → List (String × Value) → Bool
  | [], [] => true
  | (k, v) :: vs, (l, w) :: ws => k == l && same v w && sameFields vs ws
  | _, _ => false

end

instance : BEq Value := ⟨same⟩

/-- The value of a field. -/
def field? (fields : List (String × Value)) (key : String) : Option Value :=
  (fields.find? fun f => f.1 == key).map Prod.snd

end Value

end EvidenceLock
