import EvidenceLock.Text.Blank
import EvidenceLock.Value
import EvidenceLock.Text.Quoted

/-
  Values written as JSON: two columns of indentation for each level, `: ` after a
  name, and every character outside of printable ASCII as `\u` with the UTF-16
  units of the character.
-/

namespace EvidenceLock.Json

/-- The UTF-16 units of a character. -/
def units (c : Char) : List Nat :=
  let n := c.toNat
  if n < 0x10000 then [n] else [0xD800 + (n - 0x10000) / 0x400, 0xDC00 + (n - 0x10000) % 0x400]

/-- How a character is written inside a text. -/
def encodeChar (c : Char) : List Char :=
  if c = '"' ∨ c = '\\' then ['\\', c]
  else if c = '\n' then ['\\', 'n']
  else if c = '\r' then ['\\', 'r']
  else if c = '\t' then ['\\', 't']
  else if c.toNat = 8 then ['\\', 'b']
  else if c.toNat = 12 then ['\\', 'f']
  else if 0x20 ≤ c.toNat ∧ c.toNat < 0x7F then [c]
  else (units c).flatMap fun u => '\\' :: 'u' :: Text.Quoted.hex 4 u

/-- A text between quotes. -/
def quote (s : String) : String := String.ofList ('"' :: s.toList.flatMap encodeChar ++ ['"'])

/-- A double; the values that digits do not write get their names. -/
def floatText (x : Float) : String :=
  match Decimal.Binary.ofFloat x with
  | .nan => "NaN"
  | .infinite negative => if negative then "-Infinity" else "Infinity"
  | .finite .. => Decimal.floatText x

/-- The start of a line at a depth. -/
def lineStart (depth : Nat) : String := "\n" ++ String.ofList (List.replicate (2 * depth) ' ')

/-- Written parts between brackets, each on a line of its own. -/
def bracketed (opening closing : String) (depth : Nat) (parts : List String) : String :=
  if parts.isEmpty then opening ++ closing
  else
    opening ++ lineStart (depth + 1) ++ Text.joinWith ("," ++ lineStart (depth + 1)) parts ++
      lineStart depth ++ closing

mutual

/-- A value at a depth. -/
def encodeAt (depth : Nat) : Value → String
  | .null => "null"
  | .bool b => if b then "true" else "false"
  | .int i => toString i
  | .float x => floatText x
  | .str s => quote s
  | .moment m => quote m.text
  | .list items => bracketed "[" "]" depth (encodeItems (depth + 1) items)
  | .table fields => bracketed "\x7b" "\x7d" depth (encodeFields (depth + 1) fields)

/-- The items of a list. -/
def encodeItems (depth : Nat) : List Value → List String
  | [] => []
  | v :: rest => encodeAt depth v :: encodeItems depth rest

/-- The fields of a table. -/
def encodeFields (depth : Nat) : List (String × Value) → List String
  | [] => []
  | (k, v) :: rest => (quote k ++ ": " ++ encodeAt depth v) :: encodeFields depth rest

end

/-- A value as a text of several lines. -/
def encode (v : Value) : String := encodeAt 0 v

end EvidenceLock.Json
