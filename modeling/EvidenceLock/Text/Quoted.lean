import EvidenceLock.Text.Printable

/-
  Quoted text, as error messages show it: between single quotes, or between double
  quotes when the text has a single quote and no double one. The quote and the
  backslash are escaped, and so is every character that is not printable.
-/

namespace EvidenceLock.Text.Quoted

/-- `count` lower-case hexadecimal digits of a number, most significant first. -/
def hex (count n : Nat) : List Char :=
  (List.range count).reverse.map fun i => Nat.digitChar (n / Nat.pow 16 i % 16)

/-- How a character is written between the given quotes. -/
def encodeChar (quote c : Char) : List Char :=
  if c = quote ∨ c = '\\' then ['\\', c]
  else if c = '\n' then ['\\', 'n']
  else if c = '\r' then ['\\', 'r']
  else if c = '\t' then ['\\', 't']
  else if isPrintable c then [c]
  else if c.toNat < 0x100 then '\\' :: 'x' :: hex 2 c.toNat
  else if c.toNat < 0x10000 then '\\' :: 'u' :: hex 4 c.toNat
  else '\\' :: 'U' :: hex 8 c.toNat

/-- The quote that a text is written between. -/
def quoteFor (cs : List Char) : Char :=
  if cs.contains '\'' && !cs.contains '"' then '"' else '\''

/-- A text between quotes. -/
def encode (s : String) : String :=
  let cs := s.toList
  let q := quoteFor cs
  String.ofList (q :: cs.flatMap (encodeChar q) ++ [q])

example : encode "it's" = "\"it's\"" := by decide +kernel
example : encode "a\n" = "'a\\n'" := by decide +kernel

end EvidenceLock.Text.Quoted
