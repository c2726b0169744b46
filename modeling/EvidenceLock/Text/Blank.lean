/-
  Blank characters and the trimming that goes with them. Every rule of the
  library that speaks of white space means `Text.isBlank`, the Unicode set below;
  a line is blank when all its characters are.
-/

namespace EvidenceLock.Text

/-- The twenty-nine characters that count as white space. -/
def isBlank (c : Char) : Bool :=
  let n := c.toNat
  (0x09 ≤ n && n ≤ 0x0D) || (0x1C ≤ n && n ≤ 0x20) || n == 0x85 || n == 0xA0 || n == 0x1680 ||
    (0x2000 ≤ n && n ≤ 0x200A) || n == 0x2028 || n == 0x2029 || n == 0x202F || n == 0x205F ||
    n == 0x3000

/-- No character but white space. -/
def allBlank (cs : List Char) : Bool := cs.all isBlank

/-- The text without its leading white space. -/
def trimStart (cs : List Char) : List Char := cs.dropWhile isBlank

/-- The text without its trailing white space. -/
def trimEnd (cs : List Char) : List Char := (cs.reverse.dropWhile isBlank).reverse

/-- The text without white space at either end. -/
def trim (cs : List Char) : List Char := trimEnd (trimStart cs)

/-- Every run of white space becomes one space. -/
def collapse (cs : List Char) : List Char := go false [] cs
where
  /-- `inRun` says that the character before was blank; `acc` is the result so far, reversed. -/
  go (inRun : Bool) (acc : List Char) : List Char → List Char
    | [] => acc.reverse
    | c :: r =>
      if isBlank c then go true (if inRun then acc else ' ' :: acc) r
      else go false (c :: acc) r

/-- The string without white space at either end. -/
def trimmed (s : String) : String := String.ofList (trim s.toList)

/-- The string holds something besides white space. -/
def hasInk (s : String) : Bool := !allBlank s.toList

/-- The text begins with the given characters. -/
def startsWith (text start : List Char) : Bool := start.isPrefixOf text

/-- The pieces between single occurrences of a separator; one more piece than separators. -/
def splitOnChar (sep : Char) (cs : List Char) : List (List Char) := go [] cs
where
  /-- `piece` is the current piece, reversed. -/
  go (piece : List Char) : List Char → List (List Char)
    | [] => [piece.reverse]
    | c :: r => if c = sep then piece.reverse :: go [] r else go (c :: piece) r

/-- The strings put one after the other with a separator between neighbours. -/
def joinWith (sep : String) : List String → String
  | [] => ""
  | s :: rest => rest.foldl (fun acc t => acc ++ sep ++ t) s

theorem isBlank_newline : isBlank '\n' = true := by decide

theorem isBlank_space : isBlank ' ' = true := by decide

end EvidenceLock.Text
