/-
  The text of a program by character position, with the row of every position, and
  the runs of characters that programs of either family are made of: words, numbers,
  quoted texts.
-/

namespace EvidenceLock.Syntax

/-- A stretch of a text: where it starts and stops, and its first and last row. -/
structure Extent where
  /-- The position of the first character. -/
  start : Nat
  /-- The position behind the last character. -/
  stop : Nat
  /-- The row of the start, from 0. -/
  first : Nat
  /-- The row of the stop. -/
  last : Nat
  /-- A stretch does not stop in an earlier row than it starts in. -/
  ordered : first ≤ last
  deriving DecidableEq, Repr

/-- A text and its rows. -/
structure Code where
  /-- The characters. -/
  chars : Array Char
  /-- The row of each position, that of the end included. -/
  rows : Array Nat

namespace Code

/-- The rows of the positions of a text: a line feed ends a row. -/
def rowsOf (chars : Array Char) : Array Nat :=
  (chars.foldl (fun (row, rows) c =>
    let next := if c == '\n' then row + 1 else row
    (next, rows.push next)) (0, #[0])).2

/-- The code of a text. -/
def ofString (s : String) : Code :=
  let chars := s.toList.toArray
  { chars, rows := rowsOf chars }

/-- The number of characters. -/
def size (c : Code) : Nat := c.chars.size

/-- The character at a position, and the null character behind the end. -/
def char (c : Code) (i : Nat) : Char := c.chars.getD i '\x00'

/-- The row of a position. -/
def row (c : Code) (i : Nat) : Nat := c.rows.getD i (c.rows.back?.getD 0)

/-- The text between two positions. -/
def slice (c : Code) (start stop : Nat) : String :=
  String.ofList (c.chars.extract start stop).toList

/-- The stretch between two positions. -/
def extent (c : Code) (start stop : Nat) : Extent where
  start
  stop
  first := c.row start
  last := max (c.row start) (c.row stop)
  ordered := Nat.le_max_left ..

/-- Whether the text goes on with the given characters at a position. -/
def goesOn (c : Code) (i : Nat) : List Char → Bool
  | [] => true
  | x :: r => i < c.size && c.char i == x && c.goesOn (i + 1) r

/-- The first position from the given one on whose character fails the test. -/
def skipWhile (c : Code) (test : Char → Bool) (i : Nat) : Nat :=
  if h : i < c.size then
    if test (c.char i) then c.skipWhile test (i + 1) else i
  else i
  termination_by c.size - i

/-- White space between the parts of a program. -/
def isSpace (c : Char) : Bool :=
  let n := c.toNat
  (0x09 ≤ n && n ≤ 0x0D) || n == 0x20 || n == 0xA0 || n == 0x1680 ||
    (0x2000 ≤ n && n ≤ 0x200B) || n == 0x2028 || n == 0x2029 || n == 0x202F || n == 0x205F ||
    n == 0x2060 || n == 0x3000 || n == 0xFEFF

/-- The characters of words: letters, digits, the underscore, the dollar sign and everything
outside ASCII that is not white space. -/
def isWordChar (c : Char) : Bool :=
  c.isAlphanum || c == '_' || c == '$' || (0x80 ≤ c.toNat && !isSpace c)

/-- The position behind the word at a position; an escaped character counts as part of it. -/
def wordStop (c : Code) (i : Nat) : Nat :=
  if h : i < c.size then
    if isWordChar (c.char i) then c.wordStop (i + 1)
    else if c.goesOn i ['\\', 'u', '\x7b'] then
      let j := c.skipWhile (· != '\x7d') (i + 3)
      if i < j then c.wordStop (j + 1) else i
    else if c.goesOn i ['\\', 'u'] then c.wordStop (i + 2)
    else i
  else i
  termination_by c.size - i

/-- The position behind the number at a position: digits, letters and points, and a sign behind
the exponent mark of a decimal number. -/
def numberStop (c : Code) (i : Nat) : Nat :=
  let plain (d : Char) := d.isDigit || d == '_'
  if c.char i == '0' && (c.char (i + 1)).isAlpha && !(['e', 'E'].contains (c.char (i + 1))) then
    c.skipWhile isWordChar i
  else
    let whole := c.skipWhile plain i
    let fraction := if c.char whole == '.' then c.skipWhile plain (whole + 1) else whole
    let mark := c.char fraction
    let signed := c.char (fraction + 1) == '+' || c.char (fraction + 1) == '-'
    let behind := if signed then fraction + 2 else fraction + 1
    let power :=
      if (mark == 'e' || mark == 'E') && (c.char behind).isDigit then c.skipWhile plain behind
      else fraction
    if ['n', 'j', 'J', 'l', 'L'].contains (c.char power) then power + 1 else power

/-- The position behind the quoted text whose content starts at a position: it reaches up to the
quote, and a character behind a backslash does not end it. -/
def quotedStop (c : Code) (quote : List Char) (i : Nat) : Nat :=
  if h : i < c.size then
    if c.goesOn i quote then i + quote.length
    else if c.char i == '\\' then c.quotedStop quote (i + 2)
    else c.quotedStop quote (i + 1)
  else c.size
  termination_by c.size - i

end Code

end EvidenceLock.Syntax
