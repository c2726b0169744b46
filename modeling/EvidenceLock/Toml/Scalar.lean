import EvidenceLock.Decimal.Reading
import EvidenceLock.Value

/-
  The scalars of a settings file: texts between quotes, truth values, dates,
  times and numbers. A reader takes what it can from the start of the text and
  gives back the rest.
-/

namespace EvidenceLock.Toml

/-- Why a text is not a settings file. -/
inductive Flaw where
  /-- The text does not follow the grammar. -/
  | malformed
  /-- An integer has too many digits. -/
  | tooLong (digits : Nat)
  deriving DecidableEq, Repr

/-- What was read, and the characters that follow. -/
abbrev Reads (α : Type) := Except Flaw (α × List Char)

/-- A control character that no text may hold as it stands; tabs are allowed, line feeds only where
a text may span lines. -/
def isControl (lines : Bool) (c : Char) : Bool :=
  (c.toNat < 0x20 || c.toNat == 0x7F) && c != '\t' && !(lines && c == '\n')

/-- Spaces and tabs. -/
def isSpace (c : Char) : Bool := c == ' ' || c == '\t'

/-- Spaces, tabs and line feeds. -/
def isSpaceOrFeed (c : Char) : Bool := isSpace c || c == '\n'

/-- The text without the spaces and tabs it starts with. -/
def skipSpace (cs : List Char) : List Char := cs.dropWhile isSpace

/-- A digit from `0` to `9`. -/
def isPlainDigit (c : Char) : Bool := '0' ≤ c && c ≤ '9'

/-- The value of a hexadecimal digit. -/
def hexValue? (c : Char) : Option Nat :=
  let n := c.toNat
  if isPlainDigit c then some (n - 48)
  else if 'a' ≤ c ∧ c ≤ 'f' then some (n - 87)
  else if 'A' ≤ c ∧ c ≤ 'F' then some (n - 55)
  else none

/-- The number that digits write in a base. -/
def inBase (base : Nat) (cs : List Char) : Nat :=
  cs.foldl (fun n c => base * n + (hexValue? c).getD 0) 0

/-- The character with a code of `count` hexadecimal digits. -/
def hexChar (count : Nat) (cs : List Char) : Reads Char :=
  let digits := cs.take count
  if digits.length = count ∧ digits.all fun c => (hexValue? c).isSome then
    let n := inBase 16 digits
    if n.isValidChar then .ok (Char.ofNat n, cs.drop count) else .error .malformed
  else .error .malformed

/-- The character that a letter after a backslash stands for. -/
def escaped? (c : Char) : Option Char :=
  match c with
  | 'b' => some (Char.ofNat 8)
  | 't' => some '\t'
  | 'n' => some '\n'
  | 'f' => some (Char.ofNat 12)
  | 'r' => some '\r'
  | '"' => some '"'
  | '\\' => some '\\'
  | _ => none

/-- What a backslash and the characters after it stand for. In a text of several lines, a backslash
at the end of a line swallows the white space up to the next character. -/
def escape (lines : Bool) (cs : List Char) : Reads (List Char) :=
  match cs with
  | [] => .error .malformed
  | c :: r =>
    if lines ∧ isSpaceOrFeed c then
      match skipSpace cs with
      | [] => .ok ([], [])
      | '\n' :: r => .ok ([], r.dropWhile isSpaceOrFeed)
      | _ => .error .malformed
    else if c = 'u' then (hexChar 4 r).map fun (d, r) => ([d], r)
    else if c = 'U' then (hexChar 8 r).map fun (d, r) => ([d], r)
    else
      match escaped? c with
      | some d => .ok ([d], r)
      | none => .error .malformed

/-- Takes a text out of the characters up to its closing quotes. -/
def basicText (lines : Bool) : (fuel : Nat) → (acc : List Char) → List Char → Reads (List Char)
  | 0, _, _ => .error .malformed
  | fuel + 1, acc, cs =>
    match cs with
    | [] => .error .malformed
    | '"' :: r =>
      if !lines then .ok (acc.reverse, r)
      else
        match r with
        | '"' :: '"' :: r => .ok (acc.reverse, r)
        | _ => basicText lines fuel ('"' :: acc) r
    | '\\' :: r =>
      match escape lines r with
      | .ok (ds, r) => basicText lines fuel (ds.reverse ++ acc) r
      | .error e => .error e
    | c :: r => if isControl lines c then .error .malformed else basicText lines fuel (c :: acc) r

/-- The characters before the next occurrence of three single quotes, and those after it. -/
def upToTriple (acc : List Char) : List Char → Option (List Char × List Char)
  | [] => none
  | '\'' :: '\'' :: '\'' :: r => some (acc.reverse, r)
  | c :: r => upToTriple (c :: acc) r

/-- Up to two more quotes that belong to the text they follow. -/
def extraQuotes (quote : Char) (text cs : List Char) : List Char × List Char :=
  let extra := (cs.take 2).takeWhile (· == quote)
  (text ++ extra, cs.drop extra.length)

/-- The text without the line feed it starts with. -/
def skipFeed (cs : List Char) : List Char :=
  match cs with
  | '\n' :: r => r
  | cs => cs

/-- A text between single quotes, which holds its characters as they stand. -/
def literal (cs : List Char) : Reads String :=
  let text := cs.takeWhile (· != '\'')
  match cs.drop text.length with
  | [] => .error .malformed
  | _ :: r => if text.any (isControl false) then .error .malformed else .ok (String.ofList text, r)

/-- A text of several lines between three single quotes. -/
def longLiteral (cs : List Char) : Reads String :=
  match upToTriple [] (skipFeed cs) with
  | none => .error .malformed
  | some (text, r) =>
    if text.any (isControl true) then .error .malformed
    else
      let (text, r) := extraQuotes '\'' text r
      .ok (String.ofList text, r)

/-- A text between double quotes. -/
def basic (cs : List Char) : Reads String :=
  (basicText false (cs.length + 1) [] cs).map fun (text, r) => (String.ofList text, r)

/-- A text of several lines between three double quotes. -/
def longBasic (cs : List Char) : Reads String :=
  (basicText true (cs.length + 1) [] (skipFeed cs)).map fun (text, r) =>
    let (text, r) := extraQuotes '"' text r
    (String.ofList text, r)

/-- Exactly `count` digits, as a number. -/
def fixedDigits (count : Nat) (cs : List Char) : Option (Nat × List Char) :=
  let digits := cs.take count
  if digits.length = count ∧ digits.all isPlainDigit then some (inBase 10 digits, cs.drop count)
  else none

/-- The text after a given character. -/
def after (c : Char) (cs : List Char) : Option (List Char) :=
  match cs with
  | d :: r => if c = d then some r else none
  | [] => none

/-- The part of a second after a point, in millionths; further digits are left out. -/
def fraction (cs : List Char) : Nat × List Char :=
  match cs with
  | '.' :: r =>
    let digits := r.takeWhile isPlainDigit
    if digits.isEmpty then (0, cs)
    else
      let six := digits.take 6
      (inBase 10 six * Nat.pow 10 (6 - six.length), r.drop digits.length)
  | _ => (0, cs)

/-- A time of day. -/
def clock? (cs : List Char) : Option (Clock × List Char) := do
  let (hour, r) ← fixedDigits 2 cs
  let (minute, r) ← fixedDigits 2 (← after ':' r)
  let (second, r) ← fixedDigits 2 (← after ':' r)
  if 23 < hour ∨ 59 < minute ∨ 59 < second then none
  else
    let (micro, r) := fraction r
    some ({ hour, minute, second, micro }, r)

/-- The number of days of a month. -/
def daysIn (year month : Nat) : Nat :=
  if month = 2 then
    if year % 4 = 0 ∧ (year % 100 ≠ 0 ∨ year % 400 = 0) then 29 else 28
  else if [4, 6, 9, 11].contains month then 30
  else 31

/-- A day; the month may not have it. -/
def day? (cs : List Char) : Option (Day × List Char) := do
  let (year, r) ← fixedDigits 4 cs
  let (month, r) ← fixedDigits 2 (← after '-' r)
  let (day, r) ← fixedDigits 2 (← after '-' r)
  if month = 0 ∨ 12 < month ∨ day = 0 ∨ 31 < day then none else some ({ year, month, day }, r)

/-- The minutes ahead of universal time. -/
def offset? (cs : List Char) : Option (Int × List Char) :=
  match cs with
  | [] => none
  | c :: r =>
    if c = 'Z' ∨ c = 'z' then some (0, r)
    else if c = '+' ∨ c = '-' then do
      let (hours, r) ← fixedDigits 2 r
      let (minutes, r) ← fixedDigits 2 (← after ':' r)
      if 23 < hours ∨ 59 < minutes then none
      else
        let total : Int := (60 * hours + minutes : Nat)
        some (if c = '-' then -total else total, r)
    else none

/-- The time after a day and a separator. -/
def clockAfterDay? (cs : List Char) : Option (Clock × List Char) :=
  match cs with
  | c :: r => if c = 'T' ∨ c = 't' ∨ c = ' ' then clock? r else none
  | [] => none

/-- A date, a time, or both; the outer nothing is for text that has the form of neither. -/
def moment? (cs : List Char) : Option (Reads Value) :=
  match day? cs with
  | some (d, r) =>
    if d.year = 0 ∨ daysIn d.year d.month < d.day then some (.error .malformed)
    else
      match clockAfterDay? r with
      | none => some (.ok (.moment (.day d), r))
      | some (c, r) =>
        match offset? r with
        | none => some (.ok (.moment (.both d c none), r))
        | some (o, r) => some (.ok (.moment (.both d c (some o)), r))
  | none => (clock? cs).map fun (c, r) => .ok (.moment (.clock c), r)

/-- The digits at the start of a text, single underscores between them left out, and the rest. -/
def spacedDigits (ok : Char → Bool) (acc : List Char) : List Char → List Char × List Char
  | [] => (acc.reverse, [])
  | c :: r =>
    if ok c then spacedDigits ok (c :: acc) r
    else if c = '_' ∧ !acc.isEmpty ∧ (r.head?.map ok).getD false then spacedDigits ok acc r
    else (acc.reverse, c :: r)

/-- An integer in base 16, 8 or 2. -/
def basedInteger? (cs : List Char) : Option (Value × List Char) :=
  match cs with
  | '0' :: c :: r =>
    let digits (base : Nat) : Option (Value × List Char) :=
      let (ds, rest) := spacedDigits (fun c => (hexValue? c).any fun n => decide (n < base)) [] r
      if ds.isEmpty then none else some (.int (inBase base ds), rest)
    if c = 'x' then digits 16 else if c = 'o' then digits 8 else if c = 'b' then digits 2 else none
  | _ => none

/-- The digits before the point: a zero, or digits that do not start with one. -/
def wholeDigits? (cs : List Char) : Option (List Char × List Char) :=
  match cs with
  | '0' :: r => some (['0'], r)
  | c :: _ => if isPlainDigit c then some (spacedDigits isPlainDigit [] cs) else none
  | [] => none

/-- The digits after the point, and the rest; none when no digit follows the point. -/
def fractionDigits (cs : List Char) : List Char × List Char :=
  match cs with
  | '.' :: r =>
    let (ds, rest) := spacedDigits isPlainDigit [] r
    if ds.isEmpty then ([], cs) else (ds, rest)
  | _ => ([], cs)

/-- The exponent, and the rest. -/
def exponent? (cs : List Char) : Option (Int × List Char) :=
  match cs with
  | c :: r =>
    if c = 'e' ∨ c = 'E' then
      let (negative, r) := Decimal.splitSign r
      let (ds, rest) := spacedDigits isPlainDigit [] r
      if ds.isEmpty then none
      else some (if negative then -(inBase 10 ds : Int) else inBase 10 ds, rest)
    else none
  | [] => none

/-- A number in base 10; nothing when the text starts with none. -/
def decimal? (cs : List Char) : Option (Reads Value) := do
  let (negative, body) := Decimal.splitSign cs
  let (whole, r) ← wholeDigits? body
  let (part, r) := fractionDigits r
  match part, exponent? r with
  | [], none =>
    if Decimal.maxDigits < whole.length then some (.error (.tooLong whole.length))
    else
      let n : Int := inBase 10 whole
      some (.ok (.int (if negative then -n else n), r))
  | part, e =>
    let (exponent, r) := e.getD (0, r)
    some (.ok (.float
      (Decimal.ofScientific negative (inBase 10 (whole ++ part)) (exponent - part.length)), r))

/-- A given word at the start of a text, and what it stands for. -/
def word? (word : String) (v : Value) (cs : List Char) : Option (Value × List Char) :=
  if Text.startsWith cs word.toList then some (v, cs.drop word.length) else none

/-- The doubles that are written as words. -/
def namedDouble? (cs : List Char) : Option (Value × List Char) :=
  ["inf", "+inf", "-inf", "nan", "+nan", "-nan"].findSome? fun word =>
    (Decimal.readFloat word).bind fun x => word? word (.float x) cs

/-- A scalar that is not a text. -/
def plainScalar (cs : List Char) : Reads Value :=
  match (word? "true" (.bool true) cs).or (word? "false" (.bool false) cs) with
  | some found => .ok found
  | none =>
    match moment? cs with
    | some found => found
    | none =>
      match basedInteger? cs with
      | some found => .ok found
      | none =>
        match decimal? cs with
        | some found => found
        | none =>
          match namedDouble? cs with
          | some found => .ok found
          | none => .error .malformed

/-- A text between quotes, if one starts here. -/
def quoted? (cs : List Char) : Option (Reads String) :=
  match cs with
  | '"' :: '"' :: '"' :: r => some (longBasic r)
  | '"' :: r => some (basic r)
  | '\'' :: '\'' :: '\'' :: r => some (longLiteral r)
  | '\'' :: r => some (literal r)
  | _ => none

end EvidenceLock.Toml
