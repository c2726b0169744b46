import EvidenceLock.Text.Blank
import EvidenceLock.Text.DecimalDigit
import EvidenceLock.Decimal.Binary

/-
  Reading numbers from text. Decimal digits of every script count, single
  underscores may stand between digits, and white space around the number is
  ignored. Integers of more than 4300 digits are refused.
-/

namespace EvidenceLock.Decimal

open EvidenceLock.Text

/-- The largest number of digits an integer may be written with. -/
def maxDigits : Nat := 4300

/-- Why a text is not an integer. -/
inductive IntegerFlaw where
  /-- The text does not have the form of an integer. -/
  | malformed
  /-- The integer has too many digits. -/
  | tooLong (digits : Nat)
  deriving DecidableEq, Repr

/-- What is said of an integer with too many digits. -/
def tooLongMessage (digits : Nat) : String :=
  s!"Exceeds the limit ({maxDigits} digits) for integer string conversion: value has {digits} " ++
    "digits; use sys.set_int_max_str_digits() to increase the limit"

/-- What is said of an integer that has too many digits to be written. -/
def unwritableMessage : String :=
  s!"Exceeds the limit ({maxDigits} digits) for integer string conversion; " ++
    "use sys.set_int_max_str_digits() to increase the limit"

/-- An integer has few enough digits to be written. -/
def writable (i : Int) : Bool := decide (i.natAbs < Nat.pow 10 maxDigits)

/-- White space around a number: the blank characters except the four separators `1C`–`1F`. -/
def isMargin (c : Char) : Bool := isBlank c && !(0x1C ≤ c.toNat && c.toNat ≤ 0x1F)

/-- The text without margins. -/
def trimMargins (cs : List Char) : List Char :=
  ((cs.dropWhile isMargin).reverse.dropWhile isMargin).reverse

/-- The natural number written by digits, refused when there are too many. -/
def naturalOfDigits (cs : List Char) : Except IntegerFlaw Nat :=
  if maxDigits < cs.length then .error (.tooLong cs.length) else .ok (digitsValue cs)

/-- Digits with single underscores between them. -/
def wellSpaced : List Char → Bool
  | [] => false
  | [c] => isDigit c
  | c :: d :: r =>
    if isDigit c then (if d = '_' then wellSpaced r else wellSpaced (d :: r)) else false

/-- The sign of a text, and the text after it. -/
def splitSign : List Char → Bool × List Char
  | '-' :: r => (true, r)
  | '+' :: r => (false, r)
  | cs => (false, cs)

/-- The integer that a text writes. -/
def readInteger (s : String) : Except IntegerFlaw Int := do
  let (negative, body) := splitSign (trimMargins s.toList)
  let digits := body.takeWhile fun c => isDigit c || c == '_'
  if !wellSpaced digits then .error .malformed
  else
    let n ← naturalOfDigits (digits.filter (· != '_'))
    if digits.length < body.length then .error .malformed
    else .ok (if negative then -(n : Int) else n)

/-- The double nearest to `± digits · 10 ^ exponent`. -/
def ofScientific (negative : Bool) (digits : Nat) (exponent : Int) : Float :=
  if digits = 0 then nearest negative 0 1
  else
    let size : Int := (digits.log2 : Int) * 30103 / 100000
    if 400 < size + exponent then nearest negative (Nat.pow 2 1024) 1
    else if size + exponent < -400 then nearest negative 0 1
    else nearest negative (digits * Nat.pow 10 exponent.toNat) (Nat.pow 10 (-exponent).toNat)

/-- The digits at the start of a text, underscores left out, and what follows; nothing when an
underscore stands at the end or beside another. -/
def takeDigits (cs : List Char) : Option (List Char × List Char) :=
  let run := cs.takeWhile fun c => isDigit c || c == '_'
  if run.isEmpty then some ([], cs)
  else if wellSpaced run then some (run.filter (· != '_'), cs.drop run.length)
  else none

/-- The exponent at the end of a number: empty, or `e` with an optional sign and digits. -/
def readExponent (cs : List Char) : Option Int :=
  match cs with
  | [] => some 0
  | c :: r =>
    if c = 'e' ∨ c = 'E' then
      let (negative, r) := splitSign r
      match takeDigits r with
      | some (ds, []) =>
        if ds.isEmpty then none
        else
          let n : Int := (digitsValue (ds.dropWhile fun d => digitValue? d == some 0) : Nat)
          some (if negative then -n else n)
      | _ => none
    else none

/-- The names of the values that digits do not write. -/
def namedFloat? (negative : Bool) (cs : List Char) : Option Float :=
  let word := String.ofList (cs.map Char.toLower)
  if word = "inf" ∨ word = "infinity" then some (floatOfBits negative infinityBits)
  else if word = "nan" then some (floatOfBits false (infinityBits + Nat.pow 2 51))
  else none

/-- The double that a text writes, rounded to the nearest. -/
def readFloat (s : String) : Option Float := do
  let (negative, body) := splitSign (trimMargins s.toList)
  match namedFloat? negative body with
  | some x => some x
  | none =>
    let (whole, rest) ← takeDigits body
    let (fraction, rest) ←
      match rest with
      | '.' :: r => if r.head? = some '_' then none else takeDigits r
      | _ => some ([], rest)
    if whole.isEmpty && fraction.isEmpty then none
    else
      let e ← readExponent rest
      some (ofScientific negative (digitsValue (whole ++ fraction)) (e - fraction.length))

end EvidenceLock.Decimal
