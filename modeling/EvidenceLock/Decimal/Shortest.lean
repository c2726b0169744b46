import EvidenceLock.Decimal.Binary

/-
  The shortest decimal that reads back as a given double, and the written forms
  built on it. The digits are found on the grids of 1, 2, … 17 digits: the first
  grid with a point that rounds to the double wins, and of two such points the
  nearer.
-/

namespace EvidenceLock.Decimal

/-- The number `0.d₁d₂… · 10 ^ point`; the digits start with a nonzero one unless the number is
zero. -/
structure Digits where
  /-- The significant digits as one natural. -/
  value : Nat
  /-- How many digits there are. -/
  count : Nat
  /-- The position of the decimal point, counted from before the first digit. -/
  point : Int
  deriving DecidableEq, Repr

/-- `num / den` is at least `10 ^ k`. -/
def atLeastPow10 (num den : Nat) (k : Int) : Bool :=
  den * Nat.pow 10 k.toNat ≤ num * Nat.pow 10 (-k).toNat

/-- The `k` with `10 ^ (k - 1) ≤ num / den < 10 ^ k`, for a positive ratio. -/
def pointOf (num den : Nat) : Int :=
  let estimate := Int.fdiv (((num.log2 : Int) - den.log2) * 30103) 100000
  let low := estimate - 1
  let step (k : Int) := if atLeastPow10 num den k then k + 1 else k
  step (step (step (step low)))

/-- The closed or open interval of ratios that round to `mantissa · 2 ^ exponent`, as numerators
over a common denominator: low end, value, high end, denominator, and whether the ends belong to
it. -/
def roundingInterval (mantissa : Nat) (exponent : Int) : Nat × Nat × Nat × Nat × Bool :=
  let below := if mantissa = Nat.pow 2 52 ∧ -1074 < exponent then 1 else 2
  let scale := Nat.pow 2 exponent.toNat
  let den := 4 * Nat.pow 2 (-exponent).toNat
  ((4 * mantissa - below) * scale, 4 * mantissa * scale, (4 * mantissa + 2) * scale, den,
    mantissa % 2 == 0)

/-- The candidate with `count` digits, if one rounds to the double. -/
def candidate? (low value high den : Nat) (closed : Bool) (point : Int) (count : Nat) :
    Option Nat :=
  let p := point - count
  let up := Nat.pow 10 p.toNat
  let down := Nat.pow 10 (-p).toNat
  let q := value * down / (den * up)
  let inside (c : Nat) : Bool :=
    let x := c * up * den
    let lo := low * down
    let hi := high * down
    if closed then lo ≤ x && x ≤ hi else lo < x && x < hi
  let distance (c : Nat) : Nat :=
    let x := c * up * den
    let v := value * down
    if x ≤ v then v - x else x - v
  match inside q, inside (q + 1) with
  | true, true =>
    if distance q < distance (q + 1) then some q
    else if distance (q + 1) < distance q then some (q + 1)
    else some (if q % 2 = 0 then q else q + 1)
  | true, false => some q
  | false, true => some (q + 1)
  | false, false => none

/-- The digits without trailing zeros. -/
def stripZeros : Nat → Digits → Digits
  | 0, d => d
  | fuel + 1, d =>
    if d.count ≤ 1 ∨ d.value % 10 ≠ 0 then d
    else stripZeros fuel { d with value := d.value / 10, count := d.count - 1 }

/-- `value` as digits before `point`; a power of ten moves the point. -/
def normalDigits (value count : Nat) (point : Int) : Digits :=
  let d : Digits :=
    if value = Nat.pow 10 count then { value := 1, count := 1, point := point + 1 }
    else { value, count, point }
  stripZeros 20 d

/-- The shortest digits of `mantissa · 2 ^ exponent`. -/
def shortestDigits (mantissa : Nat) (exponent : Int) : Digits :=
  if mantissa = 0 then { value := 0, count := 1, point := 1 }
  else
    let (low, value, high, den, closed) := roundingInterval mantissa exponent
    let point := pointOf value den
    let found := (List.range 17).findSome? fun i =>
      (candidate? low value high den closed point (i + 1)).map fun c => (c, i + 1)
    match found with
    | some (c, count) => normalDigits c count point
    | none => { value := 0, count := 1, point := 1 }

/-- Exactly `width` decimal digits of a natural. -/
def padded (width n : Nat) : String :=
  let s := toString n
  String.ofList (List.replicate (width - s.length) '0') ++ s

/-- `count` zeros. -/
def zeros (count : Nat) : String := String.ofList (List.replicate count '0')

/-- A power of ten as `e+07` is written: a sign and at least two digits. -/
def exponentText (e : Int) : String :=
  (if e < 0 then "e-" else "e+") ++ padded 2 e.natAbs

/-- Digits with the point among them; `whole` gets `.0` when nothing follows the point. -/
def positional (d : Digits) (whole : String) : String :=
  let s := padded d.count d.value
  if d.point ≤ 0 then "0." ++ zeros (-d.point).toNat ++ s
  else
    let n := d.point.toNat
    if d.count ≤ n then s ++ zeros (n - d.count) ++ whole
    else String.ofList (s.toList.take n) ++ "." ++ String.ofList (s.toList.drop n)

/-- Digits as `d.ddde±xx`. -/
def scientific (d : Digits) : String :=
  let s := (padded d.count d.value).toList
  let tail := s.drop 1
  String.ofList (s.take 1) ++ (if tail.isEmpty then "" else "." ++ String.ofList tail) ++
    exponentText (d.point - 1)

/-- The shortest text of a double: positional from `0.0001` up to below `10 ^ 16`, scientific
elsewhere, and always with a point or an exponent. -/
def floatText (x : Float) : String :=
  match Binary.ofFloat x with
  | .nan => "nan"
  | .infinite negative => if negative then "-inf" else "inf"
  | .finite negative m e =>
    let d := shortestDigits m e
    let body := if -4 < d.point ∧ d.point ≤ 16 then positional d ".0" else scientific d
    if negative then "-" ++ body else body

end EvidenceLock.Decimal
