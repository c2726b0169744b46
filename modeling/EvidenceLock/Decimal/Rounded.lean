import EvidenceLock.Decimal.Shortest

/-
  Doubles rounded to a number of decimals or of significant digits. The rounding
  looks at the exact value of the double, and a tie goes to the even digit.
-/

namespace EvidenceLock.Decimal

/-- The digits of a nonnegative dyadic number rounded to `places` decimals, as one natural. -/
def roundedUnits (places : Nat) (mantissa : Nat) (exponent : Int) : Nat :=
  let (num, den) := ratio mantissa exponent
  roundDiv (num * Nat.pow 10 places) den

/-- The double nearest to the value rounded to `places` decimals. -/
def roundTo (places : Nat) (x : Float) : Float :=
  match Binary.ofFloat x with
  | .finite negative m e => nearest negative (roundedUnits places m e) (Nat.pow 10 places)
  | _ => x

/-- A natural number of units of `10 ^ -places` with the point among its digits. -/
def unitsText (places units : Nat) : String :=
  if places = 0 then toString units
  else toString (units / Nat.pow 10 places) ++ "." ++ padded places (units % Nat.pow 10 places)

/-- A double with exactly `places` decimals. -/
def fixedText (places : Nat) (x : Float) : String :=
  match Binary.ofFloat x with
  | .nan => "nan"
  | .infinite negative => if negative then "-inf" else "inf"
  | .finite negative m e =>
    (if negative then "-" else "") ++ unitsText places (roundedUnits places m e)

/-- A positive dyadic number rounded to `count` significant digits, without trailing zeros. -/
def significantDigits (count mantissa : Nat) (exponent : Int) : Digits :=
  if mantissa = 0 then { value := 0, count := 1, point := 1 }
  else
    let (num, den) := ratio mantissa exponent
    let point := pointOf num den
    let p := point - count
    normalDigits (roundDiv (num * Nat.pow 10 (-p).toNat) (den * Nat.pow 10 p.toNat)) count point

/-- A double with a sign and at most six significant digits: positional from `0.0001` up to below a
million, scientific elsewhere. -/
def signedGeneralText (x : Float) : String :=
  match Binary.ofFloat x with
  | .nan => "+nan"
  | .infinite negative => if negative then "-inf" else "+inf"
  | .finite negative m e =>
    let d := significantDigits 6 m e
    let body := if -4 < d.point ∧ d.point ≤ 6 then positional d "" else scientific d
    (if negative then "-" else "+") ++ body

end EvidenceLock.Decimal
