/-
  Double-precision numbers as exact dyadic rationals. A finite double is
  `± mantissa · 2 ^ exponent`; `nearest` goes the other way, from any ratio of
  naturals to the closest double, a tie to the even mantissa.
-/

namespace EvidenceLock.Decimal

/-- What a double stands for. -/
inductive Binary where
  /-- Not a number. -/
  | nan
  /-- Beyond every finite number. -/
  | infinite (negative : Bool)
  /-- The value `± mantissa · 2 ^ exponent`. -/
  | finite (negative : Bool) (mantissa : Nat) (exponent : Int)
  deriving DecidableEq, Repr

/-- The exact value of a double. -/
def Binary.ofFloat (x : Float) : Binary :=
  let bits : Nat := x.toBits.toNat
  let negative := Nat.pow 2 63 ≤ bits
  let field : Nat := bits / Nat.pow 2 52 % 2048
  let fraction : Nat := bits % Nat.pow 2 52
  if field = 2047 then if fraction = 0 then .infinite negative else .nan
  else if field = 0 then .finite negative fraction (-1074)
  else .finite negative (fraction + Nat.pow 2 52) ((field : Int) - 1075)

/-- The double with the given sign and bits below the sign. -/
def floatOfBits (negative : Bool) (bits : Nat) : Float :=
  Float.ofBits (UInt64.ofNat (if negative then bits + Nat.pow 2 63 else bits))

/-- The bits below the sign of infinity. -/
def infinityBits : Nat := 2047 * Nat.pow 2 52

/-- The quotient of two naturals rounded to the nearest natural, a tie to the even one. -/
def roundDiv (num den : Nat) : Nat :=
  let q := num / den
  let r := num % den
  if 2 * r < den then q
  else if den < 2 * r then q + 1
  else if q % 2 = 0 then q else q + 1

/-- `num / den` is at least `2 ^ k`. -/
def atLeastPow2 (num den : Nat) (k : Int) : Bool :=
  den * Nat.pow 2 k.toNat ≤ num * Nat.pow 2 (-k).toNat

/-- The bits of the double nearest to `num / den`. -/
def nearestBits (num den : Nat) : Nat :=
  if num = 0 then 0
  else
    let k := (num.log2 : Int) - den.log2
    let top := if atLeastPow2 num den k then k else k - 1
    let e := max (top - 52) (-1074)
    if 972 ≤ e then infinityBits
    else
      let q := roundDiv (num * Nat.pow 2 (-e).toNat) (den * Nat.pow 2 e.toNat)
      let bits := if q < Nat.pow 2 52 then q else (e + 1075).toNat * Nat.pow 2 52 + (q - Nat.pow 2 52)
      min bits infinityBits

/-- The double nearest to `± num / den`, a tie to the even mantissa. -/
def nearest (negative : Bool) (num den : Nat) : Float :=
  floatOfBits negative (nearestBits num den)

/-- The double nearest to an integer. -/
def ofInt (i : Int) : Float := nearest (i < 0) i.natAbs 1

/-- A nonnegative dyadic number as a ratio of naturals. -/
def ratio (mantissa : Nat) (exponent : Int) : Nat × Nat :=
  (mantissa * Nat.pow 2 exponent.toNat, Nat.pow 2 (-exponent).toNat)

/-- The integer part of a finite double; nothing for the others. -/
def truncate? (x : Float) : Option Int :=
  match Binary.ofFloat x with
  | .finite negative m e =>
    let (num, den) := ratio m e
    some (if negative then -(num / den : Nat) else (num / den : Nat))
  | _ => none

/-- How an integer compares with a double; nothing when the double is not a number. -/
def compareInt? (i : Int) (x : Float) : Option Ordering :=
  match Binary.ofFloat x with
  | .nan => none
  | .infinite negative => some (if negative then .gt else .lt)
  | .finite negative m e =>
    let (num, den) := ratio m e
    let scaled : Int := if negative then -(num : Int) else num
    some (compare (i * den) scaled)

/-- How two doubles compare; nothing when one is not a number. -/
def compareFloat? (x y : Float) : Option Ordering :=
  if x < y then some .lt else if y < x then some .gt else if x == y then some .eq else none

example : roundDiv 5 2 = 2 ∧ roundDiv 7 2 = 4 ∧ roundDiv 8 3 = 3 := by decide
example : nearestBits 1 1 = 0x3FF0000000000000 := by decide +kernel

end EvidenceLock.Decimal
