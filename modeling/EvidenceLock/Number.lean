import EvidenceLock.Decimal.Shortest

/-
  Numbers as settings and measurements hold them: flags, integers of any size and
  doubles, kept apart although a flag counts as 0 or 1. Comparison is by exact
  value, and nothing compares with a double that is not a number.
-/

namespace EvidenceLock

/-- A number in one of three notations. -/
inductive Number where
  /-- A truth value, which counts as 0 or 1. -/
  | flag (b : Bool)
  /-- An integer. -/
  | int (i : Int)
  /-- A double. -/
  | float (x : Float)
  deriving Repr, Inhabited

namespace Number

/-- The integer that a flag or an integer stands for. -/
def toInt? : Number → Option Int
  | .flag b => some (if b then 1 else 0)
  | .int i => some i
  | .float _ => none

/-- The order of two numbers; nothing when one of them is not a number. -/
def compare? (a b : Number) : Option Ordering :=
  match a, b with
  | .float x, .float y => Decimal.compareFloat? x y
  | .float x, b => b.toInt?.bind fun j => (Decimal.compareInt? j x).map Ordering.swap
  | a, .float y => a.toInt?.bind fun i => Decimal.compareInt? i y
  | a, b => a.toInt?.bind fun i => b.toInt?.map (compare i)

/-- Strictly smaller. -/
def lt (a b : Number) : Bool := compare? a b == some .lt

/-- Smaller or equal. -/
def le (a b : Number) : Bool :=
  match compare? a b with
  | some .lt | some .eq => true
  | _ => false

/-- Equal in value. -/
def same (a b : Number) : Bool := compare? a b == some .eq

/-- The number as a double. -/
def toFloat : Number → Float
  | .flag b => if b then 1.0 else 0.0
  | .int i => Decimal.ofInt i
  | .float x => x

/-- The number in words and digits. -/
def text : Number → String
  | .flag b => if b then "True" else "False"
  | .int i => toString i
  | .float x => Decimal.floatText x

instance : OfNat Number n := ⟨.int n⟩

theorem compare?_int (i j : Int) : compare? (.int i) (.int j) = some (compare i j) := rfl

theorem lt_int (i j : Int) : lt (.int i) (.int j) = decide (i < j) := by
  unfold lt
  rw [compare?_int]
  by_cases h : i < j
  · simp [h, compare, compareOfLessAndEq]
  · by_cases e : i = j <;> simp [h, e, compare, compareOfLessAndEq]

theorem le_int (i j : Int) : le (.int i) (.int j) = decide (i ≤ j) := by
  unfold le
  rw [compare?_int]
  rcases Int.lt_trichotomy i j with h | h | h
  · simp [h, Int.le_of_lt h, compare, compareOfLessAndEq]
  · simp [h, compare, compareOfLessAndEq]
  · have h₁ : ¬ i < j := by omega
    have h₂ : ¬ i = j := by omega
    have h₃ : ¬ i ≤ j := by omega
    simp [h₁, h₂, h₃, compare, compareOfLessAndEq]

end Number

end EvidenceLock
