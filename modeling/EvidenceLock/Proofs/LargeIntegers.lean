import EvidenceLock.Decimal.Binary
import Mathlib.Data.Nat.Log
import Mathlib.Tactic.Ring

/-!
# Integers beyond the range of doubles

An integer rounds to infinity exactly from `intLimit` on, the middle between the largest finite
double `2 ^ 1024 - 2 ^ 971` and the power of two after it: the tie has an odd mantissa below it and
goes up.
-/

namespace EvidenceLock.Decimal

/-- Half of the distance between neighbours among the largest doubles. -/
@[irreducible] def halfUnit : Nat := 2 ^ 970

/-- The smallest natural number whose nearest double is infinity: `2 ^ 1024 - 2 ^ 970`. -/
def intLimit : Nat := (2 ^ 54 - 1) * halfUnit

theorem two_pow_le {m k : Nat} (h : m ≤ k + 970) : 2 ^ m ≤ 2 ^ k * halfUnit := by
  unfold halfUnit
  rw [← Nat.pow_add]
  exact Nat.pow_le_pow_right (by decide) h

theorem le_two_pow {m k : Nat} (h : k + 970 ≤ m) : 2 ^ k * halfUnit ≤ 2 ^ m := by
  unfold halfUnit
  rw [← Nat.pow_add]
  exact Nat.pow_le_pow_right (by decide) h

theorem halfUnit_pos : 0 < halfUnit := by
  have h : 2 ^ 0 ≤ 2 ^ 0 * halfUnit := two_pow_le (Nat.zero_le _)
  omega

/-! ## Rounded quotients -/

theorem le_roundDiv {num den b : Nat} (hden : 0 < den) (h : b * den ≤ num) :
    b ≤ roundDiv num den := by
  have hq : b ≤ num / den := (Nat.le_div_iff_mul_le hden).2 h
  unfold roundDiv
  dsimp only
  split_ifs <;> omega

theorem roundDiv_le {num den b : Nat} (hden : 0 < den) (h : num ≤ b * den) :
    roundDiv num den ≤ b := by
  have hq : num / den ≤ b := Nat.div_le_of_le_mul (by rwa [Nat.mul_comm])
  rcases Nat.lt_or_eq_of_le hq with hlt | heq
  · unfold roundDiv
    dsimp only
    split_ifs <;> omega
  · -- Nothing is left over, so nothing is rounded up.
    have hnum := Nat.div_add_mod num den
    rw [heq, Nat.mul_comm den b] at hnum
    have hrest : 2 * (num % den) < den := by omega
    unfold roundDiv
    dsimp only
    rw [if_pos hrest]
    exact hq

/-- Half a unit above an odd number, and from there on, a quotient rounds up. -/
theorem lt_roundDiv_iff {num half b : Nat} (hhalf : 0 < half) (hodd : b % 2 = 1) :
    b < roundDiv num (2 * half) ↔ (2 * b + 1) * half ≤ num := by
  have hnum := Nat.div_add_mod num (2 * half)
  have hrest : num % (2 * half) < 2 * half := Nat.mod_lt _ (by omega)
  have hgoal : (2 * b + 1) * half = 2 * half * b + half := by ring
  rw [hgoal]
  -- Only a quotient of `b` leaves it to the remainder, and a tie rounds up since `b` is odd.
  rcases Nat.lt_trichotomy (num / (2 * half)) b with hlt | heq | hgt
  · refine iff_of_false ?_ ?_
    · unfold roundDiv
      dsimp only
      split_ifs <;> omega
    · have hstep : 2 * half * (num / (2 * half)) + 2 * half ≤ 2 * half * b := by
        rw [← Nat.mul_succ]
        exact Nat.mul_le_mul_left _ hlt
      omega
  · unfold roundDiv
    dsimp only
    rw [heq] at hnum ⊢
    split_ifs <;> omega
  · refine iff_of_true (Nat.lt_of_lt_of_le hgt (le_roundDiv (by omega) ?_)) ?_
    · exact Nat.div_mul_le_self num (2 * half)
    · have hstep : 2 * half * b + 2 * half ≤ 2 * half * (num / (2 * half)) := by
        rw [← Nat.mul_succ]
        exact Nat.mul_le_mul_left _ hgt
      omega

/-! ## The double nearest to an integer -/

/-- The bits of the double nearest to an integer with its highest bit at `k`. -/
theorem nearestBits_natCast {n : Nat} (hn : n ≠ 0) :
    nearestBits n 1 =
      if 1024 ≤ n.log2 then infinityBits
      else
        let q := roundDiv (n * 2 ^ (52 - n.log2)) (2 ^ (n.log2 - 52))
        min (if q < 2 ^ 52 then q else (n.log2 + 1023) * 2 ^ 52 + (q - 2 ^ 52)) infinityBits := by
  have htop : atLeastPow2 n 1 n.log2 = true := by
    simpa [atLeastPow2] using Nat.log2_self_le hn
  have hmax : max ((n.log2 : Int) - 52) (-1074) = n.log2 - 52 := by omega
  have hone : (Nat.log2 1 : Int) = 0 := by decide
  have hneg : (-((n.log2 : Int) - 52)).toNat = 52 - n.log2 := by omega
  have hpos : ((n.log2 : Int) - 52).toNat = n.log2 - 52 := by omega
  have hfield : ((n.log2 : Int) - 52 + 1075).toNat = n.log2 + 1023 := by omega
  unfold nearestBits
  simp only [if_neg hn, hone, Int.sub_zero, htop, if_true, hmax, hneg, hpos, hfield, Nat.pow_eq,
    Nat.one_mul]
  by_cases h : 1024 ≤ n.log2
  · rw [if_pos h, if_pos (by omega)]
  · rw [if_neg h, if_neg (by omega)]

/-- **An integer rounds to infinity** exactly from `intLimit` on. -/
theorem nearestBits_eq_infinityBits_iff {n : Nat} :
    nearestBits n 1 = infinityBits ↔ intLimit ≤ n := by
  have hbits : infinityBits = 2047 * 2 ^ 52 := rfl
  have hlimit : intLimit = (2 ^ 54 - 1) * halfUnit := rfl
  by_cases hn : n = 0
  · subst hn
    have := halfUnit_pos
    exact iff_of_false (by decide) (by omega)
  rw [nearestBits_natCast hn]
  have hlow := Nat.log2_self_le hn
  have hhigh : n < 2 ^ (n.log2 + 1) := Nat.lt_log2_self
  rcases Nat.lt_trichotomy n.log2 1023 with hlt | heq | hgt
  · -- The mantissa has at most 53 bits after rounding, and the exponent is below the largest one.
    have hbelow : n < intLimit := by
      have hpow : 2 ^ (n.log2 + 1) ≤ 2 ^ 53 * halfUnit := two_pow_le hlt
      omega
    have hq : roundDiv (n * 2 ^ (52 - n.log2)) (2 ^ (n.log2 - 52)) ≤ 2 ^ 53 := by
      refine roundDiv_le (Nat.two_pow_pos _) ?_
      calc n * 2 ^ (52 - n.log2)
          ≤ 2 ^ (n.log2 + 1) * 2 ^ (52 - n.log2) := Nat.mul_le_mul_right _ (Nat.le_of_lt hhigh)
        _ = 2 ^ (n.log2 + 1 + (52 - n.log2)) := (Nat.pow_add 2 _ _).symm
        _ = 2 ^ (53 + (n.log2 - 52)) := congrArg (2 ^ ·) (by omega)
        _ = 2 ^ 53 * 2 ^ (n.log2 - 52) := Nat.pow_add 2 _ _
    refine iff_of_false ?_ (Nat.not_le.2 hbelow)
    rw [if_neg (by omega), hbits]
    dsimp only
    split <;> omega
  · -- In the largest binade it is the tie that decides.
    have hunit : 2 ^ (n.log2 - 52) = 2 * halfUnit :=
      Nat.le_antisymm (two_pow_le (k := 1) (by omega)) (le_two_pow (k := 1) (by omega))
    have hscale : n * 2 ^ (52 - n.log2) = n := by
      rw [Nat.sub_eq_zero_of_le (by omega), Nat.pow_zero, Nat.mul_one]
    have hq : 2 ^ 53 - 1 < roundDiv n (2 * halfUnit) ↔ (2 * (2 ^ 53 - 1) + 1) * halfUnit ≤ n :=
      lt_roundDiv_iff halfUnit_pos (by decide)
    have hmin : 2 ^ 52 ≤ roundDiv n (2 * halfUnit) := by
      refine le_roundDiv (Nat.mul_pos (by decide) halfUnit_pos) ?_
      rw [← hunit, ← Nat.pow_add, Nat.add_sub_cancel' (by omega)]
      exact hlow
    rw [if_neg (by omega), hunit, hscale, hbits]
    generalize roundDiv n (2 * halfUnit) = q at hq hmin
    dsimp only
    rw [if_neg (by omega)]
    omega
  · -- The highest bit alone is too large for an exponent.
    refine iff_of_true (if_pos hgt) ?_
    have hpow : 2 ^ 54 * halfUnit ≤ 2 ^ n.log2 := le_two_pow hgt
    omega

end EvidenceLock.Decimal
