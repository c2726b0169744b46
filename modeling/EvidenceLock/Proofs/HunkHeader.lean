import EvidenceLock.Proofs.Diff

/-!
# Hunk headers that are written

A hunk header is written with natural numbers in decimal digits (`Diff.rangesRow`) and is read as
what was written, whatever follows it (`Diff.hunkOfHeader_rangesRow`), as long as the numbers are
not too long.
-/

namespace EvidenceLock

open EvidenceLock.Text EvidenceLock.Decimal

/-! ## Digits -/

namespace Text

theorem digitValue?_of_isDigit {c : Char} (h : c.isDigit = true) :
    digitValue? c = some (c.toNat - '0'.toNat) := by
  obtain ⟨hlow, hhigh⟩ : 0x30 ≤ c.toNat ∧ c.toNat ≤ 0x39 := Char.isDigit_iff_toNat.1 h
  unfold digitValue?
  dsimp only
  rw [if_pos (by omega), if_pos ⟨hlow, hhigh⟩]
  rfl

theorem isDigit_of_mem_toDigits {n : Nat} {c : Char} (h : c ∈ Nat.toDigits 10 n) :
    isDigit c = true := by
  have hc := Nat.isDigit_of_mem_toDigits (by decide) (by decide) h
  rw [isDigit, digitValue?_of_isDigit hc, Option.isSome_some]

theorem digitsValue_toDigits (n : Nat) : digitsValue (Nat.toDigits 10 n) = n := by
  have hdigits : ∀ (cs : List Char) (m : Nat), (∀ c ∈ cs, c.isDigit = true) →
      cs.foldl (fun m c => 10 * m + (digitValue? c).getD 0) m = Nat.ofDigitChars 10 cs m := by
    intro cs
    induction cs with
    | nil => exact fun _ _ => rfl
    | cons c cs ih =>
      intro m hcs
      rw [List.foldl_cons, Nat.ofDigitChars_cons, ih _ fun d hd => hcs d (List.mem_cons_of_mem c hd),
        digitValue?_of_isDigit (hcs c List.mem_cons_self), Option.getD_some]
  rw [digitsValue, hdigits _ 0 fun c hc => Nat.isDigit_of_mem_toDigits (by decide) (by decide) hc]
  exact Nat.ofDigitChars_toDigits (by decide) (by decide)

theorem not_mem_toDigits {n : Nat} {c : Char} (hc : isDigit c = false) : c ∉ Nat.toDigits 10 n := by
  intro h
  rw [isDigit_of_mem_toDigits h] at hc
  cases hc

theorem trimEnd_isPrefix (cs : List Char) : trimEnd cs <+: cs := by
  have h := List.reverse_prefix.2 (List.dropWhile_suffix (l := cs.reverse) isBlank)
  rwa [List.reverse_reverse] at h

theorem trimEnd_concat (cs : List Char) {c : Char} (hc : isBlank c = true) :
    trimEnd (cs ++ [c]) = trimEnd cs := by
  rw [trimEnd, List.reverse_append, List.reverse_singleton, List.singleton_append,
    List.dropWhile_cons_of_pos hc, trimEnd]

theorem trimEnd_append_cons (cs tail : List Char) {c : Char} (hc : isBlank c = false) :
    trimEnd (cs ++ c :: tail) = cs ++ c :: trimEnd tail := by
  have hreverse : (cs ++ c :: tail).reverse = tail.reverse ++ c :: cs.reverse := by simp
  rw [trimEnd, trimEnd, hreverse, List.dropWhile_append]
  split
  · rename_i hempty
    rw [List.isEmpty_iff.1 hempty, List.dropWhile_cons_of_neg (by simp [hc])]
    simp
  · simp

end Text

namespace Diff

theorem length_toDigits_le {n : Nat} (h : writable n = true) :
    (Nat.toDigits 10 n).length ≤ maxDigits := by
  have hlt := of_decide_eq_true h
  rwa [Int.natAbs_natCast, Nat.pow_eq, ← Nat.length_toDigits_le_iff (by decide) (by decide)] at hlt

/-- The number that is written is read again. -/
theorem numberOf_toDigits {n : Nat} (h : writable n = true) :
    numberOf (Nat.toDigits 10 n) = .ok (n : Int) := by
  rw [numberOf, naturalOfDigits, if_neg (Nat.not_lt.2 (length_toDigits_le h))]
  simp only [digitsValue_toDigits]

theorem digits?_toDigits (n : Nat) {rest : Line} {c : Char} (hc : isDigit c = false) :
    digits? (Nat.toDigits 10 n ++ c :: rest) = some (Nat.toDigits 10 n, c :: rest) :=
  digits?_append (fun _ => isDigit_of_mem_toDigits) Nat.toDigits_ne_nil hc

/-! ## Ranges -/

/-- A start and a count as a hunk header has them. -/
def rangeRow (start count : Nat) : Line := Nat.toDigits 10 start ++ ',' :: Nat.toDigits 10 count

/-- The part of a hunk header that says where the hunk stands. -/
def rangesRow (oldStart oldCount newStart newCount : Nat) : Line :=
  ['@', '@', ' ', '-'] ++ (rangeRow oldStart oldCount ++
    ' ' :: '+' :: (rangeRow newStart newCount ++ [' ', '@', '@']))

theorem range?_rangeRow (start count : Nat) (rest : Line) :
    range? (rangeRow start count ++ ' ' :: rest) =
      some (Nat.toDigits 10 start, some (Nat.toDigits 10 count), ' ' :: rest) := by
  have hcomma : isDigit ',' = false := by decide
  have hspace : isDigit ' ' = false := by decide
  rw [range?, rangeRow, List.append_assoc, List.cons_append, digits?_toDigits start hcomma]
  simp only [Option.bind_eq_bind, Option.bind_some, digits?_toDigits count hspace]

variable (oldStart oldCount newStart newCount : Nat)

theorem headerParts?_rangesRow {tail : Line} (htail : '\n' ∉ tail) :
    headerParts? (rangesRow oldStart oldCount newStart newCount ++ tail) =
      some ((Nat.toDigits 10 oldStart, some (Nat.toDigits 10 oldCount)),
        (Nat.toDigits 10 newStart, some (Nat.toDigits 10 newCount)), tail) := by
  have hplus : ∀ rest, after? [' ', '+'] (' ' :: '+' :: rest) = some rest :=
    after?_append [' ', '+']
  have hend : after? [' ', '@', '@'] (' ' :: '@' :: '@' :: tail) = some tail :=
    after?_append [' ', '@', '@'] tail
  have hold := range?_rangeRow oldStart oldCount
    ('+' :: (rangeRow newStart newCount ++ ' ' :: '@' :: '@' :: tail))
  have hnew := range?_rangeRow newStart newCount ('@' :: '@' :: tail)
  rw [headerParts?, rangesRow, List.append_assoc, after?_append]
  simp [hold, hplus, hnew, hend, htail]

theorem exists_rangesRow_append : ∃ cs, ∀ tail,
    rangesRow oldStart oldCount newStart newCount ++ tail = cs ++ '@' :: tail :=
  ⟨['@', '@', ' ', '-'] ++ (rangeRow oldStart oldCount ++
    ' ' :: '+' :: (rangeRow newStart newCount ++ [' ', '@'])), by simp [rangesRow]⟩

theorem trimEnd_rangesRow_append (tail : Line) :
    trimEnd (rangesRow oldStart oldCount newStart newCount ++ tail) =
      rangesRow oldStart oldCount newStart newCount ++ trimEnd tail := by
  obtain ⟨cs, hcs⟩ := exists_rangesRow_append oldStart oldCount newStart newCount
  rw [hcs, hcs, trimEnd_append_cons cs tail (by decide)]

theorem getLast?_rangesRow :
    (rangesRow oldStart oldCount newStart newCount).getLast? = some '@' := by
  obtain ⟨cs, hcs⟩ := exists_rangesRow_append oldStart oldCount newStart newCount
  have hlast := hcs []
  rw [List.append_nil] at hlast
  rw [hlast, List.getLast?_concat]

theorem not_mem_rangesRow : '\n' ∉ rangesRow oldStart oldCount newStart newCount := by
  have hdigits : ∀ n, '\n' ∉ Nat.toDigits 10 n := fun _ => not_mem_toDigits (by decide)
  simp [rangesRow, rangeRow, hdigits]

/-- **Hunk headers are read as they are written.** -/
theorem hunkOfHeader_rangesRow {tail : Line} (htail : '\n' ∉ tail) (hold : writable oldStart = true)
    (holds : writable oldCount = true) (hnew : writable newStart = true)
    (hnews : writable newCount = true) (number : Option Int) :
    hunkOfHeader (rangesRow oldStart oldCount newStart newCount ++ tail) number =
      .ok { oldStart, oldCount, newStart, newCount,
            section_ := String.ofList (trim (trimEnd tail)) } := by
  have htail' : '\n' ∉ trimEnd tail := fun h => htail ((trimEnd_isPrefix tail).subset h)
  rw [hunkOfHeader, trimEnd_rangesRow_append, headerParts?_rangesRow _ _ _ _ htail']
  simp only [countOf, numberOf_toDigits hold, numberOf_toDigits holds, numberOf_toDigits hnew,
    numberOf_toDigits hnews]
  rfl

end Diff

end EvidenceLock
