import EvidenceLock.Fix.Verify
import Mathlib.Data.List.Basic

/-!
# Verdicts

When a verdict is favourable. All lengths of functions are positive, so a largest length of zero
says that there is no function, and the verdict on a long function is one strict comparison
(`verifyLongFunction_ok`).
-/

namespace EvidenceLock

/-! ## The longest function in a range -/

/-- The largest of some lengths is one of them, and none is larger. -/
theorem maxLength_spec {ls : List Int} (h : ls ≠ []) :
    maxLength ls ∈ ls ∧ ∀ n ∈ ls, n ≤ maxLength ls := by
  cases ls with
  | nil => exact absurd rfl h
  | cons n ls =>
    have hmax : (n :: ls).max? = some (maxLength (n :: ls)) := List.max?_cons'
    exact List.max?_eq_some_iff.1 hmax

section
variable {spans : List FunctionSpan} {file : String} {first last : Int}

theorem maxInRange_nonneg : 0 ≤ maxInRange spans file first last := by
  unfold maxInRange
  by_cases hnil : (spans.filter fun s => s.overlaps file first last).map FunctionSpan.length = []
  · rw [hnil]
    exact Int.le_refl 0
  · obtain ⟨s, -, hs⟩ := List.mem_map.1 (maxLength_spec hnil).1
    rw [← hs]
    exact Int.le_of_lt s.length_pos

/-- The largest length in a range stays below a positive bound when all lengths in it do. -/
theorem maxInRange_lt {m : Int} (hm : 0 < m) :
    maxInRange spans file first last < m ↔
      ∀ s ∈ spans, s.overlaps file first last = true → s.length < m := by
  unfold maxInRange
  constructor
  · intro h s hs hover
    have hmem : s.length ∈ (spans.filter fun s => s.overlaps file first last).map
        FunctionSpan.length := List.mem_map_of_mem (List.mem_filter.2 ⟨hs, hover⟩)
    exact Int.lt_of_le_of_lt ((maxLength_spec (List.ne_nil_of_mem hmem)).2 _ hmem) h
  · intro h
    by_cases hnil : (spans.filter fun s => s.overlaps file first last).map FunctionSpan.length = []
    · rw [hnil]
      exact hm
    · obtain ⟨s, hs, hlen⟩ := List.mem_map.1 (maxLength_spec hnil).1
      obtain ⟨hspan, hover⟩ := List.mem_filter.1 hs
      rw [← hlen]
      exact h s hspan hover

theorem exists_length_eq_maxInRange (h : 0 < maxInRange spans file first last) :
    ∃ s ∈ spans, s.overlaps file first last = true ∧
      s.length = maxInRange spans file first last := by
  unfold maxInRange at h ⊢
  have hne : (spans.filter fun s => s.overlaps file first last).map FunctionSpan.length ≠ [] := by
    intro hnil
    rw [hnil] at h
    exact absurd h (Int.lt_irrefl 0)
  obtain ⟨s, hs, hlen⟩ := List.mem_map.1 (maxLength_spec hne).1
  obtain ⟨hspan, hover⟩ := List.mem_filter.1 hs
  exact ⟨s, hspan, hover, hlen⟩

end

/-! ## The two rules -/

/-- **Long functions**: there was a long function in the cited range, and the longest one in it has
become shorter. -/
theorem verifyLongFunction_ok {before after : Analysis} {c : Citation} {threshold : Number} :
    (verifyLongFunction before after c threshold).ok = true ↔
      0 < maxInRange before.signals.longFunctions c.file c.first c.last ∧
      maxInRange after.signals.longFunctions c.file c.first c.last <
        maxInRange before.signals.longFunctions c.file c.first c.last := by
  -- A largest length is never negative, so that one which is not zero is positive.
  have hold : 0 ≤ maxInRange before.signals.longFunctions c.file c.first c.last :=
    maxInRange_nonneg
  unfold verifyLongFunction
  dsimp only
  by_cases hzero : maxInRange before.signals.longFunctions c.file c.first c.last = 0
  · rw [if_pos hzero]
    constructor
    · intro h
      cases h
    · intro h
      omega
  · rw [if_neg hzero]
    split
    · rename_i h
      exact iff_of_true rfl (by omega)
    · rename_i h
      exact iff_of_false Bool.false_ne_true (by omega)

/-- **Duplicates**: there are fewer duplicated blocks. -/
theorem verifyDuplicates_ok {before after : Analysis} :
    (verifyDuplicates before after).ok = true ↔
      after.metrics.duplicateBlocks < before.metrics.duplicateBlocks := by
  unfold verifyDuplicates
  dsimp only
  split
  · rename_i h
    exact iff_of_true rfl h
  · rename_i h
    exact iff_of_false Bool.false_ne_true h

end EvidenceLock
