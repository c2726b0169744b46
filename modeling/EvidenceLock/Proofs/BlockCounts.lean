import EvidenceLock.Proofs.Duplicate
import Mathlib.Algebra.Order.BigOperators.Group.List
import Mathlib.Algebra.Order.Group.Nat
import Mathlib.Algebra.Ring.Nat

/-!
# How much duplicated blocks count

Whatever the limits of the search are, a block that it finds has an occurrence, and neither its
lines nor its occurrences are more than the lines of all files together (`candidateBlocks_counted`).
Every window is one position, groups keep each position once, and merging two groups adds no
occurrence that neither of them had.
-/

namespace EvidenceLock

/-! ## Sums over keys -/

namespace Keyed

variable {κ α : Type} [BEq κ]

/-- A change that adds no more than `n` to a value adds no more to the sum of all. -/
theorem sum_alter_le {w : α → Nat} {f : Option α → α} {n : Nat} (hnew : w (f none) ≤ n)
    (hold : ∀ v, w (f (some v)) ≤ w v + n) (m : Keyed κ α) (k : κ) :
    ((m.alter k f).map fun e => w e.2).sum ≤ (m.map fun e => w e.2).sum + n := by
  induction m with
  | nil => simpa [alter] using hnew
  | cons e m ih =>
    obtain ⟨l, v⟩ := e
    rw [alter]
    split
    · have := hold v
      simp only [List.map_cons, List.sum_cons]
      omega
    · simp only [List.map_cons, List.sum_cons]
      omega

theorem sum_grouped_le (es : List (κ × α)) :
    ((grouped es).map fun e => e.2.length).sum ≤ es.length := by
  have hfold : ∀ m : Keyed κ (List α),
      ((es.foldl (fun m e => m.push e.1 e.2) m).map fun e => e.2.length).sum ≤
        (m.map fun e => e.2.length).sum + es.length := by
    induction es with
    | nil => exact fun m => Nat.le_refl _
    | cons e es ih =>
      intro m
      have hpush : ((m.push e.1 e.2).map fun e => e.2.length).sum ≤
          (m.map fun e => e.2.length).sum + 1 :=
        sum_alter_le (w := List.length) (by simp) (fun vs => by simp) m e.1
      have hrest := ih (m.push e.1 e.2)
      rw [List.foldl_cons, List.length_cons]
      omega
  simpa [grouped] using hfold []

end Keyed

/-- What is counted step by step is counted in the end, each step with what it costs. -/
theorem Outcome.foldlM_counts {α β : Type} {P : Nat → β → Prop} {c : α → Nat}
    {step : β → α → Outcome β} {as : List α}
    (hstep : ∀ a ∈ as, ∀ n b b', P n b → step b a = .ok b' → P (n + c a) b') {n : Nat}
    {b b' : β} (hb : P n b) (h : as.foldlM step b = .ok b') :
    P (n + (as.map c).sum) b' := by
  induction as generalizing n b with
  | nil =>
    cases h
    exact hb
  | cons a as ih =>
    rw [List.foldlM_cons] at h
    obtain ⟨d, hd, h⟩ := bind_eq_ok.1 h
    have hd := hstep a List.mem_cons_self n b d hb hd
    have hrest := ih (fun a ha => hstep a (List.mem_cons_of_mem _ ha)) hd h
    rwa [Nat.add_assoc, ← List.sum_cons, ← List.map_cons] at hrest

/-! ## Windows and groups -/

/-- The number of lines of all files. -/
def lineTotal (files : List NormalizedFile) : Nat := (files.map fun f => f.lines.length).sum

variable {files : List NormalizedFile} {limits : BlockLimits}

/-- There are no more windows than lines. -/
theorem length_windows_le {window : Nat} (hpos : 0 < window) :
    (windows window files).length ≤ lineTotal files := by
  rw [windows, List.length_flatMap, lineTotal]
  refine List.sum_le_sum fun f _ => ?_
  rw [List.length_map, List.length_range, NormalizedFile.texts, List.length_map]
  omega

theorem Fits.le_lineTotal {length : Nat} {p : Position} (h : Fits files length p)
    (hpos : 0 < length) : length ≤ lineTotal files := by
  unfold Fits at h
  have hne : linesAt files p.1 ≠ [] := List.ne_nil_of_length_pos (by omega)
  unfold linesAt at h hne
  cases hfound : files.reverse.find? fun f => f.path == p.1 with
  | none =>
    rw [hfound] at hne
    exact absurd rfl hne
  | some f =>
    have hf := List.mem_reverse.1 (List.mem_of_find?_eq_some hfound)
    have hle : f.lines.length ≤ lineTotal files := List.le_sum_of_mem (List.mem_map_of_mem hf)
    rw [hfound] at h
    simp only [Option.map_some, Option.getD_some] at h
    omega

theorem length_addNew_le {α : Type} [BEq α] (xs ys : List α) :
    (addNew xs ys).length ≤ xs.length + ys.length := by
  unfold addNew
  induction ys generalizing xs with
  | nil => exact Nat.le_refl _
  | cons y ys ih =>
    rw [List.foldl_cons]
    have hrest := ih (if xs.contains y then xs else xs ++ [y])
    have hstep : (if xs.contains y then xs else xs ++ [y]).length ≤ xs.length + 1 := by
      split <;> simp
    rw [List.length_cons]
    omega

theorem prefix_addNew {α : Type} [BEq α] (xs ys : List α) : xs <+: addNew xs ys := by
  unfold addNew
  induction ys generalizing xs with
  | nil => exact List.prefix_rfl
  | cons y ys ih =>
    rw [List.foldl_cons]
    refine List.IsPrefix.trans ?_ (ih _)
    split
    · exact List.prefix_rfl
    · exact List.prefix_append xs [y]

theorem addNew_ne_nil {α : Type} [BEq α] {ys : List α} (h : ys ≠ []) : addNew [] ys ≠ [] := by
  obtain ⟨y, ys, rfl⟩ := List.exists_cons_of_ne_nil h
  have hle := (prefix_addNew [y] ys).length_le
  exact List.ne_nil_of_length_pos (Nat.lt_of_lt_of_le Nat.zero_lt_one hle)

/-- Groups that were merged have occurrences, `n` of them at most, and are not longer than all
files. -/
structure CountedBy (files : List NormalizedFile) (n : Nat)
    (merged : Keyed String (Nat × List Occurrence)) : Prop where
  lengths : ∀ e ∈ merged, e.2.1 ≤ lineTotal files
  places : ∀ e ∈ merged, e.2.2 ≠ []
  count : (merged.map fun e => e.2.2.length).sum ≤ n

theorem CountedBy.mono {m n : Nat} {merged : Keyed String (Nat × List Occurrence)}
    (h : CountedBy files m merged) (hmn : m ≤ n) : CountedBy files n merged :=
  ⟨h.lengths, h.places, Nat.le_trans h.count hmn⟩

/-- One more group adds no more occurrences than it has positions. -/
theorem CountedBy.merge {n : Nat} {merged : Keyed String (Nat × List Occurrence)}
    (h : CountedBy files n merged) {length : Nat} {places : List Occurrence}
    (hlength : length ≤ lineTotal files) (hplaces : places ≠ []) (text : String) :
    CountedBy files (n + places.length) (merged.alter text fun old =>
      match old with
      | some (n, known) => (n, addNew known places)
      | none => (length, addNew [] places)) := by
  refine ⟨fun e he => ?_, fun e he => ?_, ?_⟩
  · rcases Keyed.mem_alter he with hmem | hnew | ⟨d, hd, hold⟩
    · exact h.lengths e hmem
    · rw [hnew]
      exact hlength
    · rw [hold]
      exact h.lengths d hd
  · rcases Keyed.mem_alter he with hmem | hnew | ⟨d, hd, hold⟩
    · exact h.places e hmem
    · rw [hnew]
      exact addNew_ne_nil hplaces
    · rw [hold]
      have hle := (prefix_addNew d.2.2 places).length_le
      exact List.ne_nil_of_length_pos
        (Nat.lt_of_lt_of_le (List.length_pos_iff.2 (h.places d hd)) hle)
  · refine Nat.le_trans (Keyed.sum_alter_le (w := fun v => v.2.length) ?_ ?_ merged text)
      (Nat.add_le_add_right h.count _)
    · simpa using length_addNew_le [] places
    · exact fun v => length_addNew_le v.2 places

theorem extendGroup_ok {base : Position} {others : List Position} (hpos : 0 < limits.window)
    (hfits : ∀ p ∈ base :: others, Fits files limits.window p) {length : Nat} {text : String}
    {places : List Occurrence}
    (h : extendGroup files limits base others = .ok (length, text, places)) :
    length ≤ lineTotal files ∧ places.length = (base :: others).length := by
  obtain ⟨found, hfound, h⟩ := Outcome.bind_eq_ok.1 h
  cases h
  refine ⟨(grow_fits hfits base List.mem_cons_self).le_lineTotal ?_, ?_⟩
  · exact Nat.lt_of_lt_of_le hpos le_grow
  · exact (Outcome.forall₂_of_mapM_eq_ok hfound).length_eq.symm

theorem mergedGroups_countedBy (hc : Consistent files) (hpos : 0 < limits.window)
    {merged : Keyed String (Nat × List Occurrence)} (h : mergedGroups files limits = .ok merged) :
    CountedBy files (lineTotal files) merged := by
  have hsum : ((windowGroups limits.window files).map fun e => e.2.length).sum ≤
      lineTotal files := by
    rw [windowGroups_eq]
    exact Nat.le_trans (Keyed.sum_grouped_le _) (length_windows_le hpos)
  -- what was merged never counts more occurrences than the groups that were looked at
  have hnone : CountedBy files 0 [] := ⟨nofun, nofun, Nat.le_refl 0⟩
  refine (Outcome.foldlM_counts (P := CountedBy files) (c := fun g => g.2.length)
    (fun g hg n m m' hm hstep => ?_) hnone h).mono (by omega)
  have hfits := windowGroups_fits hc limits.window g hg
  obtain ⟨key, positions⟩ := g
  cases positions with
  | nil =>
    cases hstep
    exact hm
  | cons base others =>
    dsimp only at hstep
    split at hstep
    · cases hstep
      exact hm.mono (Nat.le_add_right n _)
    · obtain ⟨⟨length, text, places⟩, hgroup, hstep⟩ := Outcome.bind_eq_ok.1 hstep
      cases hstep
      obtain ⟨hlength, hplaces⟩ := extendGroup_ok hpos hfits hgroup
      have hne : places ≠ [] := List.ne_nil_of_length_pos (by rw [hplaces]; simp)
      rw [← hplaces]
      exact hm.merge hlength hne text

/-- **No block counts more than there are lines**, and each has an occurrence. -/
theorem candidateBlocks_counted (hc : Consistent files) (hpos : 0 < limits.window)
    {bs : List DuplicateBlock} (h : candidateBlocks files limits = .ok bs) :
    ∀ b ∈ bs, b.occurrences ≠ [] ∧ (0 ≤ b.length ∧ b.length ≤ lineTotal files) ∧
      b.occurrences.length ≤ lineTotal files := by
  obtain ⟨merged, hmerged, h⟩ := Outcome.bind_eq_ok.1 h
  cases h
  have hcounted := mergedGroups_countedBy hc hpos hmerged
  intro b hb
  obtain ⟨e, he, rfl⟩ := List.mem_map.1 (List.mem_of_mem_filter hb)
  have hlength := hcounted.lengths e he
  have hcount : e.2.2.length ≤ (merged.map fun e => e.2.2.length).sum :=
    List.le_sum_of_mem (List.mem_map_of_mem he)
  refine ⟨hcounted.places e he, ⟨Int.natCast_nonneg _, ?_⟩, Nat.le_trans hcount hcounted.count⟩
  exact Int.ofNat_le.2 hlength

end EvidenceLock
