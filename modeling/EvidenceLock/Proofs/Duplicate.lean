import EvidenceLock.Proofs.Keyed
import EvidenceLock.Proofs.Outcome
import EvidenceLock.Signal.Duplicate
import Mathlib.Data.List.Basic

/-!
# Duplicated blocks stay inside their files

The search for duplicated blocks looks up lines by index, and an index beyond the end of a file
would be a fault. `Fits` is the invariant that rules this out: each position is followed by as many
lines as the block is long. It holds of the windows, which are listed in `windows` before they are
grouped by their texts, and growing a block keeps it.
-/

namespace EvidenceLock

/-! ## Lines by path -/

/-- Files with one path have the same lines. -/
def Consistent (files : List NormalizedFile) : Prop :=
  ∀ f ∈ files, ∀ g ∈ files, f.path = g.path → f.lines = g.lines

theorem linesAt_eq {files : List NormalizedFile} (hc : Consistent files) {f : NormalizedFile}
    (hf : f ∈ files) : linesAt files f.path = f.lines := by
  unfold linesAt
  cases hfound : files.reverse.find? fun g => g.path == f.path with
  | none =>
    have hnot := List.find?_eq_none.1 hfound f (List.mem_reverse.2 hf)
    exact absurd (beq_self_eq_true f.path) hnot
  | some g =>
    have hg := List.mem_reverse.1 (List.mem_of_find?_eq_some hfound)
    have hpath := List.find?_some (p := fun g : NormalizedFile => g.path == f.path) hfound
    exact hc g hg f hf (eq_of_beq hpath)

/-- A position is followed by `length` lines, its own included. -/
def Fits (files : List NormalizedFile) (length : Nat) (p : Position) : Prop :=
  p.2 + length ≤ (linesAt files p.1).length

theorem exists_lineAfter? {files : List NormalizedFile} {length offset : Nat} {p : Position}
    (h : Fits files length p) (ho : offset < length) :
    ∃ line, lineAfter? files p offset = some line := by
  unfold Fits at h
  have hplace : p.2 + offset < (linesAt files p.1).length := by omega
  exact ⟨_, List.getElem?_eq_getElem hplace⟩

theorem Fits.succ {files : List NormalizedFile} {length : Nat} {p : Position} {line : NumberedLine}
    (h : lineAfter? files p length = some line) : Fits files (length + 1) p := by
  obtain ⟨hplace, -⟩ := List.getElem?_eq_some_iff.1 h
  exact hplace

/-! ## Windows -/

theorem suffixes_eq {α : Type} (xs : List α) :
    suffixes xs = (List.range (xs.length + 1)).map xs.drop := by
  induction xs with
  | nil => rfl
  | cons x xs ih =>
    have hrange : List.range (xs.length + 1 + 1) =
        0 :: (List.range (xs.length + 1)).map Nat.succ := List.range_succ_eq_map
    rw [suffixes, ih, List.length_cons, hrange, List.map_cons, List.map_map]
    rfl

theorem windowTexts_eq (window : Nat) (lines : List String) :
    windowTexts window lines = (List.range (lines.length + 1 - window)).map fun i =>
      (i, blockText ((lines.drop i).take window)) := by
  apply List.ext_getElem
  · simp [windowTexts, suffixes_eq]
  · intro i _ _
    simp [windowTexts, suffixes_eq]

/-- The text and the position of every window. -/
def windows (window : Nat) (files : List NormalizedFile) : List (String × Position) :=
  files.flatMap fun f => (List.range (f.texts.length + 1 - window)).map fun i =>
    (blockText ((f.texts.drop i).take window), (f.path, i))

theorem windowGroups_eq (window : Nat) (files : List NormalizedFile) :
    windowGroups window files = Keyed.grouped (windows window files) := by
  simp only [windowGroups, Keyed.grouped, windows, windowTexts_eq, List.foldl_flatMap,
    List.foldl_map]

theorem mem_windows {window : Nat} {files : List NormalizedFile} {key : String} {p : Position} :
    (key, p) ∈ windows window files ↔ ∃ f ∈ files, f.path = p.1 ∧
      p.2 + window ≤ f.texts.length ∧ key = blockText ((f.texts.drop p.2).take window) := by
  obtain ⟨path, i⟩ := p
  simp only [windows, List.mem_flatMap, List.mem_map, List.mem_range, Prod.mk.injEq]
  constructor
  · rintro ⟨f, hf, j, hj, hkey, hpath, rfl⟩
    exact ⟨f, hf, hpath, by omega, hkey.symm⟩
  · rintro ⟨f, hf, hpath, hi, hkey⟩
    exact ⟨f, hf, i, by omega, hkey.symm, hpath, rfl⟩

def AllFit (files : List NormalizedFile) (length : Nat) (groups : Keyed String (List Position)) :
    Prop :=
  ∀ e ∈ groups, ∀ p ∈ e.2, Fits files length p

/-- The positions of windows are followed by a window. -/
theorem windowGroups_fits {files : List NormalizedFile} (hc : Consistent files) (window : Nat) :
    AllFit files window (windowGroups window files) := by
  rintro ⟨key, ps⟩ he p hp
  rw [windowGroups_eq] at he
  obtain ⟨-, rfl⟩ := Keyed.mem_grouped.1 he
  obtain ⟨⟨k, q⟩, hq, rfl⟩ := List.mem_map.1 hp
  obtain ⟨f, hf, hpath, hle, -⟩ := mem_windows.1 (List.mem_filter.1 hq).1
  rw [NormalizedFile.texts, List.length_map] at hle
  unfold Fits
  rw [← hpath, linesAt_eq hc hf]
  exact hle

/-! ## Growing -/

/-- Growing a block keeps it inside the files of all its positions. -/
theorem grow_fits {files : List NormalizedFile} {limits : BlockLimits} {base : Position}
    {others : List Position} {fuel length : Nat}
    (h : ∀ p ∈ base :: others, Fits files length p) :
    ∀ p ∈ base :: others, Fits files (grow files limits base others fuel length) p := by
  fun_induction grow files limits base others fuel length with
  | case1 => exact h
  | case2 => exact h
  | case3 fuel length _ line hbase hall ih =>
    -- The block grows only where each position is followed by another line.
    refine ih fun p hp => ?_
    rcases List.mem_cons.1 hp with rfl | hp
    · exact .succ hbase
    · have hsame := List.all_eq_true.1 hall p hp
      cases hline : lineAfter? files p length with
      | none =>
        rw [hline] at hsame
        cases hsame
      | some other => exact .succ hline
  | case4 => exact h
  | case5 => exact h

theorem le_grow {files : List NormalizedFile} {limits : BlockLimits} {base : Position}
    {others : List Position} {fuel length : Nat} :
    length ≤ grow files limits base others fuel length := by
  fun_induction grow files limits base others fuel length with
  | case1 => exact Nat.le_refl _
  | case2 => exact Nat.le_refl _
  | case3 _ _ _ _ _ _ ih => omega
  | case4 => exact Nat.le_refl _
  | case5 => exact Nat.le_refl _

/-! ## No index is beyond the end -/

section
variable {files : List NormalizedFile} {limits : BlockLimits}

/-- A line that is looked up is one of a file. -/
theorem occurrenceAt_known {length : Nat} {p : Position} {o : Occurrence}
    (h : occurrenceAt files length p = .ok o) : ∃ f ∈ files, f.path = o.file := by
  obtain ⟨first, hfirst, h⟩ := Outcome.bind_eq_ok.1 h
  obtain ⟨last, -, h⟩ := Outcome.bind_eq_ok.1 h
  cases h
  unfold numberAt lineAfter? linesAt at hfirst
  cases hfound : files.reverse.find? fun g => g.path == p.1 with
  | none =>
    rw [hfound] at hfirst
    cases hfirst
  | some f =>
    exact ⟨f, List.mem_reverse.1 (List.mem_of_find?_eq_some hfound),
      eq_of_beq (List.find?_some (p := fun g : NormalizedFile => g.path == p.1) hfound)⟩

theorem mem_addNew {α : Type} [BEq α] {xs ys : List α} {a : α} (h : a ∈ addNew xs ys) :
    a ∈ xs ∨ a ∈ ys := by
  unfold addNew at h
  induction ys generalizing xs with
  | nil => exact .inl h
  | cons y ys ih =>
    rw [List.foldl_cons] at h
    rcases ih h with h | h
    · split at h
      · exact .inl h
      · rcases List.mem_append.1 h with h | h
        · exact .inl h
        · exact .inr (List.mem_singleton.1 h ▸ List.mem_cons_self)
    · exact .inr (List.mem_cons_of_mem y h)

theorem numberAt_faultless {length offset : Nat} {p : Position} (h : Fits files length p)
    (ho : offset < length) : Faultless (numberAt files p offset) := by
  obtain ⟨line, hline⟩ := exists_lineAfter? h ho
  rw [numberAt, hline]
  exact .ok _

theorem occurrenceAt_faultless {length : Nat} {p : Position} (h : Fits files length p)
    (hpos : 0 < length) : Faultless (occurrenceAt files length p) := by
  refine (numberAt_faultless h hpos).bind fun _ _ => ?_
  refine (numberAt_faultless h (by omega)).bind fun _ _ => ?_
  exact .ok _

theorem extendGroup_faultless {base : Position} {others : List Position} (hpos : 0 < limits.window)
    (h : ∀ p ∈ base :: others, Fits files limits.window p) :
    Faultless (extendGroup files limits base others) := by
  have hgrown : 0 < grow files limits base others (linesAt files base.1).length limits.window :=
    Nat.lt_of_lt_of_le hpos le_grow
  refine (FaultsIn.mapM fun p hp => ?_).bind fun _ _ => .ok _
  exact occurrenceAt_faultless (grow_fits h p hp) hgrown

theorem mergedGroups_faultless (hc : Consistent files) (hpos : 0 < limits.window) :
    Faultless (mergedGroups files limits) := by
  refine FaultsIn.foldlM (fun merged e he => ?_) []
  have hfits := windowGroups_fits hc limits.window e he
  obtain ⟨text, positions⟩ := e
  cases positions with
  | nil => exact .ok _
  | cons base others =>
    dsimp only
    split
    · exact .ok _
    · exact (extendGroup_faultless hpos hfits).bind fun _ _ => .ok _

/-- What is kept whenever an extended group is merged holds of all merged groups. -/
theorem mergedGroups_preserves {P : Keyed String (Nat × List Occurrence) → Prop} (hnone : P [])
    (hmerge : ∀ {merged base others length text places}, P merged →
      extendGroup files limits base others = .ok (length, text, places) →
      P (merged.alter text fun old =>
        match old with
        | some (n, known) => (n, addNew known places)
        | none => (length, addNew [] places)))
    {merged : Keyed String (Nat × List Occurrence)} (h : mergedGroups files limits = .ok merged) :
    P merged := by
  refine Outcome.foldlM_preserves (fun g merged merged' hmerged hstep => ?_) hnone h
  obtain ⟨key, positions⟩ := g
  cases positions with
  | nil =>
    cases hstep
    exact hmerged
  | cons base others =>
    dsimp only at hstep
    split at hstep
    · cases hstep
      exact hmerged
    · obtain ⟨⟨length, text, places⟩, hgroup, hstep⟩ := Outcome.bind_eq_ok.1 hstep
      cases hstep
      exact hmerge hmerged hgroup

/-- **The search for duplicated blocks has no faults.** -/
theorem candidateBlocks_faultless (hc : Consistent files) (hpos : 0 < limits.window) :
    Faultless (candidateBlocks files limits) :=
  (mergedGroups_faultless hc hpos).bind fun _ _ => .ok _

/-- The places of blocks are places of files. -/
theorem candidateBlocks_known {bs : List DuplicateBlock}
    (h : candidateBlocks files limits = .ok bs) :
    ∀ b ∈ bs, ∀ o ∈ b.occurrences, ∃ f ∈ files, f.path = o.file := by
  obtain ⟨merged, hmerged, h⟩ := Outcome.bind_eq_ok.1 h
  cases h
  have hknown : ∀ e ∈ merged, ∀ o ∈ e.2.2, ∃ f ∈ files, f.path = o.file := by
    refine mergedGroups_preserves
      (P := fun merged => ∀ e ∈ merged, ∀ o ∈ e.2.2, ∃ f ∈ files, f.path = o.file) nofun
      (@fun _ _ _ _ _ places hm hgroup e he o ho => ?_) hmerged
    obtain ⟨found, hplaces, hgroup⟩ := Outcome.bind_eq_ok.1 hgroup
    cases hgroup
    have hnew : ∀ o ∈ places, ∃ f ∈ files, f.path = o.file := fun o ho =>
      have ⟨_, _, hp⟩ := Outcome.exists_of_mapM_eq_ok hplaces o ho
      occurrenceAt_known hp
    rcases Keyed.mem_alter he with hmem | hfresh | ⟨d, hd, hold⟩
    · exact hm e hmem o ho
    · rw [hfresh] at ho
      exact hnew o ((mem_addNew ho).resolve_left nofun)
    · rw [hold] at ho
      exact (mem_addNew ho).elim (hm d hd o) (hnew o)
  intro b hb
  obtain ⟨e, he, rfl⟩ := List.mem_map.1 (List.mem_of_mem_filter hb)
  exact hknown e he

/-- Only a limit that is a flag makes the length of a block one. -/
theorem candidateBlocks_flagged {bs : List DuplicateBlock}
    (h : candidateBlocks files limits = .ok bs) (hlimits : limits.flagged = false) : ∀ b ∈ bs, b.flagged = false := by
  obtain ⟨merged, -, h⟩ := Outcome.bind_eq_ok.1 h
  cases h
  intro b hb
  obtain ⟨e, -, rfl⟩ := List.mem_map.1 (List.mem_of_mem_filter hb)
  exact Bool.and_eq_false_imp.2 fun hflag => absurd hflag (by rw [hlimits]; decide)

end

end EvidenceLock
