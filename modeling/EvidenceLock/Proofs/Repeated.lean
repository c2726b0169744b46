import EvidenceLock.Proofs.Occurrence
import Mathlib.Data.List.Forall2

/-!
# Repeated texts and their blocks

What the search for duplicated blocks looks for is said without the search: `Repeated` names the
texts that start with a window found often enough, stand wherever this window does, and cannot grow.
The growing of a group stops at such a text (`groupText_repeated`), and there is only one for each
window (`Repeated.unique`), so that the blocks of the search are those of the repeated texts, each
once (`candidateBlocks_ok`).
-/

namespace EvidenceLock

/-- An occurrence of the text ends with its file, or two occurrences are followed by different
lines. -/
def CannotGrow (files : List NormalizedFile) (text : List String) : Prop :=
  (∃ f ∈ files, text <:+ f.texts) ∨
    ∃ p q l m, l ≠ m ∧ OccursAt files (text ++ [l]) p ∧ OccursAt files (text ++ [m]) q

/-- The first `minLines` lines of the text occur often enough; at each of these positions the whole
text does, which is as long as it can be. -/
structure Repeated (files : List NormalizedFile) (minLines maxLines minOccurrences : Nat)
    (text : List String) : Prop where
  least : minLines ≤ text.length
  most : text.length ≤ maxLines
  often : ∃ ps, OccursExactly files (text.take minLines) ps ∧ minOccurrences ≤ ps.length
  whole : ∀ p, OccursAt files (text.take minLines) p → OccursAt files text p
  full : text.length < maxLines → CannotGrow files text

/-- The block of a text: its places are those of the positions at which the first `minLines` lines
of the text occur. -/
structure IsBlockOf (files : List NormalizedFile) (minLines : Nat) (text : List String)
    (b : DuplicateBlock) : Prop where
  length : b.length = text.length
  hash : b.hash = fingerprint (blockText text)
  distinct : b.occurrences.Nodup
  places : ∃ ps, OccursExactly files (text.take minLines) ps ∧
    List.Forall₂ (PlaceOf files text.length) ps b.occurrences

variable {files : List NormalizedFile}

/-! ## Places and positions of a block -/

namespace IsBlockOf

variable {minLines : Nat} {text : List String} {b : DuplicateBlock}

theorem exists_position (h : IsBlockOf files minLines text b) {o : Occurrence}
    (ho : o ∈ b.occurrences) :
    ∃ p, OccursAt files (text.take minLines) p ∧ PlaceOf files text.length p o := by
  obtain ⟨ps, hps, hplaces⟩ := h.places
  obtain ⟨p, hp, hplace⟩ := exists_left_of_forall₂ hplaces ho
  exact ⟨p, (hps.mem p).1 hp, hplace⟩

theorem exists_place (h : IsBlockOf files minLines text b) {p : Position}
    (hp : OccursAt files (text.take minLines) p) :
    ∃ o ∈ b.occurrences, PlaceOf files text.length p o := by
  obtain ⟨ps, hps, hplaces⟩ := h.places
  exact exists_left_of_forall₂ hplaces.flip ((hps.mem p).2 hp)

/-- A block has as many places as its text is found. -/
theorem length_le {maxLines minOccurrences : Nat} (h : IsBlockOf files minLines text b)
    (htext : Repeated files minLines maxLines minOccurrences text) :
    minOccurrences ≤ b.occurrences.length := by
  obtain ⟨ps, hps, hplaces⟩ := h.places
  obtain ⟨qs, hqs, hlen⟩ := htext.often
  rwa [← hplaces.length_eq, (hps.perm hqs).length_eq]

end IsBlockOf

/-! ## One text for each window -/

section
variable {minLines maxLines minOccurrences : Nat} {s t : List String}

/-- Of two texts of one window the shorter one is the beginning of the other. -/
theorem Repeated.prefix_of_take (hc : Corpus files) (hmin : 0 < minLines)
    (hocc : 0 < minOccurrences)
    (hs : Repeated files minLines maxLines minOccurrences s)
    (ht : Repeated files minLines maxLines minOccurrences t)
    (hst : s.take minLines = t.take minLines) (hle : s.length ≤ t.length) : s <+: t := by
  obtain ⟨ps, hps, hlen⟩ := hs.often
  obtain ⟨p, hp⟩ := List.exists_mem_of_length_pos (Nat.lt_of_lt_of_le hocc hlen)
  have hwindow := (hps.mem p).1 hp
  have hsne : s ≠ [] := List.ne_nil_of_length_pos (Nat.lt_of_lt_of_le hmin hs.least)
  have htne : t ≠ [] := List.ne_nil_of_length_pos (Nat.lt_of_lt_of_le hmin ht.least)
  have hsp := (hc.occursAt_iff hsne).1 (hs.whole p hwindow)
  have htp := (hc.occursAt_iff htne).1 (ht.whole p (hst ▸ hwindow))
  exact List.prefix_of_prefix_length_le hsp htp hle

/-- A text that stands wherever a shorter one does contradicts that the shorter one cannot grow. -/
theorem CannotGrow.length_le (hc : Corpus files) (h : CannotGrow files s) (hne : s ≠ [])
    (hst : s <+: t) (hwhole : ∀ p, OccursAt files s p → OccursAt files t p) :
    t.length ≤ s.length := by
  obtain ⟨r, rfl⟩ := hst
  rcases h with ⟨f, hf, before, hends⟩ | ⟨p, q, l, m, hlm, hp, hq⟩
  · have hdrop : f.texts.drop before.length = s := by rw [← hends, List.drop_left]
    have hs : OccursAt files s (f.path, before.length) :=
      ⟨f, hf, rfl, [], by rw [List.append_nil, hdrop]⟩
    obtain ⟨g, hg, hpath, ht⟩ := hwhole _ hs
    have hfg : g = f := hc.eq_of_path hg hf hpath
    rw [hfg, hdrop] at ht
    exact ht.length_le
  · -- The next line of the longer text would have to be both of the different lines.
    cases r with
    | nil => simp
    | cons n r =>
      have hnext : ∀ {k p}, OccursAt files (s ++ [k]) p → n = k := by
        intro k p hk
        have hs : OccursAt files s p := by simpa using hk.take s.length
        have ht := (hc.occursAt_iff (List.append_ne_nil_of_left_ne_nil hne _)).1 (hwhole p hs)
        have hk' := (hc.occursAt_iff (List.append_ne_nil_of_left_ne_nil hne _)).1 hk
        have hpre := List.prefix_of_prefix_length_le hk' ht (by simp)
        exact ((List.cons_prefix_cons.1 ((List.prefix_append_right_inj s).1 hpre)).1).symm
      exact absurd ((hnext hp).symm.trans (hnext hq)) hlm

/-- **One text for each window**: a repeated text is determined by its first lines. -/
theorem Repeated.unique (hc : Corpus files) (hmin : 0 < minLines) (hocc : 0 < minOccurrences)
    (hs : Repeated files minLines maxLines minOccurrences s)
    (ht : Repeated files minLines maxLines minOccurrences t)
    (hst : s.take minLines = t.take minLines) : s = t := by
  wlog hle : s.length ≤ t.length generalizing s t
  · exact (this ht hs hst.symm (Nat.le_of_not_le hle)).symm
  have hpre := hs.prefix_of_take hc hmin hocc ht hst hle
  have hne : s ≠ [] := List.ne_nil_of_length_pos (Nat.lt_of_lt_of_le hmin hs.least)
  refine hpre.eq_of_length (Nat.le_antisymm hle ?_)
  by_cases hmax : s.length < maxLines
  · refine (hs.full hmax).length_le hc hne hpre fun p hp => ?_
    exact ht.whole p (hst ▸ hp.take minLines)
  · exact Nat.le_trans ht.most (Nat.le_of_not_lt hmax)

end

/-! ## Growing -/

section
variable {limits : BlockLimits} {base : Position} {others : List Position} {fuel length : Nat}

/-- All positions are followed by the same lines as far as the block grows. -/
theorem grow_take
    (h : ∀ p ∈ others, (linesFrom files p).take length = (linesFrom files base).take length) :
    ∀ p ∈ others, (linesFrom files p).take (grow files limits base others fuel length) =
      (linesFrom files base).take (grow files limits base others fuel length) := by
  fun_induction grow files limits base others fuel length with
  | case1 => exact h
  | case2 => exact h
  | case3 fuel length _ line hbase hall ih =>
    refine ih fun p hp => ?_
    have hnext := eq_of_beq (List.all_eq_true.1 hall p hp)
    have hsame : (linesFrom files p)[length]? = (linesFrom files base)[length]? := by
      rw [← lineAfter?_text, ← lineAfter?_text, hnext, hbase, Option.map_some]
    rw [List.take_add_one, List.take_add_one, h p hp, hsame]
  | case4 => exact h
  | case5 => exact h

variable {minLines maxLines minOccurrences : Nat}

theorem grow_le (h : length ≤ maxLines) :
    grow files (.of minLines maxLines minOccurrences) base others fuel length ≤ maxLines := by
  fun_induction grow files (.of minLines maxLines minOccurrences) base others fuel length with
  | case1 => exact h
  | case2 => exact h
  | case3 fuel length hmore _ _ _ ih => exact ih (of_decide_eq_true hmore)
  | case4 => exact h
  | case5 => exact h

/-- A block that may still grow has come to the end of a file or to different lines. -/
theorem grow_stops (hfuel : (linesFrom files base).length ≤ length + fuel)
    (hmore : grow files (.of minLines maxLines minOccurrences) base others fuel length <
      maxLines) :
    let n := grow files (.of minLines maxLines minOccurrences) base others fuel length
    (linesFrom files base)[n]? = none ∨
      ∃ p ∈ others, (linesFrom files p)[n]? ≠ (linesFrom files base)[n]? := by
  fun_induction grow files (.of minLines maxLines minOccurrences) base others fuel length with
  | case1 length => exact .inl (List.getElem?_eq_none hfuel)
  | case2 fuel length _ hbase => exact .inl (by rw [← lineAfter?_text, hbase, Option.map_none])
  | case3 fuel length _ line hbase hall ih => exact ih (by omega) hmore
  | case4 fuel length _ line hbase hall =>
    right
    simp only [List.all_eq_true, beq_iff_eq, not_forall] at hall
    obtain ⟨p, hp, hne⟩ := hall
    refine ⟨p, hp, ?_⟩
    rwa [← lineAfter?_text, ← lineAfter?_text, hbase, Option.map_some]
  | case5 fuel length hnot => exact absurd (decide_eq_true hmore) hnot

end

/-! ## The text of a group -/

theorem OccursAt.concat (hc : Corpus files) {text : List String} (hne : text ≠ []) {p : Position}
    (h : OccursAt files text p) {l : String} (hl : (linesFrom files p)[text.length]? = some l) :
    OccursAt files (text ++ [l]) p := by
  obtain ⟨r, hr⟩ := (hc.occursAt_iff hne).1 h
  refine (hc.occursAt_iff (List.append_ne_nil_of_left_ne_nil hne _)).2 ?_
  rw [← hr, List.getElem?_append_right (Nat.le_refl _), Nat.sub_self] at hl
  cases r with
  | nil => cases hl
  | cons k r =>
    cases hl
    rw [← hr]
    exact ⟨r, by rw [List.append_assoc, List.singleton_append]⟩

/-- An occurrence that nothing follows ends with its file. -/
theorem OccursAt.cannotGrow (hc : Corpus files) {text : List String} (hne : text ≠ [])
    {p : Position} (h : OccursAt files text p) (hend : (linesFrom files p)[text.length]? = none) :
    CannotGrow files text := by
  have hall : text = linesFrom files p :=
    ((hc.occursAt_iff hne).1 h).eq_of_length_le (List.getElem?_eq_none_iff.1 hend)
  obtain ⟨f, hf, hpath, -⟩ := h
  refine .inl ⟨f, hf, ?_⟩
  rw [hall, linesFrom, ← hpath, linesAt_eq hc.consistent hf, List.map_drop]
  exact List.drop_suffix _ _

/-- Where the lines after a text end or differ, it cannot grow. -/
theorem cannotGrow_of_stop (hc : Corpus files) {base : Position} {others : List Position}
    {text : List String} (hne : text ≠ []) (hwhole : ∀ p ∈ base :: others, OccursAt files text p)
    (hstop : (linesFrom files base)[text.length]? = none ∨ ∃ p ∈ others,
      (linesFrom files p)[text.length]? ≠ (linesFrom files base)[text.length]?) :
    CannotGrow files text := by
  have hbase := hwhole base List.mem_cons_self
  rcases hstop with hnone | ⟨p, hp, hdiffer⟩
  · exact hbase.cannotGrow hc hne hnone
  · have hp := hwhole p (List.mem_cons_of_mem base hp)
    cases hl : (linesFrom files p)[text.length]? with
    | none => exact hp.cannotGrow hc hne hl
    | some l =>
      cases hm : (linesFrom files base)[text.length]? with
      | none => exact hbase.cannotGrow hc hne hm
      | some m =>
        rw [hl, hm] at hdiffer
        exact .inr ⟨p, base, l, m, fun h => hdiffer (congrArg some h), hp.concat hc hne hl,
          hbase.concat hc hne hm⟩

/-- The text to which a group of positions grows. -/
def groupText (files : List NormalizedFile) (limits : BlockLimits) : List Position → List String
  | [] => []
  | base :: others =>
    (linesFrom files base).take
      (grow files limits base others (linesAt files base.1).length limits.window)

section
variable {limits : BlockLimits} {base : Position} {others : List Position} {window : List String}

/-- The text of a group is as long as the group grows. -/
theorem length_groupText (hpos : 0 < limits.window)
    (hfits : ∀ p ∈ base :: others, Fits files limits.window p) :
    (groupText files limits (base :: others)).length =
      grow files limits base others (linesAt files base.1).length limits.window := by
  have hgrown := @grow_fits _ limits _ _ (linesAt files base.1).length _ hfits base
    List.mem_cons_self
  rw [fits_iff (Nat.lt_of_lt_of_le hpos le_grow)] at hgrown
  rw [groupText, List.length_take, Nat.min_eq_left hgrown]

theorem groupText_ne_nil (hpos : 0 < limits.window)
    (hfits : ∀ p ∈ base :: others, Fits files limits.window p) :
    groupText files limits (base :: others) ≠ [] := by
  apply List.ne_nil_of_length_pos
  rw [length_groupText hpos hfits]
  exact Nat.lt_of_lt_of_le hpos le_grow

/-- Where one window stands at all positions of a group, the text of the group begins with it and
stands at all of them as well. -/
theorem groupText_whole (hc : Corpus files) (hpos : 0 < limits.window)
    (hwindow : window.length = limits.window)
    (hps : ∀ p ∈ base :: others, OccursAt files window p) :
    (∀ p ∈ base :: others, Fits files limits.window p) ∧
      (groupText files limits (base :: others)).take limits.window = window ∧
      ∀ p ∈ base :: others, OccursAt files (groupText files limits (base :: others)) p := by
  have hwne : window ≠ [] := List.ne_nil_of_length_pos (by omega)
  have hpre : ∀ p ∈ base :: others, window <+: linesFrom files p := fun p hp =>
    (hc.occursAt_iff hwne).1 (hps p hp)
  have hfirst : ∀ p ∈ base :: others, (linesFrom files p).take limits.window = window := by
    intro p hp
    rw [← hwindow, ← List.prefix_iff_eq_take.1 (hpre p hp)]
  have hfits : ∀ p ∈ base :: others, Fits files limits.window p := fun p hp =>
    (fits_iff hpos).2 (hwindow ▸ (hpre p hp).length_le)
  have hsame : ∀ p ∈ others, (linesFrom files p).take limits.window =
      (linesFrom files base).take limits.window := by
    intro p hp
    rw [hfirst p (List.mem_cons_of_mem base hp), hfirst base List.mem_cons_self]
  refine ⟨hfits, ?_, fun p hp => ?_⟩
  · rw [groupText, List.take_take, Nat.min_eq_left le_grow, hfirst base List.mem_cons_self]
  · rw [hc.occursAt_iff (groupText_ne_nil hpos hfits)]
    rcases List.mem_cons.1 hp with rfl | hp
    · exact List.take_prefix _ _
    · rw [groupText, ← grow_take hsame p hp]
      exact List.take_prefix _ _

/-- **Growing a group**: the positions of a window that is found often enough grow to a repeated
text. -/
theorem groupText_repeated {minLines maxLines minOccurrences : Nat} {ps : List Position}
    (hc : Corpus files) (hmin : 0 < minLines) (hmax : minLines ≤ maxLines)
    (hwindow : window.length = minLines) (hps : OccursExactly files window ps) (hne : ps ≠ [])
    (hlen : minOccurrences ≤ ps.length) :
    Repeated files minLines maxLines minOccurrences
      (groupText files (.of minLines maxLines minOccurrences) ps) := by
  obtain ⟨base, others, rfl⟩ := List.exists_cons_of_ne_nil hne
  let limits := BlockLimits.of minLines maxLines minOccurrences
  obtain ⟨hfits, htake, hwhole⟩ := @groupText_whole _ limits _ _ _ hc hmin hwindow
    fun p hp => (hps.mem p).1 hp
  have htext := @length_groupText _ limits _ _ hmin hfits
  have hleast : minLines ≤ (groupText files limits (base :: others)).length := htext ▸ le_grow
  constructor
  · exact hleast
  · exact htext ▸ grow_le hmax
  · exact ⟨_, htake ▸ hps, hlen⟩
  · exact fun p hp => hwhole p ((hps.mem p).2 (htake ▸ hp))
  · intro hmore
    have hfuel : (linesFrom files base).length ≤ minLines + (linesAt files base.1).length := by
      rw [linesFrom, List.length_map, List.length_drop]
      omega
    refine cannotGrow_of_stop hc (List.ne_nil_of_length_pos (Nat.lt_of_lt_of_le hmin hleast))
      hwhole ?_
    rw [htext] at hmore ⊢
    exact grow_stops hfuel hmore

end

end EvidenceLock
