import EvidenceLock.Proofs.Repeated

/-!
# The blocks of the search

The search for duplicated blocks finds one block for each repeated text (`candidateBlocks_ok`).
Groups of different windows grow to different texts, so that no two of them are ever merged: each
adds a block of its own at the end. `duplicateBlocks_sound` is what this means for the blocks that
are reported.
-/

namespace EvidenceLock

/-- Steps that leave the values alone or add one under a new key add one for each step of the second
kind. -/
theorem Keyed.foldlM_add {γ κ α : Type} {large : γ → Bool} {key : γ → κ} {value : γ → α}
    {step : Keyed κ α → γ → Outcome (Keyed κ α)} {gs : List γ}
    (hskip : ∀ g ∈ gs, large g = false → ∀ m, step m g = .ok m)
    (hadd : ∀ g ∈ gs, large g = true →
      ∀ m : Keyed κ α, key g ∉ m.keys → step m g = .ok (m ++ [(key g, value g)]))
    (hnodup : ((gs.filter large).map key).Nodup) (m : Keyed κ α)
    (hnew : ∀ g ∈ gs.filter large, key g ∉ m.keys) :
    gs.foldlM step m = .ok (m ++ (gs.filter large).map fun g => (key g, value g)) := by
  induction gs generalizing m with
  | nil => exact congrArg Except.ok (List.append_nil m).symm
  | cons g gs ih =>
    have hskip' := fun h hh => hskip h (List.mem_cons_of_mem g hh)
    have hadd' := fun h hh => hadd h (List.mem_cons_of_mem g hh)
    rw [List.foldlM_cons]
    cases hg : large g with
    | false =>
      rw [List.filter_cons_of_neg (by simp [hg])] at hnodup hnew ⊢
      rw [hskip g List.mem_cons_self hg m]
      exact ih hskip' hadd' hnodup m hnew
    | true =>
      rw [List.filter_cons_of_pos hg] at hnodup hnew ⊢
      obtain ⟨hfirst, hnodup⟩ := List.nodup_cons.1 hnodup
      have hnew' : ∀ h ∈ gs.filter large, key h ∉ Keyed.keys (m ++ [(key g, value g)]) := by
        intro h hh hmem
        rw [Keyed.keys, List.map_append, List.mem_append] at hmem
        rcases hmem with hmem | hmem
        · exact hnew h (List.mem_cons_of_mem g hh) hmem
        · exact hfirst (List.mem_map.2 ⟨h, hh, List.mem_singleton.1 hmem⟩)
      have hrest := ih hskip' hadd' hnodup _ hnew'
      rw [List.append_assoc, List.singleton_append] at hrest
      rw [hadd g List.mem_cons_self hg m (hnew g List.mem_cons_self), List.map_cons]
      exact hrest

theorem addNew_of_nodup {α : Type} [BEq α] [LawfulBEq α] {xs ys : List α}
    (h : (xs ++ ys).Nodup) : addNew xs ys = xs ++ ys := by
  induction ys generalizing xs with
  | nil => exact (List.append_nil xs).symm
  | cons y ys ih =>
    have hy : y ∉ xs := fun hy => List.disjoint_of_nodup_append h hy List.mem_cons_self
    have hstep : addNew xs (y :: ys) = addNew (xs ++ [y]) ys := by simp [addNew, hy]
    rw [hstep, ih (by simpa using h), List.append_assoc, List.singleton_append]

variable {files : List NormalizedFile}

/-! ## The block of a group -/

/-- The place of the lines at a position that has so many. -/
def placeAt (files : List NormalizedFile) (length : Nat) (p : Position) : Occurrence :=
  { file := p.1
    first := ((lineAfter? files p 0).map NumberedLine.number).getD 0
    last := ((lineAfter? files p (length - 1)).map NumberedLine.number).getD 0 }

theorem occurrenceAt_eq {length : Nat} {p : Position} (hpos : 0 < length)
    (h : Fits files length p) : occurrenceAt files length p = .ok (placeAt files length p) := by
  obtain ⟨first, hfirst⟩ := exists_lineAfter? h hpos
  obtain ⟨last, hlast⟩ := exists_lineAfter? h (show length - 1 < length by omega)
  simp [occurrenceAt, placeAt, numberAt, hfirst, hlast]

theorem Corpus.fits_of_occursAt (hc : Corpus files) {text : List String} (hne : text ≠ [])
    {p : Position} (h : OccursAt files text p) : Fits files text.length p :=
  (fits_iff (List.length_pos_iff.2 hne)).2 ((hc.occursAt_iff hne).1 h).length_le

theorem Corpus.placeOf_placeAt (hc : Corpus files) {text : List String} (hne : text ≠ [])
    {p : Position} (h : OccursAt files text p) :
    PlaceOf files text.length p (placeAt files text.length p) :=
  have hpos := List.length_pos_iff.2 hne
  occurrenceAt_ok hpos (occurrenceAt_eq hpos (hc.fits_of_occursAt hne h))

/-- The places of a text at different positions are different. -/
theorem Corpus.nodup_places (hc : Corpus files) {text : List String} (hne : text ≠ [])
    {ps : List Position} (hps : ps.Nodup) (h : ∀ p ∈ ps, OccursAt files text p) :
    (ps.map (placeAt files text.length)).Nodup := by
  refine hps.map_on fun p hp q hq hpq => ?_
  have hplace := hc.placeOf_placeAt hne (h p hp)
  rw [hpq] at hplace
  exact hc.position_eq_of_placeOf (List.length_pos_iff.2 hne) hplace
    (hc.placeOf_placeAt hne (h q hq))

/-- The block to which a group of positions grows. -/
def groupBlock (files : List NormalizedFile) (limits : BlockLimits) (ps : List Position) :
    DuplicateBlock :=
  { hash := fingerprint (blockText (groupText files limits ps))
    length := (groupText files limits ps).length
    occurrences := ps.map (placeAt files (groupText files limits ps).length)
    flagged := limits.flagged && (groupText files limits ps).length == limits.window }

/-- With whole numbers, a window is not passed over when it appears often enough for a block. -/
theorem BlockLimits.few_of_eq_false {minLines maxLines minOccurrences n : Nat} :
    (of minLines maxLines minOccurrences).few n = false ↔ minOccurrences ≤ n := by
  simp [of]

/-- A group of positions that is reported if it grows to a block. -/
def isLarge (limits : BlockLimits) (g : String × List Position) : Bool :=
  !g.2.isEmpty && !limits.few g.2.length

/-- The windows that are found often enough, with their positions. -/
def largeGroups (files : List NormalizedFile) (limits : BlockLimits) :
    Keyed String (List Position) :=
  (windowGroups limits.window files).filter (isLarge limits)

section
variable {limits : BlockLimits}

theorem extendGroup_eq (hc : Corpus files) (hpos : 0 < limits.window) {window : List String}
    (hwindow : window.length = limits.window) {base : Position} {others : List Position}
    (hps : ∀ p ∈ base :: others, OccursAt files window p) :
    let text := groupText files limits (base :: others)
    extendGroup files limits base others =
      .ok (text.length, blockText text, (base :: others).map (placeAt files text.length)) := by
  obtain ⟨hfits, -, hwhole⟩ := groupText_whole hc hpos hwindow hps
  have hlen := length_groupText hpos hfits
  have hne := groupText_ne_nil hpos hfits
  have hplaces : (base :: others).mapM (occurrenceAt files
      (groupText files limits (base :: others)).length) = .ok ((base :: others).map
        (placeAt files (groupText files limits (base :: others)).length)) :=
    Outcome.mapM_eq_ok fun p hp =>
      occurrenceAt_eq (List.length_pos_iff.2 hne) (hc.fits_of_occursAt hne (hwhole p hp))
  rw [hlen] at hplaces
  unfold extendGroup
  dsimp only
  rw [hplaces, hlen, groupText, linesFrom, List.map_take]
  rfl

/-- A group holds the positions of a window that is found often enough. Its text begins with this
window and stands at all of them. -/
structure GroupOf (files : List NormalizedFile) (limits : BlockLimits) (window : List String)
    (g : String × List Position) : Prop where
  length : window.length = limits.window
  key : g.1 = blockText window
  positions : OccursExactly files window g.2
  nonempty : g.2 ≠ []
  often : limits.few g.2.length = false
  take : (groupText files limits g.2).take limits.window = window
  text : groupText files limits g.2 ≠ []
  whole : ∀ p ∈ g.2, OccursAt files (groupText files limits g.2) p

theorem groupOf_of_mem (hc : Corpus files) (hpos : 0 < limits.window) {window : List String}
    (hwindow : window.length = limits.window) {ps : List Position}
    (hps : OccursExactly files window ps) (hne : ps ≠ [])
    (hoften : limits.few ps.length = false) :
    GroupOf files limits window (blockText window, ps) := by
  obtain ⟨base, others, rfl⟩ := List.exists_cons_of_ne_nil hne
  obtain ⟨hfits, htake, hwhole⟩ := groupText_whole hc hpos hwindow fun p hp => (hps.mem p).1 hp
  exact ⟨hwindow, rfl, hps, hne, hoften, htake, groupText_ne_nil hpos hfits, hwhole⟩

theorem mem_largeGroups (hc : Corpus files) (hpos : 0 < limits.window)
    {g : String × List Position} (hg : g ∈ largeGroups files limits) :
    ∃ window, GroupOf files limits window g := by
  obtain ⟨key, ps⟩ := g
  obtain ⟨hmem, hlarge⟩ := List.mem_filter.1 hg
  obtain ⟨hne, window, hwindow, rfl, hps⟩ := hc.mem_windowGroups hpos hmem
  rw [isLarge, Bool.and_eq_true, Bool.not_eq_true', Bool.not_eq_true'] at hlarge
  exact ⟨window, groupOf_of_mem hc hpos hwindow hps hne hlarge.2⟩

/-- A window that is found often enough has its group. -/
theorem exists_largeGroup (hc : Corpus files) (hpos : 0 < limits.window) {window : List String}
    (hwindow : window.length = limits.window) {ps : List Position}
    (hps : OccursExactly files window ps) (hne : ps ≠ [])
    (hoften : limits.few ps.length = false) :
    ∃ g ∈ largeGroups files limits, GroupOf files limits window g := by
  obtain ⟨p, hp⟩ := List.exists_mem_of_ne_nil ps hne
  obtain ⟨qs, hqs, hexact⟩ := hc.exists_windowGroup hpos hwindow ((hps.mem p).1 hp)
  have hperm := hps.perm hexact
  rw [hperm.length_eq] at hoften
  have hqne : qs ≠ [] := List.ne_nil_of_mem ((hperm.mem_iff).1 hp)
  have hgroup := groupOf_of_mem hc hpos hwindow hexact hqne hoften
  refine ⟨_, List.mem_filter.2 ⟨hqs, ?_⟩, hgroup⟩
  simp [isLarge, hgroup.nonempty, hgroup.often]

/-- Groups of different windows grow to different texts. -/
theorem nodup_groupTexts (hc : Corpus files) (hpos : 0 < limits.window) :
    ((largeGroups files limits).map fun g => groupText files limits g.2).Nodup := by
  have hkeys : (largeGroups files limits).map Prod.fst = ((largeGroups files limits).map fun g =>
      groupText files limits g.2).map fun text => blockText (text.take limits.window) := by
    rw [List.map_map]
    refine List.map_congr_left fun g hg => ?_
    obtain ⟨window, hgroup⟩ := mem_largeGroups hc hpos hg
    rw [hgroup.key, Function.comp_apply, hgroup.take]
  have hnodup : ((largeGroups files limits).map Prod.fst).Nodup := by
    refine List.Nodup.sublist (List.filter_sublist.map Prod.fst) ?_
    rw [windowGroups_eq]
    exact Keyed.nodup_keys_grouped _
  rw [hkeys] at hnodup
  exact hnodup.of_map _

theorem nodup_groupKeys (hc : Corpus files) (hpos : 0 < limits.window) :
    ((largeGroups files limits).map fun g => blockText (groupText files limits g.2)).Nodup := by
  have hmap : ((largeGroups files limits).map fun g => blockText (groupText files limits g.2)) =
      ((largeGroups files limits).map fun g => groupText files limits g.2).map blockText := by
    rw [List.map_map]
    rfl
  rw [hmap]
  refine (nodup_groupTexts hc hpos).map_on fun s hs t ht hst => ?_
  obtain ⟨g, hg, rfl⟩ := List.mem_map.1 hs
  obtain ⟨h, hh, rfl⟩ := List.mem_map.1 ht
  obtain ⟨_, hgroup⟩ := mem_largeGroups hc hpos hg
  obtain ⟨_, hgroup'⟩ := mem_largeGroups hc hpos hh
  obtain ⟨p, hp⟩ := List.exists_mem_of_ne_nil _ hgroup.nonempty
  obtain ⟨q, hq⟩ := List.exists_mem_of_ne_nil _ hgroup'.nonempty
  exact hc.blockText_injective hgroup.text hgroup'.text (hgroup.whole p hp) (hgroup'.whole q hq) hst

/-- **No two groups are merged**: each one that is large enough adds its own text and places. -/
theorem mergedGroups_eq (hc : Corpus files) (hpos : 0 < limits.window) :
    mergedGroups files limits = .ok ((largeGroups files limits).map fun g =>
      (blockText (groupText files limits g.2), ((groupText files limits g.2).length,
        g.2.map (placeAt files (groupText files limits g.2).length)))) := by
  unfold mergedGroups
  rw [@Keyed.foldlM_add (String × List Position) _ _ (isLarge limits)
    (fun g => blockText (groupText files limits g.2))
    (fun g => ((groupText files limits g.2).length,
      g.2.map (placeAt files (groupText files limits g.2).length)))]
  · rfl
  · rintro ⟨key, ps⟩ - hsmall m
    cases ps with
    | nil => rfl
    | cons base others =>
      have hfew : limits.few (base :: others).length = true := by
        simpa [isLarge] using hsmall
      dsimp only
      rw [if_pos hfew]
  · rintro ⟨key, ps⟩ hg hlarge m hnew
    obtain ⟨window, hgroup⟩ := mem_largeGroups hc hpos (List.mem_filter.2 ⟨hg, hlarge⟩)
    have hplaces := hc.nodup_places hgroup.text hgroup.positions.nodup hgroup.whole
    have hoften := hgroup.often
    obtain ⟨base, others, rfl⟩ := List.exists_cons_of_ne_nil hgroup.nonempty
    dsimp only at hoften ⊢
    rw [hoften, if_neg Bool.false_ne_true, extendGroup_eq hc hpos hgroup.length fun p hp =>
      (hgroup.positions.mem p).1 hp]
    rw [Outcome.ok_bind, Keyed.alter_of_not_mem hnew, addNew_of_nodup (by simpa using hplaces)]
    rfl
  · exact nodup_groupKeys hc hpos
  · intro g _ hmem
    cases hmem

theorem candidateBlocks_eq (hc : Corpus files) (hpos : 0 < limits.window)
    (henough : ∀ n, limits.few n = false → limits.enough n = true) :
    candidateBlocks files limits =
      .ok ((largeGroups files limits).map fun g => groupBlock files limits g.2) := by
  rw [candidateBlocks, mergedGroups_eq hc hpos, Outcome.ok_bind, List.map_map]
  change Except.ok (((largeGroups files limits).map fun g => groupBlock files limits g.2).filter
    fun b => limits.enough b.occurrences.length) = _
  refine congrArg Except.ok (List.filter_eq_self.2 fun b hb => ?_)
  obtain ⟨g, hg, rfl⟩ := List.mem_map.1 hb
  obtain ⟨_, hgroup⟩ := mem_largeGroups hc hpos hg
  rw [groupBlock, List.length_map]
  exact henough _ hgroup.often

end

/-! ## Blocks and repeated texts -/

section
variable {minLines maxLines minOccurrences : Nat}

/-- The repeated texts, each one once, with their blocks. -/
structure ListsRepeated (files : List NormalizedFile) (minLines maxLines minOccurrences : Nat)
    (found : List (List String × DuplicateBlock)) : Prop where
  nodup : (found.map Prod.fst).Nodup
  texts : ∀ text, text ∈ found.map Prod.fst ↔
    Repeated files minLines maxLines minOccurrences text
  blocks : ∀ e ∈ found, IsBlockOf files minLines e.1 e.2

theorem groupBlock_isBlockOf (hc : Corpus files) {limits : BlockLimits} {window : List String}
    {g : String × List Position} (hgroup : GroupOf files limits window g) :
    IsBlockOf files limits.window (groupText files limits g.2) (groupBlock files limits g.2) where
  length := rfl
  hash := rfl
  distinct := hc.nodup_places hgroup.text hgroup.positions.nodup hgroup.whole
  places := by
    refine ⟨g.2, hgroup.take ▸ hgroup.positions, ?_⟩
    rw [groupBlock, List.forall₂_map_right_iff, List.forall₂_same]
    exact fun p hp => hc.placeOf_placeAt hgroup.text (hgroup.whole p hp)

/-- **The blocks of the search** before any is dropped are those of the repeated texts, one for
each. -/
theorem candidateBlocks_ok (hc : Corpus files) (hmin : 0 < minLines) (hmax : minLines ≤ maxLines)
    (hocc : 0 < minOccurrences) : ∃ found : List (List String × DuplicateBlock),
      candidateBlocks files (.of minLines maxLines minOccurrences) = .ok (found.map Prod.snd) ∧
      ListsRepeated files minLines maxLines minOccurrences found := by
  let limits := BlockLimits.of minLines maxLines minOccurrences
  let found := (largeGroups files limits).map fun g =>
    (groupText files limits g.2, groupBlock files limits g.2)
  have hfirst : found.map Prod.fst =
      (largeGroups files limits).map fun g => groupText files limits g.2 := by
    rw [List.map_map]
    rfl
  have hsecond : found.map Prod.snd =
      (largeGroups files limits).map fun g => groupBlock files limits g.2 := by
    rw [List.map_map]
    rfl
  have hrepeated : ∀ {window g}, GroupOf files limits window g →
      Repeated files minLines maxLines minOccurrences (groupText files limits g.2) :=
    fun hgroup => groupText_repeated hc hmin hmax hgroup.length hgroup.positions hgroup.nonempty
      (BlockLimits.few_of_eq_false.1 hgroup.often)
  refine ⟨found, ?_, ?_, fun text => ?_, fun e he => ?_⟩
  · rw [hsecond]
    exact candidateBlocks_eq hc hmin fun _ hn => decide_eq_true (BlockLimits.few_of_eq_false.1 hn)
  · rw [hfirst]
    exact nodup_groupTexts hc hmin
  · rw [hfirst, List.mem_map]
    constructor
    · rintro ⟨g, hg, rfl⟩
      obtain ⟨window, hgroup⟩ := mem_largeGroups hc hmin hg
      exact hrepeated hgroup
    · intro htext
      -- The group of its window has grown to a repeated text too, and there is only one.
      obtain ⟨ps, hps, hlen⟩ := htext.often
      have hwindow : (text.take minLines).length = minLines := by
        rw [List.length_take, Nat.min_eq_left htext.least]
      obtain ⟨g, hg, hgroup⟩ := @exists_largeGroup _ limits hc hmin _ hwindow _ hps
        (List.ne_nil_of_length_pos (Nat.lt_of_lt_of_le hocc hlen))
        (BlockLimits.few_of_eq_false.2 hlen)
      exact ⟨g, hg, (hrepeated hgroup).unique hc hmin hocc htext hgroup.take⟩
  · obtain ⟨g, hg, rfl⟩ := List.mem_map.1 he
    obtain ⟨window, hgroup⟩ := mem_largeGroups hc hmin hg
    exact groupBlock_isBlockOf hc hgroup

/-! ## Reported blocks -/

theorem dropCovered_sublist (bs : List DuplicateBlock) : (dropCovered bs).Sublist bs := by
  have h : (dropCovered bs).Sublist (bs.zipIdx.map Prod.fst) := List.filter_sublist.map Prod.fst
  rwa [List.zipIdx_map_fst] at h

theorem duplicateBlocks_eq {limits : BlockLimits} {candidates : List DuplicateBlock}
    (h : candidateBlocks files limits = .ok candidates) :
    duplicateBlocks files limits = .ok (dropCovered candidates) := by
  rw [duplicateBlocks, h]
  rfl

/-- **Reported blocks are duplicates.** The search ends, and each block that it reports is that of a
repeated text: its places are those of all positions at which the text starts, they are different
and enough, and the text is as long as it can be. No two blocks have the same text. -/
theorem duplicateBlocks_sound (hc : Corpus files) (hmin : 1 ≤ minLines)
    (hmax : minLines ≤ maxLines) (hocc : 1 ≤ minOccurrences) :
    ∃ found : List (List String × DuplicateBlock),
      duplicateBlocks files (.of minLines maxLines minOccurrences) = .ok (found.map Prod.snd) ∧
      (found.map Prod.fst).Nodup ∧
      ∀ e ∈ found, Repeated files minLines maxLines minOccurrences e.1 ∧
        IsBlockOf files minLines e.1 e.2 ∧ minOccurrences ≤ e.2.occurrences.length := by
  obtain ⟨all, hall, hlists⟩ := candidateBlocks_ok hc hmin hmax hocc
  obtain ⟨found, hsub, hfound⟩ := List.sublist_map_iff.1 (dropCovered_sublist (all.map Prod.snd))
  refine ⟨found, ?_, hlists.nodup.sublist (hsub.map Prod.fst), fun e he => ?_⟩
  · rw [duplicateBlocks_eq hall, hfound]
  · have he := hsub.subset he
    have hrepeated := (hlists.texts e.1).1 (List.mem_map_of_mem he)
    have hblock := hlists.blocks e he
    exact ⟨hrepeated, hblock, hblock.length_le hrepeated⟩

end

/-- Two files with three lines in common. -/
def twinFiles : List NormalizedFile :=
  [{ path := "a.py", lines := [⟨1, "x"⟩, ⟨2, "y"⟩, ⟨4, "z"⟩, ⟨5, "w"⟩] },
   { path := "b.py", lines := [⟨1, "v"⟩, ⟨3, "x"⟩, ⟨4, "y"⟩, ⟨7, "z"⟩] }]

theorem twinFiles_corpus : Corpus twinFiles := ⟨by decide, by decide, by decide⟩

/-- The three lines are reported as one block; what is found of the last two of them is left out. -/
theorem duplicateBlocks_sound_twins : ∃ text b, duplicateBlocks twinFiles (.of 2 5 2) = .ok [b] ∧
    b.occurrences = [⟨"a.py", 1, 4⟩, ⟨"b.py", 3, 7⟩] ∧ Repeated twinFiles 2 5 2 text ∧
    IsBlockOf twinFiles 2 text b := by
  obtain ⟨found, hfound, -, hall⟩ :=
    @duplicateBlocks_sound twinFiles 2 5 2 twinFiles_corpus (by decide) (by decide) (by decide)
  have hplaces : (duplicateBlocks twinFiles (.of 2 5 2)).toOption.map
      (List.map DuplicateBlock.occurrences) = some [[⟨"a.py", 1, 4⟩, ⟨"b.py", 3, 7⟩]] := by
    decide +kernel
  rw [hfound] at hplaces
  obtain ⟨b, hb, hoccurrences⟩ := List.map_eq_singleton_iff.1 (Option.some.inj hplaces)
  obtain ⟨⟨text, c⟩, rfl, hc⟩ := List.map_eq_singleton_iff.1 hb
  cases hc
  obtain ⟨htext, hblock, -⟩ := hall (text, c) List.mem_cons_self
  exact ⟨text, c, hfound, hoccurrences, htext, hblock⟩

end EvidenceLock
