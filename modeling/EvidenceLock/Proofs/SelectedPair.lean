import EvidenceLock.Fix.Run
import EvidenceLock.Proofs.IssueOrder

/-!
# The two items that the generator is shown

The evidence of duplicated blocks cites block after block (`Repeating.placesOf_pairwise`), and two
items of one file are taken from it when some file is cited twice, the first two otherwise
(`GuardedIssue.selected_eq`). A block has two places at least (`analyze_repeating`), so the first
two items are always of one block. Two items of one file are so unless the block of the first one
has no other place there (`Repeating.lone_iff`): then they belong to two blocks
(`selected_crossed`).
-/

namespace EvidenceLock

/-! ## Blocks that are reported -/

theorem nodup_addNew {α : Type} [BEq α] [LawfulBEq α] {xs : List α} (h : xs.Nodup) (ys : List α) :
    (addNew xs ys).Nodup := by
  unfold addNew
  induction ys generalizing xs with
  | nil => exact h
  | cons y ys ih =>
    rw [List.foldl_cons]
    apply ih
    split
    · exact h
    · rename_i hnew
      exact h.append (List.nodup_singleton y) (List.disjoint_singleton.2 (by simpa using hnew))

section
variable {files : List NormalizedFile} {limits : BlockLimits}

/-- Merged groups hold each place once. -/
theorem mergedGroups_nodup {merged : Keyed String (Nat × List Occurrence)}
    (h : mergedGroups files limits = .ok merged) : ∀ e ∈ merged, e.2.2.Nodup := by
  refine mergedGroups_preserves (P := fun merged => ∀ e ∈ merged, e.2.2.Nodup) nofun
    (fun hm _ e he => ?_) h
  rcases Keyed.mem_alter he with hmem | hnew | ⟨d, hd, hold⟩
  · exact hm e hmem
  · rw [hnew]
    exact nodup_addNew List.nodup_nil _
  · rw [hold]
    exact nodup_addNew (hm d hd) _

/-- What the evidence needs of blocks: two places at least, each of them once, and no two blocks
that rank alike. -/
structure Repeating (blocks : List DuplicateBlock) : Prop where
  ranks : (blocks.map fun b => blockKey b.withHead).Nodup
  places : ∀ b ∈ blocks, b.occurrences.Nodup
  twice : ∀ b ∈ blocks, 2 ≤ b.occurrences.length

theorem Repeating.sublist {blocks blocks' : List DuplicateBlock} (h : Repeating blocks)
    (hsub : blocks'.Sublist blocks) : Repeating blocks' :=
  ⟨h.ranks.sublist (hsub.map _), fun b hb => h.places b (hsub.subset hb),
    fun b hb => h.twice b (hsub.subset hb)⟩

theorem candidateBlocks_repeating (hnumbers : ∀ f ∈ files, f.numbers.Nodup)
    (henough : ∀ n < 2, limits.enough n = false) {candidates : List DuplicateBlock}
    (h : candidateBlocks files limits = .ok candidates) : Repeating candidates := by
  obtain ⟨merged, hmerged, h⟩ := Outcome.bind_eq_ok.1 h
  cases h
  have hrooted := mergedGroups_rooted hmerged
  refine ⟨?_, fun b hb => ?_, fun b hb => ?_⟩
  · refine List.Nodup.sublist (List.filter_sublist.map _) ?_
    rw [List.map_map, List.Nodup, List.pairwise_map]
    -- Groups with different texts do not start on one line with the same length.
    refine (List.pairwise_map.1 hrooted.nodup).imp_of_mem fun {d e} hd he hne hkey => hne ?_
    obtain ⟨s, m, places⟩ := d
    obtain ⟨t, n, places'⟩ := e
    have hs := hrooted.rooted (Keyed.find?_of_mem hrooted.nodup hd)
    have ht := hrooted.rooted (Keyed.find?_of_mem hrooted.nodup he)
    obtain ⟨-, hlength, hfile, hfirst⟩ := blockKey_eq_iff.1 hkey
    obtain rfl : m = n := Int.ofNat_inj.1 hlength
    have ⟨_, o, ho, _⟩ := hs
    have ⟨_, o', ho', _⟩ := ht
    refine hs.text_eq hnumbers ht ho ho' ?_ ?_
    · simpa [DuplicateBlock.withHead, List.headD_eq_head?_getD, ho, ho'] using hfile
    · simpa [DuplicateBlock.withHead, List.headD_eq_head?_getD, ho, ho'] using hfirst
  · obtain ⟨e, he, rfl⟩ := List.mem_map.1 (List.mem_of_mem_filter hb)
    exact mergedGroups_nodup hmerged e he
  · have hlarge := (List.mem_filter.1 hb).2
    by_contra hfew
    rw [henough _ (Nat.lt_of_not_le hfew)] at hlarge
    cases hlarge

theorem duplicateBlocks_repeating (hnumbers : ∀ f ∈ files, f.numbers.Nodup)
    (henough : ∀ n < 2, limits.enough n = false) {blocks : List DuplicateBlock}
    (h : duplicateBlocks files limits = .ok blocks) : Repeating blocks := by
  obtain ⟨candidates, hcandidates, h⟩ := Outcome.bind_eq_ok.1 h
  cases h
  exact (candidateBlocks_repeating hnumbers henough hcandidates).sublist
    (dropCovered_sublist candidates)

end

/-- Two occurrences at least are asked for, so no fewer are enough. -/
theorem Thresholds.enough_eq_false {t : Thresholds} {fields : NamedValues}
    (ht : ofFields fields = .ok t) {limits : BlockLimits} (h : t.blockLimits = .ok limits) :
    ∀ n < 2, limits.enough n = false := by
  intro n hn
  obtain ⟨window, -, h⟩ := Outcome.bind_eq_ok.1 h
  cases h
  exact Number.le_eq_false_of_lt (ofFields_keeps ht).2.2.2 (Int.ofNat_lt.2 hn)

/-- **The blocks of an analysis** each have two places at least. -/
theorem analyze_repeating {limits : SignalLimits} {read : Reader} {visit : Visitors}
    {rs : List FileRecord} {run : AnalysisRun}
    (henough : ∀ {bl}, limits.blocks = .ok bl → ∀ n < 2, bl.enough n = false)
    (h : analyze limits read visit rs = .ok run) :
    Repeating run.analysis.signals.duplicateBlocks := by
  rcases analyze_searches h with hnone | ⟨files, blockLimits, hlimits, hnumbers, hblocks⟩
  · rw [hnone]
    exact ⟨List.nodup_nil, nofun, nofun⟩
  · exact duplicateBlocks_repeating hnumbers (henough hlimits) hblocks

/-! ## What is cited -/

/-- A place of a block as an evidence item. -/
def itemOf (c : DuplicateBlock × Occurrence) : EvidenceItem := (c.1.citation c.2).item

/-- The places of some blocks, block by block in their order of rank. -/
def placesOf (blocks : List DuplicateBlock) : List (DuplicateBlock × Occurrence) :=
  ((blocks.map DuplicateBlock.withHead).mergeSort fun p q => (blockOrder p q).isLE).flatMap
    fun p => p.1.occurrences.map fun o => (p.1, o)

/-- The cited places in the file of one of them. -/
def inFileOf (cited : List (DuplicateBlock × Occurrence)) (c : DuplicateBlock × Occurrence) :
    List (DuplicateBlock × Occurrence) :=
  cited.filter fun d => c.2.file == d.2.file

/-- The first cited place whose file is cited again. -/
def firstShared? (cited : List (DuplicateBlock × Occurrence)) :
    Option (DuplicateBlock × Occurrence) :=
  cited.find? fun c => decide (2 ≤ (inFileOf cited c).length)

section
variable {blocks : List DuplicateBlock}

theorem mem_placesOf {c : DuplicateBlock × Occurrence} :
    c ∈ placesOf blocks ↔ c.1 ∈ blocks ∧ c.2 ∈ c.1.occurrences := by
  simp only [placesOf, List.mem_flatMap, List.mem_mergeSort, List.mem_map]
  constructor
  · rintro ⟨p, ⟨b, hb, rfl⟩, o, ho, rfl⟩
    exact ⟨hb, ho⟩
  · rintro ⟨hb, ho⟩
    exact ⟨_, ⟨c.1, hb, rfl⟩, c.2, ho, rfl⟩

/-- The ranked blocks come in strict order. -/
theorem Repeating.pairwise_ranked (h : Repeating blocks) :
    ((blocks.map DuplicateBlock.withHead).mergeSort fun p q => (blockOrder p q).isLE).Pairwise
      fun p q => blockKey p < blockKey q :=
  pairwise_lt_mergeSort blockOrder_iff (by rw [List.map_map]; exact h.ranks)

theorem withHead_of_mem_ranked {p : DuplicateBlock × Occurrence}
    (h : p ∈ (blocks.map DuplicateBlock.withHead).mergeSort fun p q => (blockOrder p q).isLE) :
    p.1 ∈ blocks ∧ p = p.1.withHead := by
  obtain ⟨b, hb, rfl⟩ := List.mem_map.1 (List.mem_mergeSort.1 h)
  exact ⟨hb, rfl⟩

/-- **Block after block is cited**: places come in the order of rank of their blocks. -/
theorem Repeating.placesOf_pairwise (h : Repeating blocks) :
    (placesOf blocks).Pairwise fun c d => blockKey c.1.withHead ≤ blockKey d.1.withHead := by
  rw [placesOf, List.pairwise_flatMap]
  refine ⟨fun p _ => ?_, h.pairwise_ranked.imp_of_mem fun {p q} hp hq hlt c hc d hd => ?_⟩
  · rw [List.pairwise_map]
    exact List.pairwise_of_forall fun _ _ => le_refl _
  · obtain ⟨o, -, rfl⟩ := List.mem_map.1 hc
    obtain ⟨o', -, rfl⟩ := List.mem_map.1 hd
    dsimp only
    rw [← (withHead_of_mem_ranked hp).2, ← (withHead_of_mem_ranked hq).2]
    exact le_of_lt hlt

theorem Repeating.placesOf_nodup (h : Repeating blocks) : (placesOf blocks).Nodup := by
  rw [List.Nodup, placesOf, List.pairwise_flatMap]
  refine ⟨fun p hp => ?_, h.pairwise_ranked.imp_of_mem fun {p q} hp hq hlt c hc d hd heq => ?_⟩
  · exact (h.places p.1 (withHead_of_mem_ranked hp).1).map fun _ _ heq => (Prod.mk.inj heq).2
  · obtain ⟨o, -, rfl⟩ := List.mem_map.1 hc
    obtain ⟨o', -, rfl⟩ := List.mem_map.1 hd
    rw [(withHead_of_mem_ranked hp).2, (withHead_of_mem_ranked hq).2, (Prod.mk.inj heq).1] at hlt
    exact lt_irrefl _ hlt

/-- The first two places are those of one block. -/
theorem Repeating.placesOf_eq (h : Repeating blocks) (hne : blocks ≠ []) :
    ∃ b o o' rest, placesOf blocks = (b, o) :: (b, o') :: rest := by
  have hranked : ((blocks.map DuplicateBlock.withHead).mergeSort fun p q =>
      (blockOrder p q).isLE) ≠ [] := by
    rw [← List.length_pos_iff, List.length_mergeSort, List.length_map]
    exact List.length_pos_iff.2 hne
  obtain ⟨p, ps, hp⟩ := List.exists_cons_of_ne_nil hranked
  have htwice := h.twice p.1 (withHead_of_mem_ranked (hp ▸ List.mem_cons_self)).1
  rw [placesOf, hp, List.flatMap_cons]
  match hplaces : p.1.occurrences, htwice with
  | o :: o' :: rest, _ => exact ⟨p.1, o, o', _, rfl⟩

/-- Blocks of one rank are the same. -/
theorem Repeating.eq_of_rank (h : Repeating blocks) {b c : DuplicateBlock} (hb : b ∈ blocks)
    (hc : c ∈ blocks) (hkey : blockKey b.withHead = blockKey c.withHead) : b = c :=
  List.inj_on_of_nodup_map h.ranks hb hc hkey

end

/-! ## What is selected -/

theorem byFile_items (cited : List (DuplicateBlock × Occurrence)) :
    byFile (cited.map itemOf) =
      (Keyed.grouped (cited.map fun c => (c.2.file, itemOf c))).map (Prod.map Value.str id) := by
  induction cited using List.reverseRecOn with
  | nil => rfl
  | append_singleton cited c ih =>
    rw [List.map_append, List.map_append, byFile, Keyed.grouped, List.foldl_append,
      List.foldl_append, ← byFile, ← Keyed.grouped, ih]
    exact (Keyed.alter_map_keys (fun k l : String => (rfl : (Value.str k == .str l) = (k == l))) _ _
      _).symm

/-- **Two places in the first file that is cited again** are selected, or the first two when no file
is. -/
theorem GuardedIssue.selected_eq {g : GuardedIssue} {cited : List (DuplicateBlock × Occurrence)}
    (hsignal : g.signal = duplicateSignal) (hevidence : g.evidence = cited.map itemOf) :
    g.selected = (((firstShared? cited).elim cited (inFileOf cited)).take 2).map itemOf := by
  have hother : g.signal ≠ longFunctionSignal := by
    rw [hsignal]
    decide
  have hitems (file : String) : ((cited.map fun c => (c.2.file, itemOf c)).filter fun d =>
      file == d.1).map Prod.snd = (cited.filter fun d => file == d.2.file).map itemOf := by
    rw [List.filter_map, List.map_map]
    rfl
  have hfind := Keyed.find?_groups (fun items => decide (2 ≤ items.length))
    (cited.map fun c => (c.2.file, itemOf c))
  simp only [hitems, List.length_map, List.find?_map, Option.map_map] at hfind
  rw [selected, if_neg hother, hevidence, byFile_items, List.find?_map]
  have hshared : cited.find? ((fun e : String × EvidenceItem =>
      decide (2 ≤ (cited.filter fun d => e.1 == d.2.file).length)) ∘ fun c =>
        (c.2.file, itemOf c)) = firstShared? cited := rfl
  rw [hshared] at hfind
  rw [show List.find? (_ ∘ _) _ = _ from hfind]
  cases firstShared? cited with
  | none => simp [List.map_take]
  | some c => simp [List.map_take, inFileOf]

/-- The first place whose file is cited again is the first one in this file. -/
theorem exists_inFileOf_eq {cited : List (DuplicateBlock × Occurrence)}
    {c : DuplicateBlock × Occurrence} (h : firstShared? cited = some c) :
    ∃ d rest, inFileOf cited c = c :: d :: rest := by
  obtain ⟨htwo, before, after, rfl, hbefore⟩ := List.find?_eq_some_iff_append.1 h
  have hnone : (before.filter fun d => c.2.file == d.2.file) = [] := by
    refine List.filter_eq_nil_iff.2 fun d hd hfile => ?_
    have hsame : inFileOf (before ++ c :: after) d = inFileOf (before ++ c :: after) c := by
      rw [inFileOf, inFileOf, eq_of_beq hfile]
    have hfew := hbefore d hd
    rw [hsame, htwo] at hfew
    cases hfew
  have heq : inFileOf (before ++ c :: after) c =
      c :: after.filter fun d => c.2.file == d.2.file := by
    rw [inFileOf, List.filter_append, hnone, List.nil_append,
      List.filter_cons_of_pos (by simp)]
  rw [heq] at htwo ⊢
  cases hafter : after.filter fun d => c.2.file == d.2.file with
  | nil =>
    rw [hafter] at htwo
    cases htwo
  | cons d rest => exact ⟨d, rest, rfl⟩

/-- In its file a place is the only cited one of its block. -/
def Lone (cited : List (DuplicateBlock × Occurrence)) (c : DuplicateBlock × Occurrence) : Prop :=
  ∀ d ∈ inFileOf cited c, d.1 = c.1 → d = c

/-- Of two places in the first file that is cited again, the first one is lone exactly when the
other one is of another block. -/
theorem Repeating.lone_iff {blocks : List DuplicateBlock} (h : Repeating blocks)
    {cited : List (DuplicateBlock × Occurrence)} (hcited : cited.Sublist (placesOf blocks))
    {c d : DuplicateBlock × Occurrence} {rest : List (DuplicateBlock × Occurrence)}
    (hfile : inFileOf cited c = c :: d :: rest) : Lone cited c ↔ c.1 ≠ d.1 := by
  have hsub : (inFileOf cited c).Sublist (placesOf blocks) := List.filter_sublist.trans hcited
  rw [hfile] at hsub
  have hmem {e : DuplicateBlock × Occurrence} (he : e ∈ c :: d :: rest) : e.1 ∈ blocks :=
    (mem_placesOf.1 (hsub.subset he)).1
  rw [Lone, hfile]
  constructor
  · intro hlone hsame
    have hne := (List.nodup_cons.1 (h.placesOf_nodup.sublist hsub)).1
    exact hne (hlone d (by simp) hsame.symm ▸ List.mem_cons_self)
  · intro hne e he hsame
    obtain ⟨hfirst, hordered⟩ := List.pairwise_cons.1 (h.placesOf_pairwise.sublist hsub)
    rcases List.mem_cons.1 he with rfl | he
    · rfl
    -- A later place of the block would have all places before it in the block as well.
    have hle : blockKey d.1.withHead ≤ blockKey c.1.withHead := by
      rcases List.mem_cons.1 he with rfl | he
      · rw [hsame]
      · rw [← hsame]
        exact (List.pairwise_cons.1 hordered).1 e he
    exact absurd (h.eq_of_rank (hmem (by simp)) (hmem (by simp))
      (le_antisymm (hfirst d List.mem_cons_self) hle)) hne

/-- Two of the cited places as they are selected: of one block, unless the first of them is shared
and lone. -/
structure Shown (cited : List (DuplicateBlock × Occurrence)) (p q : DuplicateBlock × Occurrence) :
    Prop where
  left : p ∈ cited
  right : q ∈ cited
  ne : p ≠ q
  eq : ((firstShared? cited).elim cited (inFileOf cited)).take 2 = [p, q]
  crossed_iff : p.1 ≠ q.1 ↔ ∃ c, firstShared? cited = some c ∧ Lone cited c
  crossed : p.1 ≠ q.1 → firstShared? cited = some p ∧ p.2.file = q.2.file

/-- When no file is cited twice, the first block gives the first two places. -/
theorem Repeating.shown_of_none {blocks : List DuplicateBlock} (h : Repeating blocks)
    (hne : blocks ≠ []) {k : Nat} (hk : 2 ≤ k)
    (hnone : firstShared? ((placesOf blocks).take k) = none) :
    ∃ p q, Shown ((placesOf blocks).take k) p q := by
  obtain ⟨b, o, o', rest, hplaces⟩ := h.placesOf_eq hne
  obtain ⟨j, rfl⟩ : ∃ j, k = j + 2 := ⟨k - 2, by omega⟩
  have hcited : (placesOf blocks).take (j + 2) = (b, o) :: (b, o') :: rest.take j := by
    rw [hplaces, List.take_succ_cons, List.take_succ_cons]
  have hnodup := h.placesOf_nodup.sublist (List.take_sublist (j + 2) _)
  rw [hcited] at hnone hnodup ⊢
  refine ⟨(b, o), (b, o'), by simp, by simp, fun he => ?_, ?_, ?_, fun hother => absurd rfl hother⟩
  · exact (List.nodup_cons.1 hnodup).1 (he ▸ List.mem_cons_self)
  · rw [hnone]
    rfl
  · simp [hnone]

/-- The first place whose file is cited again is shown with the next one of this file. -/
theorem Repeating.shown_of_some {blocks : List DuplicateBlock} (h : Repeating blocks)
    {cited : List (DuplicateBlock × Occurrence)} (hsub : cited.Sublist (placesOf blocks))
    {c : DuplicateBlock × Occurrence} (hsome : firstShared? cited = some c) :
    ∃ p q, Shown cited p q := by
  obtain ⟨d, rest, hfile⟩ := exists_inFileOf_eq hsome
  have hmem {e : DuplicateBlock × Occurrence} (he : e ∈ c :: d :: rest) :
      e ∈ cited ∧ c.2.file = e.2.file := by
    rw [← hfile] at he
    obtain ⟨he, hsame⟩ := List.mem_filter.1 he
    exact ⟨he, eq_of_beq hsame⟩
  have hnodup : (inFileOf cited c).Nodup :=
    h.placesOf_nodup.sublist (List.filter_sublist.trans hsub)
  rw [hfile] at hnodup
  refine ⟨c, d, (hmem (by simp)).1, (hmem (by simp)).1, fun he => ?_, ?_, ?_,
    fun _ => ⟨hsome, (hmem (by simp)).2⟩⟩
  · exact (List.nodup_cons.1 hnodup).1 (he ▸ List.mem_cons_self)
  · rw [hsome, Option.elim_some, hfile]
    rfl
  · rw [← h.lone_iff hsub hfile, hsome]
    simp

/-- Items of one block have the same length, count and hash. -/
theorem metrics_itemOf {c d : DuplicateBlock × Occurrence} (h : c.1 = d.1) :
    (itemOf c).metrics = (itemOf d).metrics := by
  simp only [itemOf, Citation.item, DuplicateBlock.citation, h]

/-- The evidence of duplicated blocks cites the first of their places. -/
theorem duplicateIssue_evidence {cap : Number} {n : Int} (hcap : cap.toInt? = some n)
    {blocks : List DuplicateBlock} (h : Repeating blocks) {i : Issue}
    (hi : duplicateIssue cap blocks = .ok i) :
    i.evidence = ((placesOf blocks).take n.toNat).map itemOf := by
  have hsome : ∀ b ∈ blocks, b.occurrences ≠ [] := fun b hb =>
    List.ne_nil_of_length_pos (Nat.lt_of_lt_of_le Nat.zero_lt_two (h.twice b hb))
  rw [duplicateIssue_eq hcap hsome] at hi
  cases hi
  rw [Issue.ofCitations, placesOf, List.map_take, List.map_take, List.map_flatMap, List.map_flatMap]
  simp only [List.map_map]
  rfl

/-- An issue of duplicated blocks is that of the blocks that were found. -/
theorem duplicateIssue_of_signal {cap : Number} {a : Analysis} {is : List Issue}
    (h : aggregateIssues cap a = .ok is) {i : Issue} (hi : i ∈ is)
    (hsignal : i.signal = duplicateSignal) :
    a.signals.duplicateBlocks ≠ [] ∧ duplicateIssue cap a.signals.duplicateBlocks = .ok i := by
  rcases mem_aggregateIssues h hi with ⟨-, hi⟩ | hi | ⟨-, hi⟩ | rfl
  · obtain ⟨cited, -, hi⟩ := Outcome.bind_eq_ok.1 hi
    cases hi
    exact absurd hsignal (show longFunctionSignal ≠ duplicateSignal by decide)
  · exact hi
  · obtain ⟨cited, -, hi⟩ := Outcome.bind_eq_ok.1 hi
    cases hi
    exact absurd hsignal (show cycleSignal ≠ duplicateSignal by decide)
  · exact absurd hsignal (by decide)

/-- Where blocks are found there is an issue of them. -/
theorem exists_mem_duplicateSignal {cap : Number} {a : Analysis} {is : List Issue}
    (h : aggregateIssues cap a = .ok is) (hne : a.signals.duplicateBlocks ≠ []) :
    ∃ i ∈ is, i.signal = duplicateSignal := by
  obtain ⟨long, -, h⟩ := Outcome.bind_eq_ok.1 h
  obtain ⟨duplicate, hduplicate, h⟩ := Outcome.bind_eq_ok.1 h
  obtain ⟨cyclic, -, h⟩ := Outcome.bind_eq_ok.1 h
  cases h
  unfold issueUnlessEmpty at hduplicate
  rw [if_neg (by simpa using hne)] at hduplicate
  obtain ⟨i, hi, hduplicate⟩ := Outcome.bind_eq_ok.1 hduplicate
  cases hduplicate
  obtain ⟨cited, -, hi⟩ := Outcome.bind_eq_ok.1 hi
  cases hi
  exact ⟨_, List.mem_append_left _ (List.mem_append_left _ (List.mem_append_right _
    List.mem_cons_self)), rfl⟩

/-- **What is shown of duplicated blocks** are two cited places. They are places of one block unless
the first place whose file is cited again is the only cited one of its block in this file; then they
are this place and another one in its file. -/
theorem selected_pair {s : Settings} {fields : NamedValues} {n : Int} {cap : Number}
    (hthresholds : Thresholds.ofFields fields = .ok s.thresholds)
    (hcap : cap.toInt? = some n) (hn : 2 ≤ n)
    {read : Reader} {visit : Visitors} {rs : List FileRecord} {run : AnalysisRun}
    (hrun : analyze s.signalLimits read visit rs = .ok run) {is : List Issue}
    (his : aggregateIssues cap run.analysis = .ok is) {g : GuardedIssue} (hg : g.toIssue ∈ is)
    (hsignal : g.signal = duplicateSignal) :
    let blocks := run.analysis.signals.duplicateBlocks
    let cited := (placesOf blocks).take n.toNat
    g.evidence = cited.map itemOf ∧ (∀ c ∈ cited, c.1 ∈ blocks ∧ c.2 ∈ c.1.occurrences) ∧
    ∃ p ∈ cited, ∃ q ∈ cited, p ≠ q ∧ g.selected = [itemOf p, itemOf q] ∧
      (p.1 = q.1 → (itemOf p).metrics = (itemOf q).metrics) ∧
      (p.1 ≠ q.1 ↔ ∃ c, firstShared? cited = some c ∧ Lone cited c) ∧
      (p.1 ≠ q.1 → firstShared? cited = some p ∧ p.2.file = q.2.file) := by
  intro blocks cited
  have hrepeating : Repeating blocks :=
    analyze_repeating (Thresholds.enough_eq_false hthresholds) hrun
  obtain ⟨hne, hissue⟩ := duplicateIssue_of_signal his hg hsignal
  have hevidence : g.evidence = cited.map itemOf := duplicateIssue_evidence hcap hrepeating hissue
  have hsub : cited.Sublist (placesOf blocks) := List.take_sublist _ _
  obtain ⟨p, q, hshown⟩ : ∃ p q, Shown cited p q := by
    cases hfirst : firstShared? cited with
    | none => exact hrepeating.shown_of_none hne (by omega) hfirst
    | some c => exact hrepeating.shown_of_some hsub hfirst
  have hselected := GuardedIssue.selected_eq hsignal hevidence
  rw [hshown.eq] at hselected
  exact ⟨hevidence, fun c hc => mem_placesOf.1 (hsub.subset hc), p, hshown.left, q, hshown.right,
    hshown.ne, hselected, metrics_itemOf, hshown.crossed_iff, hshown.crossed⟩

/-- Two files with the same two blocks, in one of them the other way round. -/
def crossedReader : Reader :=
  (Host.reader {} "/").through
    [("a.py", "alpha = 1\nbeta = 2\ngamma = 3\ndelta = 4\n"),
     ("b.py", "gamma = 3\ndelta = 4\nalpha = 1\nbeta = 2\n")]

/-- The records of the two files. -/
def crossedRecords : List FileRecord := [.ofPath "a.py", .ofPath "b.py"]

/-- Settings for which two lines are enough for a block. -/
def crossedSettings : Settings := { thresholds := { minLines := 2 } }

theorem crossed_run : ∃ run,
    analyze crossedSettings.signalLimits crossedReader Syntax.visitors crossedRecords = .ok run ∧
    run.analysis.signals.duplicateBlocks.map (fun b => (b.length, b.occurrences)) =
      [(2, [⟨"a.py", 1, 2⟩, ⟨"b.py", 3, 4⟩]), (2, [⟨"a.py", 3, 4⟩, ⟨"b.py", 1, 2⟩])] := by
  have hsorted : sortRecords crossedRecords = crossedRecords := by
    simp [sortRecords, crossedRecords, FileRecord.ofPath, List.mergeSort]
  have hblocks : ((analyze crossedSettings.signalLimits crossedReader Syntax.visitors
      crossedRecords).toOption.map fun run =>
        run.analysis.signals.duplicateBlocks.map fun b => (b.length, b.occurrences)) =
      some [(2, [⟨"a.py", 1, 2⟩, ⟨"b.py", 3, 4⟩]), (2, [⟨"a.py", 3, 4⟩, ⟨"b.py", 1, 2⟩])] := by
    rw [analyze, indexAll, hsorted]
    decide +kernel
  obtain ⟨run, hrun, hblocks⟩ := Option.map_eq_some_iff.1 hblocks
  exact ⟨run, Outcome.eq_ok_of_toOption hrun, hblocks⟩

/-- Each of the two blocks has a place in the first file, and these two places are shown. -/
theorem crossed_shown : ∃ (run : AnalysisRun) (is : List Issue) (g : GuardedIssue)
    (b b' : DuplicateBlock),
    analyze crossedSettings.signalLimits crossedReader Syntax.visitors crossedRecords = .ok run ∧
    aggregateIssues (.int 5) run.analysis = .ok is ∧ g.toIssue ∈ is ∧ g.signal = duplicateSignal ∧
    run.analysis.signals.duplicateBlocks = [b, b'] ∧
    b.occurrences = [⟨"a.py", 1, 2⟩, ⟨"b.py", 3, 4⟩] ∧
    b'.occurrences = [⟨"a.py", 3, 4⟩, ⟨"b.py", 1, 2⟩] ∧
    g.selected = [itemOf (b, ⟨"a.py", 1, 2⟩), itemOf (b', ⟨"a.py", 3, 4⟩)] := by
  have hthresholds : Thresholds.ofFields [("duplicate_min_lines", .int 2)] =
      .ok crossedSettings.thresholds := rfl
  obtain ⟨run, hrun, hblocks⟩ := crossed_run
  obtain ⟨b, rest, heq, hb, hrest⟩ := List.map_eq_cons_iff.1 hblocks
  obtain ⟨b', rest', rfl, hb', hrest'⟩ := List.map_eq_cons_iff.1 hrest
  obtain rfl := List.map_eq_nil_iff.1 hrest'
  obtain ⟨hlength, hplaces⟩ := Prod.mk.inj hb
  obtain ⟨hlength', hplaces'⟩ := Prod.mk.inj hb'
  have hrepeating : Repeating run.analysis.signals.duplicateBlocks :=
    analyze_repeating (Thresholds.enough_eq_false hthresholds) hrun
  have hcap : (Number.int 5).toInt? = some 5 := rfl
  obtain ⟨is, his⟩ := exists_aggregateIssues hcap (by decide) fun b hb =>
    List.ne_nil_of_length_pos (Nat.lt_of_lt_of_le Nat.zero_lt_two (hrepeating.twice b hb))
  have hne : run.analysis.signals.duplicateBlocks ≠ [] := heq ▸ List.cons_ne_nil _ _
  obtain ⟨i, hi, hsignal⟩ := exists_mem_duplicateSignal his hne
  obtain ⟨-, hissue⟩ := duplicateIssue_of_signal his hi hsignal
  have hevidence := duplicateIssue_evidence hcap hrepeating hissue
  have hranked : placesOf [b, b'] =
      [(b, ⟨"a.py", 1, 2⟩), (b, ⟨"b.py", 3, 4⟩), (b', ⟨"a.py", 3, 4⟩), (b', ⟨"b.py", 1, 2⟩)] := by
    have hle : (blockOrder b.withHead b'.withHead).isLE = true := by
      simp only [blockOrder, DuplicateBlock.withHead, hlength, hlength', hplaces, hplaces']
      decide
    rw [placesOf, List.mergeSort_of_pairwise (by simpa using hle)]
    simp [DuplicateBlock.withHead, hplaces, hplaces']
  rw [heq, hranked] at hevidence
  let g : GuardedIssue := { i with complete := true, lack := none }
  refine ⟨run, is, g, b, b', hrun, his, hi, hsignal, heq, hplaces, hplaces', ?_⟩
  rw [GuardedIssue.selected_eq (g := g) hsignal hevidence]
  rfl

/-- The items are different places of one block. -/
def ShowOneBlock (blocks : List DuplicateBlock) (items : List EvidenceItem) : Prop :=
  ∃ b ∈ blocks, ∃ o ∈ b.occurrences, ∃ o' ∈ b.occurrences, o ≠ o' ∧
    items = [itemOf (b, o), itemOf (b, o')]

/-- An item says at which place it stands. -/
theorem place_eq_of_itemOf {c d : DuplicateBlock × Occurrence} (h : itemOf c = itemOf d) :
    c.2 = d.2 := by
  obtain ⟨b, file, first, last⟩ := c
  obtain ⟨b', file', first', last'⟩ := d
  obtain rfl : file = file' := Value.str.inj (congrArg EvidenceItem.file h)
  obtain rfl : first = first' := Value.int.inj (congrArg EvidenceItem.first h)
  obtain rfl : last = last' := Value.int.inj (congrArg EvidenceItem.last h)
  rfl

theorem crossed_not_showOneBlock {b b' : DuplicateBlock}
    (hb : b.occurrences = [⟨"a.py", 1, 2⟩, ⟨"b.py", 3, 4⟩])
    (hb' : b'.occurrences = [⟨"a.py", 3, 4⟩, ⟨"b.py", 1, 2⟩]) :
    ¬ ShowOneBlock [b, b'] [itemOf (b, ⟨"a.py", 1, 2⟩), itemOf (b', ⟨"a.py", 3, 4⟩)] := by
  rintro ⟨c, hc, o, ho, o', ho', -, hitems⟩
  obtain ⟨hfirst, hrest⟩ := List.cons.inj hitems
  obtain rfl := place_eq_of_itemOf hfirst
  obtain rfl := place_eq_of_itemOf (List.cons.inj hrest).1
  rcases List.mem_pair.1 hc with rfl | rfl
  · simp [hb] at ho'
  · simp [hb'] at ho

/-- The first place of the first file is lone, so the other place that is shown is of another
block. -/
theorem selected_pair_crossed :
    Thresholds.ofFields [("duplicate_min_lines", .int 2)] = .ok crossedSettings.thresholds ∧
    (Number.int 5).toInt? = some 5 ∧
    ∃ (run : AnalysisRun) (is : List Issue) (g : GuardedIssue),
      analyze crossedSettings.signalLimits crossedReader Syntax.visitors crossedRecords = .ok run ∧
      aggregateIssues (.int 5) run.analysis = .ok is ∧ g.toIssue ∈ is ∧
      g.signal = duplicateSignal ∧
      ∃ p q, p ≠ q ∧ g.selected = [itemOf p, itemOf q] ∧ p.1 ≠ q.1 ∧ p.2.file = q.2.file ∧
        Lone ((placesOf run.analysis.signals.duplicateBlocks).take 5) p := by
  have hthresholds : Thresholds.ofFields [("duplicate_min_lines", .int 2)] =
      .ok crossedSettings.thresholds := rfl
  have hcap : (Number.int 5).toInt? = some 5 := rfl
  obtain ⟨run, is, g, b, b', hrun, his, hg, hsignal, hblocks, hb, hb', hselected⟩ := crossed_shown
  obtain ⟨-, hcited, p, hp, q, hq, hne, hpair, -, hlone, hshared⟩ :=
    selected_pair hthresholds hcap (by decide) hrun his hg hsignal
  have hother : p.1 ≠ q.1 := by
    intro hsame
    obtain ⟨hmem, hplace⟩ := hcited p hp
    have hplace' := (hcited q hq).2
    rw [← hsame] at hplace'
    have hone : ShowOneBlock run.analysis.signals.duplicateBlocks g.selected := by
      refine ⟨p.1, hmem, p.2, hplace, q.2, hplace', fun he => hne (Prod.ext hsame he), ?_⟩
      rw [hpair, ← (Prod.ext hsame.symm rfl : q = (p.1, q.2))]
    rw [hblocks, hselected] at hone
    exact crossed_not_showOneBlock hb hb' hone
  obtain ⟨c, hfirst, hc⟩ := hlone.1 hother
  obtain ⟨hp, hfile⟩ := hshared hother
  obtain rfl := Option.some.inj (hfirst.symm.trans hp)
  exact ⟨hthresholds, hcap, run, is, g, hrun, his, hg, hsignal, c, q, hne, hpair, hother,
    hfile, hc⟩

/-- One place each of two blocks is shown. -/
theorem selected_crossed :
    Thresholds.ofFields [("duplicate_min_lines", .int 2)] = .ok crossedSettings.thresholds ∧
    ∃ (run : AnalysisRun) (is : List Issue) (g : GuardedIssue),
      analyze crossedSettings.signalLimits crossedReader Syntax.visitors crossedRecords = .ok run ∧
      aggregateIssues (.int 5) run.analysis = .ok is ∧ g.toIssue ∈ is ∧
      g.signal = duplicateSignal ∧
      ¬ ShowOneBlock run.analysis.signals.duplicateBlocks g.selected := by
  obtain ⟨run, is, g, b, b', hrun, his, hg, hsignal, hblocks, hb, hb', hselected⟩ := crossed_shown
  refine ⟨rfl, run, is, g, hrun, his, hg, hsignal, ?_⟩
  rw [hblocks, hselected]
  exact crossed_not_showOneBlock hb hb'

end EvidenceLock
