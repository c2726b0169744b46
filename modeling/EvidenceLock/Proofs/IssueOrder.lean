import EvidenceLock.Proofs.BlockCounts
import EvidenceLock.Proofs.DuplicateBlocks
import EvidenceLock.Proofs.Evidence
import EvidenceLock.Proofs.NumberedLines
import EvidenceLock.Proofs.Sorting

/-!
# The evidence does not depend on the order of the signals

Evidence is ranked by keys that may be the same for different signals. Functions with one key are
cited alike (`FunctionSpan.citation_eq`), and no two blocks that a search finds have one key
(`Found.eq_of_first`): the first place of a block is where its text stands, and with its length
it gives the text. So issues rest on what the signals are and not on their order
(`aggregateIssues_perm`).
-/

namespace EvidenceLock

/-! ## Keys of rank -/

theorem isLE_orThen {α : Type} [LinearOrder α] {a b : α} {o : Ordering} :
    (orThen (compare a b) o).isLE = true ↔ a < b ∨ a = b ∧ o.isLE = true := by
  rcases lt_trichotomy a b with h | rfl | h
  · rw [compare_lt_iff_lt.2 h]
    simp [orThen, h]
  · rw [compare_eq_iff_eq.2 rfl]
    simp [orThen]
  · rw [compare_gt_iff_gt.2 h]
    simp [orThen, h.not_gt, h.ne']

/-- Functions are ranked by their lengths, their files and their first lines. -/
def FunctionSpan.rankKey (s : FunctionSpan) : ℤ ×ₗ String ×ₗ ℤ :=
  toLex (-s.length, toLex (s.file, s.first))

theorem functionOrder_iff (s t : FunctionSpan) :
    (functionOrder s t).isLE = true ↔ s.rankKey ≤ t.rankKey := by
  rw [functionOrder, isLE_orThen, isLE_orThen, Std.isLE_compare, FunctionSpan.rankKey,
    FunctionSpan.rankKey, Prod.Lex.toLex_le_toLex, Prod.Lex.toLex_le_toLex, neg_lt_neg_iff, neg_inj,
    eq_comm]

/-- Functions with one key are cited alike. -/
theorem FunctionSpan.citation_eq {s t : FunctionSpan} (h : s.rankKey = t.rankKey) :
    s.citation = t.citation := by
  obtain ⟨hlength, hplace⟩ := Prod.ext_iff.1 (toLex.injective h)
  obtain ⟨hfile, hfirst⟩ := Prod.ext_iff.1 (toLex.injective hplace)
  dsimp only at hlength hfile hfirst
  have hlength : s.length = t.length := neg_inj.1 hlength
  have hlast : s.last = t.last := by
    unfold FunctionSpan.length at hlength
    omega
  rw [FunctionSpan.citation, FunctionSpan.citation, hlength, hfile, hfirst, hlast]

/-- Blocks are ranked by the numbers of their places, their lengths, and where their first places
start. -/
def blockKey (p : DuplicateBlock × Occurrence) : ℤ ×ₗ ℤ ×ₗ String ×ₗ ℤ :=
  toLex (-p.1.occurrences.length, toLex (-p.1.length, toLex (p.2.file, p.2.first)))

theorem blockOrder_iff (p q : DuplicateBlock × Occurrence) :
    (blockOrder p q).isLE = true ↔ blockKey p ≤ blockKey q := by
  rw [blockOrder, isLE_orThen, isLE_orThen, isLE_orThen, Std.isLE_compare, blockKey, blockKey,
    Prod.Lex.toLex_le_toLex, Prod.Lex.toLex_le_toLex, Prod.Lex.toLex_le_toLex, neg_lt_neg_iff,
    neg_lt_neg_iff, neg_inj, neg_inj, Int.ofNat_lt, Int.ofNat_inj]
  simp only [eq_comm]

theorem blockKey_eq_iff {p q : DuplicateBlock × Occurrence} :
    blockKey p = blockKey q ↔ p.1.occurrences.length = q.1.occurrences.length ∧
      p.1.length = q.1.length ∧ p.2.file = q.2.file ∧ p.2.first = q.2.first := by
  simp [blockKey]

/-! ## Blocks that a search finds -/

theorem head?_addNew {α : Type} [BEq α] {xs : List α} {x : α} (h : xs.head? = some x)
    (ys : List α) : (addNew xs ys).head? = some x := by
  obtain ⟨rest, rfl⟩ := List.head?_eq_some_iff.1 h
  obtain ⟨more, hmore⟩ := prefix_addNew (x :: rest) ys
  rw [← hmore, List.cons_append, List.head?_cons]

section
variable {files : List NormalizedFile} {limits : BlockLimits}

/-- The first place of a group is that of a position at which its text stands. -/
def Rooted (files : List NormalizedFile) (text : String) (length : Nat)
    (places : List Occurrence) : Prop :=
  ∃ base o, places.head? = some o ∧ occurrenceAt files length base = .ok o ∧
    text = blockText ((((linesAt files base.1).drop base.2).take length).map NumberedLine.text)

theorem extendGroup_rooted {base : Position} {others : List Position} {length : Nat} {text : String}
    {places : List Occurrence}
    (h : extendGroup files limits base others = .ok (length, text, places)) :
    Rooted files text length places := by
  obtain ⟨found, hfound, h⟩ := Outcome.bind_eq_ok.1 h
  cases h
  rw [List.mapM_cons] at hfound
  obtain ⟨o, ho, hfound⟩ := Outcome.bind_eq_ok.1 hfound
  obtain ⟨os, -, hfound⟩ := Outcome.bind_eq_ok.1 hfound
  cases hfound
  exact ⟨base, o, rfl, ho, rfl⟩

/-- Groups that were merged, each text once, with where it stands. -/
structure AllRooted (files : List NormalizedFile) (merged : Keyed String (Nat × List Occurrence)) :
    Prop where
  nodup : merged.keys.Nodup
  rooted : ∀ {text length places}, merged.find? text = some (length, places) →
    Rooted files text length places

/-- A group that is merged with another one keeps its first place. -/
theorem AllRooted.merge {merged : Keyed String (Nat × List Occurrence)}
    (h : AllRooted files merged) {text : String} {length : Nat} {places : List Occurrence}
    (hnew : Rooted files text length places) :
    AllRooted files (merged.alter text fun old =>
      match old with
      | some (n, known) => (n, addNew known places)
      | none => (length, addNew [] places)) := by
  refine ⟨Keyed.nodup_keys_alter h.nodup text _, fun {text' length' places'} hfind => ?_⟩
  rw [Keyed.find?_alter] at hfind
  split at hfind
  · rename_i htext
    obtain rfl := eq_of_beq htext
    cases hold : merged.find? text' with
    | some known =>
      rw [hold] at hfind
      cases hfind
      obtain ⟨base, o, hfirst, hplace, htext⟩ := h.rooted hold
      exact ⟨base, o, head?_addNew hfirst places, hplace, htext⟩
    | none =>
      rw [hold] at hfind
      cases hfind
      obtain ⟨base, o, hfirst, hplace, htext⟩ := hnew
      obtain ⟨rest, rfl⟩ := List.head?_eq_some_iff.1 hfirst
      exact ⟨base, o, @head?_addNew _ _ [o] o rfl rest, hplace, htext⟩
  · exact h.rooted hfind

theorem mergedGroups_rooted {merged : Keyed String (Nat × List Occurrence)}
    (h : mergedGroups files limits = .ok merged) : AllRooted files merged := by
  have hnone : AllRooted files [] := ⟨List.nodup_nil, nofun⟩
  exact mergedGroups_preserves hnone (fun hm hgroup => hm.merge (extendGroup_rooted hgroup)) h

/-- The lines of a file have different numbers. -/
theorem nodup_linesAt (hnumbers : ∀ f ∈ files, f.numbers.Nodup) (path : String) :
    ((linesAt files path).map NumberedLine.number).Nodup := by
  unfold linesAt
  cases hfound : files.reverse.find? fun f => f.path == path with
  | none => exact List.nodup_nil
  | some f => exact hnumbers f (List.mem_reverse.1 (List.mem_of_find?_eq_some hfound))

/-- Where the first places of two groups start on one line and the groups are as long, they have the
same text. -/
theorem Rooted.text_eq (hnumbers : ∀ f ∈ files, f.numbers.Nodup) {s t : String} {length : Nat}
    {places places' : List Occurrence} (hs : Rooted files s length places)
    (ht : Rooted files t length places') {o o' : Occurrence} (ho : places.head? = some o)
    (ho' : places'.head? = some o') (hfile : o.file = o'.file) (hfirst : o.first = o'.first) :
    s = t := by
  obtain ⟨base, _, hhead, hplace, rfl⟩ := hs
  obtain ⟨base', _, hhead', hplace', rfl⟩ := ht
  obtain rfl := Option.some.inj (ho.symm.trans hhead)
  obtain rfl := Option.some.inj (ho'.symm.trans hhead')
  obtain ⟨first, hline, hplace⟩ := Outcome.bind_eq_ok.1 hplace
  obtain ⟨last, -, hplace⟩ := Outcome.bind_eq_ok.1 hplace
  obtain ⟨first', hline', hplace'⟩ := Outcome.bind_eq_ok.1 hplace'
  obtain ⟨last', -, hplace'⟩ := Outcome.bind_eq_ok.1 hplace'
  cases hplace
  cases hplace'
  dsimp only at hfile hfirst
  obtain ⟨path, i⟩ := base
  obtain ⟨path', j⟩ := base'
  dsimp only at hfile
  subst hfile hfirst
  obtain ⟨l, hl, hnumber⟩ := numberAt_ok hline
  obtain ⟨m, hm, hnumber'⟩ := numberAt_ok hline'
  have hi : ((linesAt files path).map NumberedLine.number)[i]? = some first := by
    rw [List.getElem?_map, show (linesAt files path)[i]? = some l from hl, Option.map_some, hnumber]
  have hj : ((linesAt files path).map NumberedLine.number)[j]? = some first := by
    rw [List.getElem?_map, show (linesAt files path)[j]? = some m from hm, Option.map_some, hnumber']
  -- A number stands at one line only.
  have hij : i = j := (List.getElem?_inj (List.getElem?_eq_some_iff.1 hi).1
    (nodup_linesAt hnumbers path)).1 (hi.trans hj.symm)
  rw [hij]

/-- The block of a group that was merged. -/
theorem exists_group {candidates : List DuplicateBlock}
    (h : candidateBlocks files limits = .ok candidates) : ∃ merged, AllRooted files merged ∧
      ∀ b ∈ candidates, ∃ text length, merged.find? text = some (length, b.occurrences) ∧
        b.length = length ∧ b.hash = fingerprint text ∧
        b.flagged = (limits.flagged && length == limits.window) := by
  obtain ⟨merged, hmerged, h⟩ := Outcome.bind_eq_ok.1 h
  cases h
  have hrooted := mergedGroups_rooted hmerged
  refine ⟨merged, hrooted, fun b hb => ?_⟩
  obtain ⟨⟨text, length, places⟩, he, rfl⟩ := List.mem_map.1 (List.mem_of_mem_filter hb)
  exact ⟨text, length, Keyed.find?_of_mem hrooted.nodup he, rfl, rfl, rfl⟩

end

/-- The blocks are ones that a search finds among files in which no two lines have one number. -/
def Found (blocks : List DuplicateBlock) : Prop :=
  ∃ (files : List NormalizedFile) (limits : BlockLimits), (∀ f ∈ files, f.numbers.Nodup) ∧
    duplicateBlocks files limits = .ok blocks

theorem Found.occurrences_ne_nil {blocks : List DuplicateBlock} (h : Found blocks) :
    ∀ b ∈ blocks, b.occurrences ≠ [] := by
  obtain ⟨files, limits, -, hblocks⟩ := h
  obtain ⟨candidates, hcandidates, hblocks⟩ := Outcome.bind_eq_ok.1 hblocks
  cases hblocks
  obtain ⟨merged, hrooted, hgroup⟩ := exists_group hcandidates
  intro b hb hnil
  obtain ⟨text, length, hfind, -⟩ := hgroup b ((dropCovered_sublist candidates).subset hb)
  obtain ⟨base, o, hfirst, -⟩ := hrooted.rooted hfind
  rw [hnil] at hfirst
  cases hfirst

/-- **No two blocks are ranked alike**: blocks of one length whose first places start on one line
are the same. -/
theorem Found.eq_of_first {blocks : List DuplicateBlock} (h : Found blocks) {b c : DuplicateBlock}
    (hb : b ∈ blocks) (hc : c ∈ blocks) (hlength : b.length = c.length) {o o' : Occurrence}
    (ho : b.occurrences.head? = some o) (ho' : c.occurrences.head? = some o')
    (hfile : o.file = o'.file) (hfirst : o.first = o'.first) : b = c := by
  obtain ⟨files, limits, hnumbers, hblocks⟩ := h
  obtain ⟨candidates, hcandidates, hblocks⟩ := Outcome.bind_eq_ok.1 hblocks
  cases hblocks
  obtain ⟨merged, hrooted, hgroup⟩ := exists_group hcandidates
  have hsub := (dropCovered_sublist candidates).subset
  obtain ⟨s, m, hs, hbl, hbh, hbf⟩ := hgroup b (hsub hb)
  obtain ⟨t, n, ht, hcl, hch, hcf⟩ := hgroup c (hsub hc)
  obtain rfl : m = n := Int.ofNat_inj.1 (hbl.symm.trans (hlength.trans hcl))
  obtain rfl := (hrooted.rooted hs).text_eq hnumbers (hrooted.rooted ht) ho ho' hfile hfirst
  have hplaces : b.occurrences = c.occurrences :=
    (Prod.ext_iff.1 (Option.some.inj (hs.symm.trans ht))).2
  cases b
  cases c
  rw [DuplicateBlock.mk.injEq]
  exact ⟨hbh.trans hch.symm, hlength, hplaces, hbf.trans hcf.symm⟩

/-- An analysis reports the blocks of a search among files whose lines have different numbers. -/
theorem analyze_searches {limits : SignalLimits} {read : Reader} {visit : Visitors}
    {rs : List FileRecord} {run : AnalysisRun} (h : analyze limits read visit rs = .ok run) :
    run.analysis.signals.duplicateBlocks = [] ∨
    ∃ files blockLimits, limits.blocks = .ok blockLimits ∧ (∀ f ∈ files, f.numbers.Nodup) ∧
      duplicateBlocks files blockLimits = .ok run.analysis.signals.duplicateBlocks := by
  obtain ⟨index, hindex, h⟩ := Outcome.bind_eq_ok.1 h
  obtain ⟨candidates, hcandidates, h⟩ := Outcome.bind_eq_ok.1 h
  cases h
  unfold candidatesWithin at hcandidates
  split at hcandidates
  · cases hcandidates
    exact .inl rfl
  · obtain ⟨blockLimits, hlimits, hcandidates⟩ := Outcome.bind_eq_ok.1 hcandidates
    refine .inr ⟨_, blockLimits, hlimits, fun f hf => ?_, duplicateBlocks_eq hcandidates⟩
    obtain ⟨g, hg, rfl⟩ := List.mem_map.1 hf
    obtain ⟨r, -, hr⟩ := indexAll_ok hindex g hg
    obtain ⟨language, content, -, -, -, hlines⟩ := indexFile_ok hr
    rw [NormalizedFile.numbers, hlines]
    exact (normalizedLines_pairwise language content).imp Int.ne_of_lt

/-- The blocks that an analysis reports are found. -/
theorem analyze_found {limits : SignalLimits} {read : Reader} {visit : Visitors}
    {rs : List FileRecord} {run : AnalysisRun} (h : analyze limits read visit rs = .ok run) :
    Found run.analysis.signals.duplicateBlocks := by
  rcases analyze_searches h with hnone | ⟨files, blockLimits, -, hnumbers, hblocks⟩
  · rw [hnone]
    exact ⟨[], .of 1 1 1, nofun, rfl⟩
  · exact ⟨files, blockLimits, hnumbers, hblocks⟩

/-! ## Issues -/

section
variable {cap : Number} {n : Int} (hcap : cap.toInt? = some n) (hn : 1 ≤ n)

include hcap hn

theorem longFunctionIssue_perm {spans spans' : List FunctionSpan} (hperm : spans.Perm spans') :
    longFunctionIssue cap spans = longFunctionIssue cap spans' := by
  rw [longFunctionIssue_eq hcap hn, longFunctionIssue_eq hcap hn,
    map_mergeSort_perm functionOrder_iff hperm fun _ _ _ _ => FunctionSpan.citation_eq]

omit hn in
theorem duplicateIssue_perm {blocks blocks' : List DuplicateBlock} (hfound : Found blocks)
    (hperm : blocks'.Perm blocks) : duplicateIssue cap blocks' = duplicateIssue cap blocks := by
  have hsome := hfound.occurrences_ne_nil
  have huntied : ∀ b ∈ blocks, ∀ c ∈ blocks, blockKey b.withHead = blockKey c.withHead → b = c := by
    intro b hb c hc hkey
    obtain ⟨-, hlength, hfile, hfirst⟩ := blockKey_eq_iff.1 hkey
    obtain ⟨o, os, ho⟩ := List.exists_cons_of_ne_nil (hsome b hb)
    obtain ⟨o', os', ho'⟩ := List.exists_cons_of_ne_nil (hsome c hc)
    simp only [DuplicateBlock.withHead, ho, ho', List.headD_cons] at hfile hfirst
    exact hfound.eq_of_first hb hc hlength (by rw [ho]; rfl) (by rw [ho']; rfl) hfile hfirst
  have hsorted := mergeSort_perm_eq blockOrder_iff (hperm.map DuplicateBlock.withHead)
    fun p hp q hq hkey => by
      obtain ⟨b, hb, rfl⟩ := List.mem_map.1 hp
      obtain ⟨c, hc, rfl⟩ := List.mem_map.1 hq
      rw [huntied b (hperm.mem_iff.1 hb) c (hperm.mem_iff.1 hc) hkey]
  rw [duplicateIssue_eq hcap fun b hb => hsome b (hperm.mem_iff.1 hb), duplicateIssue_eq hcap hsome,
    hsorted]

end

/-! ## The issues of an analysis -/

theorem issueUnlessEmpty_perm {α : Type} {xs ys : List α} {make : List α → Outcome Issue}
    (hperm : xs.Perm ys) (h : make xs = make ys) :
    issueUnlessEmpty xs make = issueUnlessEmpty ys make := by
  rw [issueUnlessEmpty, issueUnlessEmpty, hperm.isEmpty_eq, h]

theorem exists_issueUnlessEmpty {α : Type} {xs : List α} {make : List α → Outcome Issue}
    (h : ∃ i, make xs = .ok i) : ∃ is, issueUnlessEmpty xs make = .ok is := by
  obtain ⟨i, hi⟩ := h
  unfold issueUnlessEmpty
  split
  · exact ⟨[], rfl⟩
  · exact ⟨[i], by rw [hi, Outcome.ok_bind]⟩

/-- The analysis with its functions and blocks in another order. -/
def Analysis.reordered (a : Analysis) (spans : List FunctionSpan) (blocks : List DuplicateBlock) :
    Analysis :=
  { a with signals := { a.signals with longFunctions := spans, duplicateBlocks := blocks } }

/-- The issue cites the functions that rank first, and leaves out others. -/
def Issue.CitesFirst (i : Issue) (spans : List FunctionSpan) : Prop :=
  ∃ cited left : List FunctionSpan, i.evidence = cited.map (fun s => s.citation.item) ∧
    (cited ++ left).Perm spans ∧ ∀ s ∈ cited, ∀ t ∈ left, ¬ t.rankKey < s.rankKey

theorem Issue.length_evidence_le {n : Int} (hn : 1 ≤ n) (cs : List Citation)
    (category signal confidence : String) :
    ((Issue.ofCitations category signal confidence (cs.take n.toNat)).evidence.length : Int) ≤ n := by
  rw [Issue.ofCitations, List.length_map, List.length_take]
  omega

section
variable {cap : Number} {n : Int} (hcap : cap.toInt? = some n) (hn : 1 ≤ n)

include hcap hn

theorem longFunctionIssue_citesFirst {spans : List FunctionSpan} {i : Issue}
    (h : longFunctionIssue cap spans = .ok i) : i.CitesFirst spans := by
  rw [longFunctionIssue_eq hcap hn] at h
  cases h
  let ranked := spans.mergeSort fun s t => (functionOrder s t).isLE
  refine ⟨ranked.take n.toNat, ranked.drop n.toNat, ?_, ?_, fun s hs t ht => ?_⟩
  · rw [Issue.ofCitations, ← List.map_take, List.map_map]
    rfl
  · rw [List.take_append_drop]
    exact List.mergeSort_perm _ _
  · exact not_lt_of_mem_drop functionOrder_iff hs ht

theorem exists_aggregateIssues {a : Analysis}
    (h : ∀ b ∈ a.signals.duplicateBlocks, b.occurrences ≠ []) :
    ∃ is, aggregateIssues cap a = .ok is := by
  obtain ⟨long, hlong⟩ := exists_issueUnlessEmpty
    ⟨_, longFunctionIssue_eq hcap hn a.signals.longFunctions⟩
  obtain ⟨duplicate, hduplicate⟩ := exists_issueUnlessEmpty ⟨_, duplicateIssue_eq hcap h⟩
  obtain ⟨cyclic, hcyclic⟩ := exists_issueUnlessEmpty ⟨_, cycleIssue_eq hcap hn a.signals.cycles⟩
  rw [aggregateIssues, hlong, Outcome.ok_bind, hduplicate, Outcome.ok_bind, hcyclic,
    Outcome.ok_bind]
  exact ⟨_, rfl⟩

theorem aggregateIssues_reordered {a : Analysis} {spans : List FunctionSpan}
    {blocks : List DuplicateBlock} (hspans : spans.Perm a.signals.longFunctions)
    (hblocks : blocks.Perm a.signals.duplicateBlocks)
    (hfound : blocks = a.signals.duplicateBlocks ∨ Found a.signals.duplicateBlocks) :
    aggregateIssues cap (a.reordered spans blocks) = aggregateIssues cap a := by
  have hduplicate : duplicateIssue cap blocks = duplicateIssue cap a.signals.duplicateBlocks := by
    rcases hfound with rfl | hfound
    · rfl
    · exact duplicateIssue_perm hcap hfound hblocks
  have hlong := issueUnlessEmpty_perm hspans (longFunctionIssue_perm hcap hn hspans)
  have hduplicate := issueUnlessEmpty_perm hblocks hduplicate
  unfold aggregateIssues Analysis.reordered
  dsimp only
  rw [hlong, hduplicate]
  rfl

theorem length_evidence_le {a : Analysis} {is : List Issue} (h : aggregateIssues cap a = .ok is) :
    ∀ i ∈ is, (i.evidence.length : Int) ≤ n := by
  intro i hi
  rcases mem_aggregateIssues h hi with ⟨-, hi⟩ | ⟨-, hi⟩ | ⟨-, hi⟩ | rfl
  · rw [longFunctionIssue_eq hcap hn] at hi
    cases hi
    exact Issue.length_evidence_le hn _ _ _ _
  · obtain ⟨cs, hcs, hi⟩ := Outcome.bind_eq_ok.1 hi
    obtain ⟨pairs, -, hcs⟩ := Outcome.bind_eq_ok.1 hcs
    dsimp only at hcs
    rw [takeBelow_of_toInt? hcap] at hcs
    cases hcs
    cases hi
    exact Issue.length_evidence_le hn _ _ _ _
  · rw [cycleIssue_eq hcap hn] at hi
    cases hi
    exact Issue.length_evidence_le hn _ _ _ _
  · exact Int.le_trans (Int.natCast_nonneg 0) (Int.le_trans (by decide) hn)

theorem citesFirst_of_signal {a : Analysis} {is : List Issue} (h : aggregateIssues cap a = .ok is) :
    ∀ i ∈ is, i.signal = longFunctionSignal → i.CitesFirst a.signals.longFunctions := by
  intro i hi hsignal
  rcases mem_aggregateIssues h hi with ⟨-, hi⟩ | ⟨-, hi⟩ | ⟨-, hi⟩ | rfl
  · exact longFunctionIssue_citesFirst hcap hn hi
  · obtain ⟨cs, -, hi⟩ := Outcome.bind_eq_ok.1 hi
    cases hi
    exact absurd hsignal (show duplicateSignal ≠ longFunctionSignal by decide)
  · obtain ⟨cs, -, hi⟩ := Outcome.bind_eq_ok.1 hi
    cases hi
    exact absurd hsignal (show cycleSignal ≠ longFunctionSignal by decide)
  · exact absurd hsignal (by decide)

/-- **Issues do not depend on the order of the signals.** Let the cap be a whole number from 1 on.
Functions in another order give the same outcome. Where the blocks of an analysis are found by a
search, there are issues, and functions and blocks in any order give the same ones; and so they are
in each analysis of files. Any analysis whose blocks have places gives issues, and whenever it does,
none of them has more evidence than the cap, and no long function that is left out ranks before one
that is cited. -/
theorem aggregateIssues_perm (a : Analysis) :
    (∀ spans : List FunctionSpan, spans.Perm a.signals.longFunctions →
      aggregateIssues cap (a.reordered spans a.signals.duplicateBlocks) = aggregateIssues cap a) ∧
    (Found a.signals.duplicateBlocks → ∃ is, aggregateIssues cap a = .ok is ∧
      ∀ (spans : List FunctionSpan) (blocks : List DuplicateBlock),
        spans.Perm a.signals.longFunctions → blocks.Perm a.signals.duplicateBlocks →
        aggregateIssues cap (a.reordered spans blocks) = .ok is) ∧
    (∀ limits read visit rs run, analyze limits read visit rs = .ok run → run.analysis = a →
      Found a.signals.duplicateBlocks) ∧
    ((∀ b ∈ a.signals.duplicateBlocks, b.occurrences ≠ []) →
      ∃ is, aggregateIssues cap a = .ok is) ∧
    ∀ is, aggregateIssues cap a = .ok is →
      (∀ i ∈ is, (i.evidence.length : Int) ≤ n) ∧
      ∀ i ∈ is, i.signal = longFunctionSignal → i.CitesFirst a.signals.longFunctions := by
  refine ⟨fun spans hspans => ?_, fun hfound => ?_, ?_, exists_aggregateIssues hcap hn,
    fun is his => ⟨length_evidence_le hcap hn his, citesFirst_of_signal hcap hn his⟩⟩
  · exact aggregateIssues_reordered hcap hn hspans (.refl _) (.inl rfl)
  · obtain ⟨is, his⟩ := exists_aggregateIssues hcap hn hfound.occurrences_ne_nil
    refine ⟨is, his, fun spans blocks hspans hblocks => ?_⟩
    rw [aggregateIssues_reordered hcap hn hspans hblocks (.inr hfound), his]
  · rintro limits read visit rs run hrun rfl
    exact analyze_found hrun

end

/-- One file with two lines that both come twice. -/
def pairedFiles : List NormalizedFile :=
  [{ path := "a.py", lines := [⟨1, "x"⟩, ⟨2, "y"⟩, ⟨3, "u"⟩, ⟨5, "x"⟩, ⟨6, "v"⟩, ⟨7, "y"⟩] }]

/-- Three functions, two of which stand at one place. -/
def pairedSpans : List FunctionSpan :=
  [{ file := "a.py", name := "f", first := 1, last := 4 },
   { file := "a.py", name := "g", first := 1, last := 4 },
   { file := "a.py", name := "h", first := 5, last := 7 }]

/-- The other way round, the functions and the two blocks give the same issues. -/
theorem aggregateIssues_perm_paired : ∃ blocks is,
    duplicateBlocks pairedFiles (.of 1 1 2) = .ok blocks ∧ blocks.length = 2 ∧
    let a : Analysis := { signals := { longFunctions := pairedSpans, duplicateBlocks := blocks } }
    aggregateIssues (.int 3) a = .ok is ∧
    aggregateIssues (.int 3) (a.reordered pairedSpans.reverse blocks.reverse) = .ok is ∧
    ∀ i ∈ is, i.evidence.length ≤ 3 := by
  have hlength : (duplicateBlocks pairedFiles (.of 1 1 2)).toOption.map List.length = some 2 := by
    decide +kernel
  obtain ⟨blocks, hblocks, htwo⟩ := Option.map_eq_some_iff.1 hlength
  have hblocks := Outcome.eq_ok_of_toOption hblocks
  let a : Analysis := { signals := { longFunctions := pairedSpans, duplicateBlocks := blocks } }
  obtain ⟨-, hfound, -, -, hcited⟩ :=
    aggregateIssues_perm (rfl : (Number.int 3).toInt? = some 3) (by decide) a
  obtain ⟨is, his, hsame⟩ := hfound ⟨pairedFiles, .of 1 1 2, by decide, hblocks⟩
  refine ⟨blocks, is, hblocks, htwo, his, ?_, fun i hi => Int.ofNat_le.1 ((hcited is his).1 i hi)⟩
  exact hsame _ _ (List.reverse_perm _) (List.reverse_perm _)

end EvidenceLock
