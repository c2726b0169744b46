import EvidenceLock.Proofs.Accepted
import EvidenceLock.Proofs.Citations
import EvidenceLock.Proofs.Snippet
import EvidenceLock.Proofs.Verified
import EvidenceLock.Run

/-!
# The evidence of an analysis

Whatever an analysis cites survives the guard. Each kind of signal gives an issue with at least one
and at most so many citations as the cap says (`aggregateIssues_cites`), and the guard finds an
issue complete whose citations can all be used (`Issue.Cites.judged`). So every issue but that of
missing tests is complete and cites lines that can be shown (`issues_complete`).
-/

namespace EvidenceLock

open EvidenceLock.Text

/-- The issue rests on citations with a property, of which there is one and not more than `cap`. -/
def Issue.Cites (i : Issue) (cap : Int) (P : Citation → Prop) : Prop :=
  ∃ cs : List Citation, i.evidence = cs.map Citation.item ∧ 1 ≤ cs.length ∧ cs.length ≤ cap ∧
    ∀ c ∈ cs, P c

/-- The citation names lines of a file that an analysis has indexed and not skipped, and they can be
shown. -/
structure Citation.Shows (c : Citation) (read : Reader) (rs : List FileRecord)
    (run : AnalysisRun) : Prop where
  indexed : ∃ f ∈ run.files, f.record ∈ rs ∧ f.record.path = c.file
  kept : c.file ∉ run.analysis.skipped
  lines : ∃ content, read c.file = .ok content ∧ 1 ≤ c.first ∧ c.first ≤ c.last ∧
    c.last ≤ (linesOf content).length ∧ (c.snippet content).text ≠ ""

/-! ## Snippets -/

theorem shownLine?_empty (n : Nat) : shownLine? "" n = none := by
  have hrow : Diff.after? (lineLabel n ++ bar).toList [] = none := by
    rw [Diff.after?, if_neg]
    intro hprefix
    have hnil := List.prefix_nil.1 (List.isPrefixOf_iff_prefix.1 hprefix)
    simp [bar] at hnil
  have hlines : "".toList.splitOn '\n' = [[]] := rfl
  rw [shownLine?, hlines, List.findSome?_cons, hrow]
  rfl

/-- A snippet of lines of a text is not empty. -/
theorem numberedSnippet_ne_empty {content : String} {first last : Int}
    (h : IsRange content first last) : numberedSnippet content first last ≠ "" := by
  obtain ⟨hpositive, hordered, hinside⟩ := h
  obtain ⟨m, rfl⟩ := Int.eq_ofNat_of_zero_le (show 0 ≤ first by omega)
  obtain ⟨n, rfl⟩ := Int.eq_ofNat_of_zero_le (show 0 ≤ last by omega)
  intro hempty
  -- The snippet shows its first line, and an empty text shows none.
  have hshown := @shownLine?_numberedSnippet content m n (by omega) (by omega) m (Nat.le_refl m)
    (by omega)
  rw [hempty, shownLine?_empty, List.getElem?_eq_getElem (by omega)] at hshown
  cases hshown

/-! ## One issue for each kind of signal -/

theorem takeBelow_of_toInt? {α : Type} {cap : Number} {n : Int} (hcap : cap.toInt? = some n)
    (xs : List α) : takeBelow cap xs = xs.take n.toNat := by
  -- Numbered from `k` on, the elements with a number below the cap are the first `n - k`.
  have hbelow (k : Nat) :
      ((xs.zipIdx k).takeWhile fun entry => !(cap.le (.int entry.2))).map Prod.fst =
        xs.take (n.toNat - k) := by
    induction xs generalizing k with
    | nil => simp
    | cons x xs ih =>
      have hle : cap.le (.int k) = decide (n ≤ k) := Number.le_of_toInt? hcap rfl
      rw [List.zipIdx_cons]
      by_cases hk : n ≤ k
      · have hzero : n.toNat - k = 0 := by omega
        rw [List.takeWhile_cons_of_neg (by simp [hle, hk]), hzero, List.take_zero, List.map_nil]
      · have hsucc : n.toNat - k = n.toNat - (k + 1) + 1 := by omega
        rw [List.takeWhile_cons_of_pos (by simp [hle, hk]), List.map_cons, ih, hsucc,
          List.take_succ_cons]
  exact hbelow 0

/-- A block with the first of its places, if it has one. -/
def DuplicateBlock.withHead (b : DuplicateBlock) : DuplicateBlock × Occurrence :=
  (b, b.occurrences.headD default)

theorem mapM_withFirst {blocks : List DuplicateBlock} (hsome : ∀ b ∈ blocks, b.occurrences ≠ []) :
    blocks.mapM DuplicateBlock.withFirst = .ok (blocks.map DuplicateBlock.withHead) :=
  Outcome.mapM_eq_ok fun b hb => by
    obtain ⟨o, os, hos⟩ := List.exists_cons_of_ne_nil (hsome b hb)
    rw [DuplicateBlock.withFirst, DuplicateBlock.withHead, hos, List.headD_cons]

section
variable {P : Citation → Prop} {cap : Number} {n : Int}

theorem Issue.cites_take (hn : 1 ≤ n) {cs : List Citation} (hne : cs ≠ []) (hP : ∀ c ∈ cs, P c)
    (category signal confidence : String) :
    (Issue.ofCitations category signal confidence (cs.take n.toNat)).Cites n P := by
  have hpos := List.length_pos_iff.2 hne
  refine ⟨cs.take n.toNat, rfl, ?_, ?_, fun c hc => hP c (List.mem_of_mem_take hc)⟩
  · rw [List.length_take]
    omega
  · rw [List.length_take]
    omega

variable (hcap : cap.toInt? = some n) (hn : 1 ≤ n)

include hcap hn

theorem longFunctionIssue_eq (spans : List FunctionSpan) :
    longFunctionIssue cap spans = .ok (.ofCitations "maintainability" longFunctionSignal "medium"
      (((spans.mergeSort fun s t => (functionOrder s t).isLE).map FunctionSpan.citation).take
        n.toNat)) := by
  unfold longFunctionIssue
  dsimp only
  rw [cutAt_of_toInt? hcap (by omega), Outcome.ok_bind, List.map_take]

omit hn in
theorem duplicateIssue_eq {blocks : List DuplicateBlock}
    (hsome : ∀ b ∈ blocks, b.occurrences ≠ []) :
    duplicateIssue cap blocks = .ok (.ofCitations "duplication" duplicateSignal "high"
      ((((blocks.map DuplicateBlock.withHead).mergeSort fun p q => (blockOrder p q).isLE).flatMap
        fun p => p.1.occurrences.map p.1.citation).take n.toNat)) := by
  unfold duplicateIssue duplicateCitations
  dsimp only
  rw [mapM_withFirst hsome, Outcome.ok_bind, takeBelow_of_toInt? hcap, Outcome.ok_bind]

theorem cycleIssue_eq (cycles : List Cycle) :
    cycleIssue cap cycles = .ok (.ofCitations "architecture" cycleSignal "high"
      ((cycles.flatMap Cycle.citations).take n.toNat)) := by
  rw [cycleIssue, cutAt_of_toInt? hcap (by omega), Outcome.ok_bind]

theorem longFunctionIssue_cites {spans : List FunctionSpan} (hne : spans ≠ [])
    (hP : ∀ s ∈ spans, P s.citation) : ∃ i, longFunctionIssue cap spans = .ok i ∧
      i.signal = longFunctionSignal ∧ i.Cites n P := by
  rw [longFunctionIssue_eq hcap hn]
  refine ⟨_, rfl, rfl, Issue.cites_take hn ?_ (fun c hc => ?_) _ _ _⟩
  · obtain ⟨s, hs⟩ := List.exists_mem_of_ne_nil spans hne
    exact List.ne_nil_of_mem (List.mem_map_of_mem (List.mem_mergeSort.2 hs))
  · obtain ⟨s, hs, rfl⟩ := List.mem_map.1 hc
    exact hP s (List.mem_mergeSort.1 hs)

theorem duplicateIssue_cites {blocks : List DuplicateBlock} (hne : blocks ≠ [])
    (hsome : ∀ b ∈ blocks, b.occurrences ≠ [])
    (hP : ∀ b ∈ blocks, ∀ o ∈ b.occurrences, P (b.citation o)) :
    ∃ i, duplicateIssue cap blocks = .ok i ∧ i.signal = duplicateSignal ∧ i.Cites n P := by
  rw [duplicateIssue_eq hcap hsome]
  refine ⟨_, rfl, rfl, Issue.cites_take hn ?_ (fun c hc => ?_) _ _ _⟩
  · obtain ⟨b, hb⟩ := List.exists_mem_of_ne_nil blocks hne
    obtain ⟨o, ho⟩ := List.exists_mem_of_ne_nil b.occurrences (hsome b hb)
    have hb : b.withHead ∈ blocks.map DuplicateBlock.withHead := List.mem_map_of_mem hb
    exact List.ne_nil_of_mem
      (List.mem_flatMap.2 ⟨b.withHead, List.mem_mergeSort.2 hb, List.mem_map_of_mem ho⟩)
  · obtain ⟨p, hp, hc⟩ := List.mem_flatMap.1 hc
    obtain ⟨b, hb, rfl⟩ := List.mem_map.1 (List.mem_mergeSort.1 hp)
    obtain ⟨o, ho, rfl⟩ := List.mem_map.1 hc
    exact hP b hb o ho

theorem cycleIssue_cites {cycles : List Cycle} (hne : cycles ≠ [])
    (hP : ∀ c ∈ cycles, ∀ d ∈ c.citations, P d) :
    ∃ i, cycleIssue cap cycles = .ok i ∧ i.signal = cycleSignal ∧ i.Cites n P := by
  rw [cycleIssue_eq hcap hn]
  refine ⟨_, rfl, rfl, Issue.cites_take hn ?_ (fun d hd => ?_) _ _ _⟩
  · obtain ⟨c, cs, rfl⟩ := List.exists_cons_of_ne_nil hne
    exact List.cons_ne_nil _ _
  · obtain ⟨c, hc, hd⟩ := List.mem_flatMap.1 hd
    exact hP c hc d hd

omit hcap hn in
theorem issueUnlessEmpty_cites {α : Type} {xs : List α} {make : List α → Outcome Issue}
    {signal : String} (hsignal : signal ≠ testSignal)
    (h : xs ≠ [] → ∃ i, make xs = .ok i ∧ i.signal = signal ∧ i.Cites n P) :
    ∃ is, issueUnlessEmpty xs make = .ok is ∧ ∀ i ∈ is, i.signal ≠ testSignal ∧ i.Cites n P := by
  unfold issueUnlessEmpty
  split
  · exact ⟨[], rfl, fun i hi => by cases hi⟩
  · rename_i hne
    obtain ⟨i, hi, hsame, hcites⟩ := h fun hnil => hne (by rw [hnil]; rfl)
    rw [hi, Outcome.ok_bind]
    refine ⟨[i], rfl, fun j hj => ?_⟩
    rw [List.mem_singleton.1 hj, hsame]
    exact ⟨hsignal, hcites⟩

/-- **The issues of an analysis** rest on its citations, but for that of missing tests. -/
theorem aggregateIssues_cites {a : Analysis} (h : a.signals.Cite P) :
    ∃ is, aggregateIssues cap a =
        .ok (is ++ if a.signals.hasTests then [] else [missingTestsIssue]) ∧
      ∀ i ∈ is, i.signal ≠ testSignal ∧ i.Cites n P := by
  obtain ⟨long, hlong, hlongCites⟩ := issueUnlessEmpty_cites (by decide) fun hne =>
    longFunctionIssue_cites hcap hn hne h.functions
  obtain ⟨duplicate, hduplicate, hduplicateCites⟩ := issueUnlessEmpty_cites (by decide) fun hne =>
    duplicateIssue_cites hcap hn hne h.occurrences h.blocks
  obtain ⟨cyclic, hcyclic, hcyclicCites⟩ := issueUnlessEmpty_cites (by decide) fun hne =>
    cycleIssue_cites hcap hn hne h.cycles
  refine ⟨long ++ duplicate ++ cyclic, ?_, fun i hi => ?_⟩
  · rw [aggregateIssues, hlong, Outcome.ok_bind, hduplicate, Outcome.ok_bind, hcyclic,
      Outcome.ok_bind]
  · rcases List.mem_append.1 hi with hi | hi
    · rcases List.mem_append.1 hi with hi | hi
      · exact hlongCites i hi
      · exact hduplicateCites i hi
    · exact hcyclicCites i hi

end

/-! ## The guard -/

section
variable {read : Reader} {files : List IndexedFile}

/-- A citation that can be used is complete evidence, and the guard gets past it. -/
theorem Citation.Usable.complete {c : Citation} (h : c.Usable read files)
    (hink : (Value.str c.file).Inked) : c.item.Complete ∧ ¬ c.item.Overflows := by
  obtain ⟨f, -, -, content, -, hrange⟩ := h.located
  have hlines : 0 < c.first ∧ 0 < c.last ∧ c.first ≤ c.last := by
    have := hrange.positive
    have := hrange.ordered
    omega
  constructor
  · exact ⟨hink, ⟨c.first, c.last, rfl, rfl, hlines⟩, h.measured, fun m hm => (h.metrics m hm).1⟩
  · rintro ⟨-, -, m, hm, -, hlarge⟩
    exact (h.metrics m hm.mem).2 hlarge

/-- **An issue whose citations can be used** is complete, and the guard says so. -/
theorem Issue.Cites.judged {i : Issue} {n : Int} (h : i.Cites n (Citation.Usable read files))
    (hink : ∀ f ∈ files, (Value.str f.record.path).Inked) : ¬ i.Overflows ∧ i.Complete := by
  obtain ⟨cs, hcs, hlen, -, husable⟩ := h
  have hitems : ∀ e ∈ i.evidence, e.Complete ∧ ¬ e.Overflows := by
    intro e he
    rw [hcs] at he
    obtain ⟨c, hc, rfl⟩ := List.mem_map.1 he
    obtain ⟨f, hf, hfile, -⟩ := (husable c hc).located
    exact (husable c hc).complete (hfile ▸ hink f hf)
  refine ⟨?_, ?_, fun e he => (hitems e he).1⟩
  · rintro ⟨e, he, hover⟩
    exact (hitems e he.mem).2 hover
  · rw [hcs]
    exact List.ne_nil_of_length_pos (by rw [List.length_map]; exact hlen)

/-- The issue of missing tests is looked at, and it is not complete. -/
theorem missingTestsIssue_judged :
    ¬ missingTestsIssue.Overflows ∧ ¬ missingTestsIssue.Complete := by
  refine ⟨?_, fun h => h.1 rfl⟩
  rintro ⟨e, he, -⟩
  cases he

/-- **The guard keeps every issue**: complete ones as such, and that of missing tests, if it is
there, as one that is not. -/
theorem guardIssues_complete {is : List Issue}
    (h : ∀ i ∈ is, i.signal ≠ testSignal ∧ ¬ i.Overflows ∧ i.Complete) (hasTests : Bool) :
    ∃ gs, guardIssues (is ++ if hasTests then [] else [missingTestsIssue]) = .ok gs ∧
      (∀ g ∈ gs, g.signal ≠ testSignal → g.toIssue ∈ is ∧ g.complete = true) ∧
      ((∃ g ∈ gs, g.signal = testSignal) ↔ hasTests = false) ∧
      ∀ g ∈ gs, g.signal = testSignal → g.complete = false := by
  obtain ⟨hsmall, hlacking⟩ := missingTestsIssue_judged
  have hmissing : ∀ i ∈ if hasTests then [] else [missingTestsIssue],
      i = missingTestsIssue ∧ hasTests = false := by
    intro i hi
    cases hasTests with
    | false => exact ⟨List.mem_singleton.1 hi, rfl⟩
    | true => cases hi
  obtain ⟨gs, hgs, hjudged⟩ := Outcome.exists_mapM_eq_ok fun i hi =>
    Issue.guarded_of_not_overflows <| by
      rcases List.mem_append.1 hi with hi | hi
      · exact (h i hi).2.1
      · rw [(hmissing i hi).1]
        exact hsmall
  -- An issue is the one of missing tests exactly when its signal says so.
  have hcases : ∀ g ∈ gs, (g.signal ≠ testSignal ∧ g.toIssue ∈ is ∧ g.complete = true) ∨
      (g.signal = testSignal ∧ hasTests = false ∧ g.complete = false) := by
    intro g hg
    obtain ⟨i, hi, hig⟩ := exists_left_of_forall₂ hjudged hg
    rcases List.mem_append.1 hi with hi | hi
    · obtain ⟨hsignal, -, hcomplete⟩ := h i hi
      rw [hig.same]
      exact .inl ⟨hsignal, hi, hig.complete_iff.2 hcomplete⟩
    · obtain ⟨rfl, htests⟩ := hmissing i hi
      refine .inr ⟨?_, htests, Bool.eq_false_iff.2 (mt hig.complete_iff.1 hlacking)⟩
      rw [hig.same]
      rfl
  refine ⟨gs, hgs, fun g hg hsignal => ?_, ?_, fun g hg hsignal => ?_⟩
  · rcases hcases g hg with h | h
    · exact h.2
    · exact absurd h.1 hsignal
  · constructor
    · rintro ⟨g, hg, hsignal⟩
      rcases hcases g hg with h | h
      · exact absurd hsignal h.1
      · exact h.2.1
    · rintro rfl
      have hmem : missingTestsIssue ∈ is ++ if false then [] else [missingTestsIssue] :=
        List.mem_append_right _ (List.mem_singleton.2 rfl)
      obtain ⟨g, hg, hig⟩ := exists_left_of_forall₂ hjudged.flip hmem
      exact ⟨g, hg, by rw [hig.same]; rfl⟩
  · rcases hcases g hg with h | h
    · exact absurd hsignal h.1
    · exact h.2.2

end

/-! ## Everything that is reported -/

/-- A citation that can be used names lines that can be shown, of a file that was not skipped. -/
theorem Citation.Usable.shows {read : Reader} {visit : Visitors} {rs : List FileRecord}
    {run : AnalysisRun} (hvisit : visit.Sound) (hindex : indexAll read visit rs = .ok run.index)
    (hskipped : run.analysis.skipped = skippedOf run.index)
    (hpaths : (rs.map FileRecord.path).Nodup) {c : Citation} (h : c.Usable read run.files) :
    c.Shows read rs run := by
  obtain ⟨f, hf, hfile, content, hread, hrange⟩ := h.located
  refine ⟨⟨f, hf, (exists_holds hvisit hindex hf).1, hfile⟩, ?_, content, hread, hrange.positive,
    hrange.ordered, hrange.inside, numberedSnippet_ne_empty hrange⟩
  have hnodup := (indexAll_perm hindex).nodup_iff.2 hpaths
  rw [hskipped, ← hfile]
  exact List.disjoint_of_nodup_append hnodup (List.mem_map_of_mem hf)

theorem hasTests_eq_false_iff {signals : Signals} {rs : List FileRecord}
    (h : signals.testFiles = testPaths (rs.map FileRecord.path)) :
    signals.hasTests = false ↔ ∀ r ∈ rs, isTestPath r.path = false := by
  rw [Signals.hasTests, h, Bool.not_eq_false', List.isEmpty_iff, List.eq_nil_iff_forall_not_mem]
  simp only [testPaths, List.mem_mergeSort, List.mem_filter, List.mem_map, not_and,
    Bool.not_eq_true]
  constructor
  · intro hnone r hr
    exact hnone r.path ⟨r, hr, rfl⟩
  · rintro hnone path ⟨r, hr, rfl⟩
    exact hnone r hr

/-- **Everything that is reported survives the guard.** Let the settings be accepted ones in whole
numbers, the paths of the records different and not blank, and let the extractors keep to the lines
of a text. Then the analysis of a folder through an overlay answers, unless it has to read a path
with a null character. Whenever it answers it gives issues, every one of which is complete and cites
lines that can be shown, but for the issue of missing tests: that one is there when no record is a
test, and is not complete.

The records are assumed to have fewer lines together than the least integer that is too large for a
double, since the guard could not look at such a count. What a machine can hold has far fewer
(`linesRead_lt_intLimit`). -/
theorem issues_complete (h : Host) (root : String) (overlay : Overlay) {visit : Visitors}
    {rs : List FileRecord} {s : Settings} {cap minLines maxLines minOccurrences : Int}
    (hvisit : visit.Sound) (hpaths : (rs.map FileRecord.path).Nodup)
    (hink : ∀ r ∈ rs, hasInk r.path = true)
    (hsettings : s.Whole cap minLines maxLines minOccurrences)
    (hsize : linesRead ((h.reader root).through overlay) rs < Decimal.intLimit) :
    let read := (h.reader root).through overlay
    ((∃ run, analyze s.signalLimits read visit rs = .ok run) ↔
      ∀ r ∈ rs, ¬ Garbled root overlay r) ∧
    ∀ run, analyze s.signalLimits read visit rs = .ok run →
      ∃ gs, run.analysis.issues s.maxEvidence = .ok gs ∧
        (∀ g ∈ gs, g.signal ≠ testSignal → g.complete = true ∧
          g.toIssue.Cites cap fun c => c.Shows read rs run) ∧
        ((∃ g ∈ gs, g.signal = testSignal) ↔ ∀ r ∈ rs, isTestPath r.path = false) ∧
        ∀ g ∈ gs, g.signal = testSignal → g.complete = false := by
  intro read
  obtain ⟨hmin, hmax, hocc⟩ := hsettings.limits_le
  have hblocks : s.signalLimits.blocks = _ := hsettings.blockLimits
  have hanswers : ∀ index, indexAll read visit rs = .ok index →
      ∃ run, analyze s.signalLimits read visit rs = .ok run ∧ run.index = index ∧
        run.analysis.skipped = skippedOf index ∧
        run.analysis.signals.testFiles = testPaths (rs.map FileRecord.path) ∧
        run.analysis.signals.Cite (Citation.Usable read run.files) := by
    intro index hindex
    obtain ⟨run, hrun, hrest⟩ := analyzeIndexed_usable hvisit hindex hpaths hsize hblocks
      (by omega) (by omega) (by omega) (rs.map FileRecord.path)
    exact ⟨run, by rw [analyze, hindex, Outcome.ok_bind, hrun], hrest⟩
  refine ⟨⟨fun ⟨run, hrun⟩ r hr hgarbled => ?_, fun hclean => ?_⟩, fun run hrun => ?_⟩
  · rw [analyze, indexAll_of_garbled hvisit.skips h ⟨r, hr, hgarbled⟩] at hrun
    cases hrun
  · obtain ⟨index, hindex⟩ := exists_indexAll_of_not_garbled hvisit.skips h hclean
    obtain ⟨run, hrun, -⟩ := hanswers index hindex
    exact ⟨run, hrun⟩
  · obtain ⟨index, hindex, -⟩ := Outcome.bind_eq_ok.1 hrun
    obtain ⟨run', hrun', rfl, hskipped, htests, hcite⟩ := hanswers index hindex
    rw [hrun] at hrun'
    cases hrun'
    obtain ⟨is, his, hcites⟩ := aggregateIssues_cites hsettings.cap hsettings.one_le_cap hcite
    have hinked : ∀ f ∈ run.files, (Value.str f.record.path).Inked := fun f hf =>
      Value.isInk_iff.1 (hink f.record (exists_holds hvisit hindex hf).1)
    obtain ⟨gs, hgs, hcomplete, hmissing, hlacking⟩ := guardIssues_complete
      (fun i hi => ⟨(hcites i hi).1, (hcites i hi).2.judged hinked⟩) run.analysis.signals.hasTests
    refine ⟨gs, ?_, fun g hg hsignal => ?_, ?_, hlacking⟩
    · rw [Analysis.issues, his, Outcome.ok_bind, hgs]
    · obtain ⟨hi, hcomplete⟩ := hcomplete g hg hsignal
      obtain ⟨cs, hcs, hone, hcap, husable⟩ := (hcites _ hi).2
      exact ⟨hcomplete, cs, hcs, hone, hcap, fun c hc =>
        (husable c hc).shows hvisit hindex hskipped hpaths⟩
    · rw [hmissing, hasTests_eq_false_iff htests]

/-- Settings for which a function is long from three lines on. -/
def shortSettings : Settings := { maxFileSize := 5, thresholds := { longFunction := 3 } }

/-- The structure of the short module; no other text can be parsed. -/
def shortVisitors : Visitors := fun language content path =>
  if language = .python ∧ content = shortModule ∧ path = "a.py" then
    Syntax.visitors language content path
  else fail (.parsing path language.name "not the short module")

/-- The short module, read through an overlay of an empty folder. -/
def shortOverlay : Reader := (Host.reader {} "/").through [("a.py", shortModule)]

theorem shortVisitors_sound : shortVisitors.Sound := by
  constructor
  · intro l content path facts h
    unfold shortVisitors at h
    split at h
    · rename_i hshort
      obtain ⟨rfl, rfl, rfl⟩ := hshort
      have hfacts : Syntax.factsOf .python shortModule "a.py" =
          { functions := [{ file := "a.py", name := "f", first := 1, last := 3 }] } := by
        decide +kernel
      rw [Syntax.visitors, hfacts] at h
      cases h
      refine ⟨fun s hs => ?_, fun ref href => by cases href⟩
      rw [List.mem_singleton.1 hs]
      exact ⟨rfl, by decide, by decide, by decide +kernel⟩
    · cases h
  · intro l content path e h
    unfold shortVisitors at h
    split at h
    · cases h
    · cases h
      rfl

theorem shortSettings_whole : shortSettings.Whole 5 10 50 2 where
  thresholds := ⟨[("long_function_threshold", .int 3)], rfl⟩
  accepted := ⟨[("max_file_size_mb", .int 5)], rfl⟩
  cap := rfl
  minLines := rfl
  maxLines := rfl
  minOccurrences := rfl

/-- The long function of the short module is cited, and that it has no tests is not complete. -/
theorem issues_complete_short : ∃ run gs,
    analyze shortSettings.signalLimits shortOverlay shortVisitors shortRecords = .ok run ∧
    run.analysis.issues shortSettings.maxEvidence = .ok gs ∧
    gs.map (fun g => (g.signal, g.complete)) = [(longFunctionSignal, true), (testSignal, false)] ∧
    ∀ g ∈ gs, g.signal = longFunctionSignal →
      g.toIssue.Cites 5 fun c => c.Shows shortOverlay shortRecords run := by
  have hsize : linesRead shortOverlay shortRecords < Decimal.intLimit :=
    linesRead_lt_intLimit (by decide) (by decide +kernel)
  have hverdicts : ((analyze shortSettings.signalLimits shortOverlay shortVisitors
      shortRecords).toOption.bind fun run =>
        (run.analysis.issues shortSettings.maxEvidence).toOption.map fun gs =>
          gs.map fun g => (g.signal, g.complete)) =
        some [(longFunctionSignal, true), (testSignal, false)] := by decide +kernel
  obtain ⟨hanswers, hissues⟩ := issues_complete {} "/" [("a.py", shortModule)]
    shortVisitors_sound (by decide : (shortRecords.map FileRecord.path).Nodup) (by decide)
    shortSettings_whole hsize
  have hclean : ∀ r ∈ shortRecords, ¬ Garbled "/" [("a.py", shortModule)] r := by
    intro r hr hgarbled
    have hnone := hgarbled.overlay
    rw [List.mem_singleton.1 hr] at hnone
    cases hnone
  obtain ⟨run, hrun⟩ := hanswers.2 hclean
  obtain ⟨gs, hgs, hcited, -⟩ := hissues run hrun
  refine ⟨run, gs, hrun, hgs, ?_, fun g hg hsignal => (hcited g hg ?_).2⟩
  · rw [show analyze _ shortOverlay _ _ = .ok run from hrun] at hverdicts
    simpa [Except.toOption, hgs] using hverdicts
  · rw [hsignal]
    decide

end EvidenceLock
