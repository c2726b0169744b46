import EvidenceLock.Issue.Aggregate
import EvidenceLock.Proofs.DuplicateBlocks
import EvidenceLock.Proofs.Guard
import EvidenceLock.Proofs.Indexed

/-!
# What an analysis cites

Each long function, each place of a duplicated block and each side of a cycle gives a citation. All
of them lie on lines of indexed files and carry measurements that the guard can look at
(`Citation.Usable`), as long as fewer lines are read than `Decimal.intLimit`: nothing that is
counted is larger than the number of these lines (`analyzeIndexed_usable`).
-/

namespace EvidenceLock

open EvidenceLock.Text

/-- A measurement that the guard looks at and finds sound. -/
def EvidenceMetric.Usable (m : EvidenceMetric) : Prop := m.Sound ∧ ¬ m.value.TooLarge

/-- The citation names lines of an indexed file, and has measurements that can be used. -/
structure Citation.Usable (read : Reader) (files : List IndexedFile) (c : Citation) : Prop where
  located : Located read files c.file c.first c.last
  measured : c.metrics ≠ []
  metrics : ∀ m ∈ c.metrics, m.Usable

/-- All citations that the signals give have a property, and every block gives one. -/
structure Signals.Cite (s : Signals) (P : Citation → Prop) : Prop where
  functions : ∀ f ∈ s.longFunctions, P f.citation
  occurrences : ∀ b ∈ s.duplicateBlocks, b.occurrences ≠ []
  blocks : ∀ b ∈ s.duplicateBlocks, ∀ o ∈ b.occurrences, P (b.citation o)
  cycles : ∀ c ∈ s.cycles, ∀ d ∈ c.citations, P d

/-! ## Measurements -/

theorem countMetric_usable {kind : String} {n : Int} (hkind : (Value.str kind).Inked) (hn : 0 ≤ n)
    (hlimit : n < Decimal.intLimit) : (countMetric kind n).Usable := by
  refine ⟨⟨hkind, .int hn⟩, ?_⟩
  rintro ⟨i, hi, hlarge⟩
  cases hi
  omega

theorem lt_intLimit {n : Nat} (h : n < 2 ^ 126) : n < Decimal.intLimit := by
  have hhalf : 2 ^ 126 ≤ 2 ^ 0 * Decimal.halfUnit := Decimal.two_pow_le (by decide)
  unfold Decimal.intLimit
  omega

/-- Lists and texts have few enough lines when they have fewer elements than a machine word can
count. -/
theorem linesRead_lt_intLimit {read : Reader} {rs : List FileRecord}
    (hrecords : rs.length < 2 ^ 63) (hlines : ∀ r ∈ rs, lineCount read r.path < 2 ^ 63) :
    linesRead read rs < Decimal.intLimit := by
  have hsum : linesRead read rs ≤ rs.length * (2 ^ 63 - 1) := by
    refine (List.sum_le_card_nsmul _ (2 ^ 63 - 1) fun n hn => ?_).trans (Nat.le_of_eq ?_)
    · obtain ⟨r, hr, rfl⟩ := List.mem_map.1 hn
      exact Nat.le_sub_one_of_lt (hlines r hr)
    · rw [List.length_map]
      rfl
  have hprod : rs.length * (2 ^ 63 - 1) ≤ 2 ^ 63 * (2 ^ 63 - 1) :=
    Nat.mul_le_mul_right _ (Nat.le_of_lt hrecords)
  exact lt_intLimit (by omega)

theorem loc_inked : (Value.str "loc").Inked := Value.isInk_iff.1 (by decide)

theorem count_inked : (Value.str "count").Inked := Value.isInk_iff.1 (by decide)

theorem hash_inked : (Value.str "hash").Inked := Value.isInk_iff.1 (by decide)

/-- A digest starts with a digit. -/
theorem fingerprint_inked (text : String) : (Value.str (fingerprint text)).Inked := by
  have hdigit : ∀ n < 16, isBlank (Nat.digitChar n) = false := by decide
  obtain ⟨n, hn, rest, hrest⟩ : ∃ n < 16, ∃ rest,
      (Digest.Sha1.hexDigest text).take 12 = Nat.digitChar n :: rest :=
    ⟨_, Nat.mod_lt _ (by decide), _, rfl⟩
  refine ⟨_, rfl, Nat.digitChar n, ?_, hdigit n hn⟩
  rw [fingerprint, String.toList_ofList, hrest]
  exact List.mem_cons_self

theorem hashMetric_usable (text : String) :
    ({ kind := .str "hash", value := .str (fingerprint text) } : EvidenceMetric).Usable := by
  refine ⟨⟨hash_inked, .text (fingerprint_inked text)⟩, ?_⟩
  rintro ⟨i, hi, -⟩
  cases hi

/-! ## Counting lines and positions -/

section
variable {files : List NormalizedFile} {text : List String}

/-- A text that stands in some file has no more lines than all files together. -/
theorem OccursAt.length_le {p : Position} (h : OccursAt files text p) :
    text.length ≤ (files.map fun f => f.lines.length).sum := by
  obtain ⟨f, hf, -, htext⟩ := h
  have hle := htext.length_le
  rw [List.length_drop, NormalizedFile.texts, List.length_map] at hle
  have hsum : f.lines.length ≤ (files.map fun f => f.lines.length).sum :=
    List.le_sum_of_mem (List.mem_map_of_mem hf)
  omega

/-- A text stands at no more positions than there are lines. -/
theorem OccursExactly.length_le {ps : List Position} (hne : text ≠ [])
    (h : OccursExactly files text ps) : ps.length ≤ (files.map fun f => f.lines.length).sum := by
  have hpos := List.length_pos_iff.2 hne
  -- The positions differ, and each of them is one of a line.
  have hsub : ps ⊆ files.flatMap fun f => (List.range f.lines.length).map fun i => (f.path, i) := by
    intro p hp
    obtain ⟨f, hf, hpath, htext⟩ := (h.mem p).1 hp
    have hle := htext.length_le
    rw [List.length_drop, NormalizedFile.texts, List.length_map] at hle
    exact List.mem_flatMap.2 ⟨f, hf, List.mem_map.2 ⟨p.2, List.mem_range.2 (by omega),
      Prod.ext hpath rfl⟩⟩
  have hle := h.nodup.length_le_of_subset hsub
  simpa only [List.length_flatMap, List.length_map, List.length_range] using hle

end

/-! ## The citations of each signal -/

section
variable {read : Reader} {visit : Visitors} {rs : List FileRecord} {index : List Indexing}
  (hvisit : visit.Sound) (h : indexAll read visit rs = .ok index)
  (hpaths : (rs.map FileRecord.path).Nodup) (hsize : linesRead read rs < Decimal.intLimit)

include hvisit h hsize

theorem function_usable {s : FunctionSpan}
    (hs : s ∈ (filesOf index).flatMap IndexedFile.functions) :
    s.citation.Usable read (filesOf index) := by
  have hlocated := located_of_mem_functions hvisit h hs
  have hle := length_le_linesRead hvisit h hlocated
  have hlength : s.length = s.last - s.first + 1 := rfl
  refine ⟨hlocated, List.cons_ne_nil _ _, fun m hm => ?_⟩
  rw [List.mem_singleton.1 hm]
  exact countMetric_usable loc_inked (Int.le_of_lt s.length_pos) (by omega)

include hpaths

theorem block_usable {minLines maxLines minOccurrences : Nat} (hmin : 0 < minLines)
    {text : List String} {b : DuplicateBlock}
    (htext : Repeated (normalizedOf index) minLines maxLines minOccurrences text)
    (hblock : IsBlockOf (normalizedOf index) minLines text b) (hflag : b.flagged = false) :
    ∀ o ∈ b.occurrences, (b.citation o).Usable read (filesOf index) := by
  intro o ho
  have hlines := normalized_lines_le hvisit h
  obtain ⟨p, hp, hplace⟩ := hblock.exists_position ho
  have hlength := (htext.whole p hp).length_le
  -- The windows that a block grew from stand where its places are.
  have hcount : b.occurrences.length ≤ linesRead read rs := by
    obtain ⟨ps, hps, hplaces⟩ := hblock.places
    have hne : text.take minLines ≠ [] := by
      rw [← List.length_pos_iff, List.length_take, Nat.min_eq_left htext.least]
      exact hmin
    have hle := hps.length_le hne
    rw [hplaces.length_eq] at hle
    omega
  refine ⟨?_, List.cons_ne_nil _ _, fun m hm => ?_⟩
  · exact located_of_placeOf hvisit h hpaths (Nat.lt_of_lt_of_le hmin htext.least) hplace
  · have hmetrics : m = countMetric "loc" b.length ∨
        m = countMetric "count" b.occurrences.length ∨
        m = { kind := .str "hash", value := .str b.hash } := by
      simpa [DuplicateBlock.citation, DuplicateBlock.shownLength, hflag, countMetric] using hm
    rcases hmetrics with rfl | rfl | rfl
    · rw [hblock.length]
      exact countMetric_usable loc_inked (Int.natCast_nonneg _) (by omega)
    · exact countMetric_usable count_inked (Int.natCast_nonneg _) (by omega)
    · rw [hblock.hash]
      exact hashMetric_usable _

/-- The search for duplicated blocks ends, and what it finds can be cited. -/
theorem candidatesWithin_usable {blocks : Outcome BlockLimits}
    {minLines maxLines minOccurrences : Nat}
    (hblocks : blocks = .ok (.of minLines maxLines minOccurrences)) (hmin : 1 ≤ minLines)
    (hmax : minLines ≤ maxLines) (hocc : 1 ≤ minOccurrences) :
    ∃ candidates, candidatesWithin (normalizedOf index) blocks = .ok candidates ∧
      ∀ b ∈ candidates, b.occurrences ≠ [] ∧ ∀ o ∈ b.occurrences,
        (b.citation o).Usable read (filesOf index) := by
  unfold candidatesWithin
  split
  · exact ⟨[], rfl, fun b hb => by cases hb⟩
  · rw [hblocks, Outcome.ok_bind]
    obtain ⟨found, hfound, hlists⟩ :=
      candidateBlocks_ok (corpus_of_indexAll hvisit h hpaths) hmin hmax hocc
    refine ⟨_, hfound, fun b hb => ?_⟩
    have hflag := candidateBlocks_flagged hfound rfl b hb
    obtain ⟨e, he, rfl⟩ := List.mem_map.1 hb
    have htext := (hlists.texts e.1).1 (List.mem_map_of_mem he)
    have hblock := hlists.blocks e he
    have hoften := Nat.lt_of_lt_of_le hocc (hblock.length_le htext)
    exact ⟨List.ne_nil_of_length_pos hoften,
      block_usable hvisit h hpaths hsize hmin htext hblock hflag⟩

omit hpaths hsize in
theorem cycle_usable {known : String → Bool} {c : Cycle}
    (hc : c ∈ (DependencyGraph.ofFiles (normalizedOf index) known).cycles) :
    ∀ d ∈ c.citations, d.Usable read (filesOf index) := by
  obtain ⟨hforth, hback⟩ := DependencyGraph.mem_cycles (DependencyGraph.keyedOnce_ofFiles _) hc
  have husable {file : String} {range : LineRange}
      (hlocated : Located read (filesOf index) file range.1 range.2) :
      Citation.Usable read (filesOf index)
        { file, first := range.1, last := range.2, metrics := [countMetric "count" 2] } := by
    refine ⟨hlocated, List.cons_ne_nil _ _, fun m hm => ?_⟩
    rw [List.mem_singleton.1 hm]
    have := @lt_intLimit 2 (by decide)
    exact countMetric_usable count_inked (by decide) (by omega)
  intro d hd
  have hsides : d = { file := c.source, first := c.forth.1, last := c.forth.2
                      metrics := [countMetric "count" 2] } ∨
      d = { file := c.target, first := c.back.1, last := c.back.2
            metrics := [countMetric "count" 2] } := by simpa [Cycle.citations] using hd
  rcases hsides with rfl | rfl
  · exact husable (located_of_mem_ranges hvisit h (List.mem_of_mem_head? hforth))
  · exact husable (located_of_mem_ranges hvisit h (List.mem_of_mem_head? hback))

/-- **An analysis answers**, and what it reports can be cited. -/
theorem analyzeIndexed_usable {limits : SignalLimits} {minLines maxLines minOccurrences : Nat}
    (hblocks : limits.blocks = .ok (.of minLines maxLines minOccurrences)) (hmin : 1 ≤ minLines)
    (hmax : minLines ≤ maxLines) (hocc : 1 ≤ minOccurrences) (paths : List String) :
    ∃ run, analyzeIndexed limits paths index = .ok run ∧ run.index = index ∧
      run.analysis.skipped = skippedOf index ∧
      run.analysis.signals.testFiles = testPaths paths ∧
      run.analysis.signals.Cite (Citation.Usable read run.files) := by
  obtain ⟨candidates, hok, husable⟩ :=
    candidatesWithin_usable hvisit h hpaths hsize hblocks hmin hmax hocc
  unfold analyzeIndexed
  dsimp only
  rw [hok, Outcome.ok_bind]
  -- The blocks that are reported are the candidates that no other one covers.
  refine ⟨_, rfl, rfl, rfl, rfl, ?_, fun b hb => ?_, fun b hb => ?_, fun c hc => ?_⟩
  · intro s hs
    exact function_usable hvisit h hsize (List.mem_of_mem_filter hs)
  · exact (husable b ((dropCovered_sublist candidates).subset hb)).1
  · exact (husable b ((dropCovered_sublist candidates).subset hb)).2
  · exact cycle_usable hvisit h hc

end

end EvidenceLock
