import EvidenceLock.Issue.Aggregate
import EvidenceLock.Issue.Guard
import EvidenceLock.Proofs.Duplicate
import EvidenceLock.Signal.Analysis
import EvidenceLock.Source.Discovery

/-!
# Analyses and the issues they give

Over discovered files an analysis has no faults, whatever their texts are and wherever they can be
read or fail to be (`analyze_faultless`), and the issues that are made of it rest on citations
(`Issue.Rests`).
-/

namespace EvidenceLock

/-! ## Discovered files -/

/-- The records have the extensions of their paths, as those of discovered files do. -/
def Discovered (rs : List FileRecord) : Prop := ∀ r ∈ rs, r = .ofPath r.path

theorem mem_sortRecords {rs : List FileRecord} {r : FileRecord} :
    r ∈ sortRecords rs ↔ r ∈ rs := List.mem_mergeSort

/-- The search for files gives discovered records. -/
theorem Entry.discover_discovered {e : Entry} {s : Selection} {d : Discovery}
    (h : e.discover s = .ok d) : Discovered d.records := by
  unfold Entry.discover at h
  dsimp only at h
  split at h
  · cases h
    intro r hr
    cases hr
  · obtain ⟨limit, -, h⟩ := Outcome.bind_eq_ok.1 h
    cases h
    intro r hr
    obtain ⟨c, -, rfl⟩ := List.mem_map.1 (mem_sortRecords.1 hr)
    rfl

/-! ## Indexing -/

section
variable {read : Reader} {visit : Visitors} {rs : List FileRecord} {index : List Indexing}

theorem indexFile_faultless (hvisit : ∀ l content path, Faultless (visit l content path))
    {r : FileRecord} (hread : Faultless (read r.path)) : Faultless (indexFile read visit r) := by
  unfold indexFile
  split
  · exact .fail _
  · refine hread.bind fun content _ => ?_
    exact (hvisit _ content r.path).bind fun _ _ => .ok _

theorem indexOrSkip_faultless (hvisit : ∀ l content path, Faultless (visit l content path))
    {r : FileRecord} (hread : Faultless (read r.path)) :
    Faultless (indexOrSkip read visit r) := by
  unfold indexOrSkip
  split
  · exact .ok _
  · rename_i he
    split
    · exact .ok _
    · exact (indexFile_faultless hvisit hread).error he

/-- An indexed file has the path of its record, and the lines that its text has in the language of
the record. -/
theorem indexFile_ok {r : FileRecord} {f : IndexedFile} (h : indexFile read visit r = .ok f) :
    ∃ language content, Language.ofExtension? r.extension = some language ∧
      read r.path = .ok content ∧ f.normalized.path = r.path ∧
      f.normalized.lines = normalizedLines language content := by
  unfold indexFile at h
  split at h
  · cases h
  · rename_i language hlanguage
    obtain ⟨content, hread, h⟩ := Outcome.bind_eq_ok.1 h
    obtain ⟨facts, -, h⟩ := Outcome.bind_eq_ok.1 h
    cases h
    exact ⟨language, content, hlanguage, hread, rfl, rfl⟩

theorem indexAll_ok (h : indexAll read visit rs = .ok index) :
    ∀ f ∈ index.filterMap Indexing.file?, ∃ r ∈ rs, indexFile read visit r = .ok f := by
  intro f hf
  obtain ⟨x, hx, hfile⟩ := List.mem_filterMap.1 hf
  obtain ⟨r, hr, hrx⟩ := Outcome.exists_of_mapM_eq_ok h x hx
  refine ⟨r, mem_sortRecords.1 hr, ?_⟩
  unfold indexOrSkip at hrx
  split at hrx
  · rename_i g hg
    cases hrx
    cases hfile
    exact hg
  · split at hrx
    · cases hrx
      cases hfile
    · cases hrx

/-- Discovered files with one path have the same lines. -/
theorem consistent_of_discovered (hrs : Discovered rs) (h : indexAll read visit rs = .ok index) :
    Consistent ((index.filterMap Indexing.file?).map IndexedFile.normalized) := by
  intro x hx y hy hpath
  obtain ⟨f, hf, rfl⟩ := List.mem_map.1 hx
  obtain ⟨g, hg, rfl⟩ := List.mem_map.1 hy
  obtain ⟨r, hr, hrf⟩ := indexAll_ok h f hf
  obtain ⟨q, hq, hqg⟩ := indexAll_ok h g hg
  obtain ⟨language, content, hlanguage, hcontent, hfpath, hflines⟩ := indexFile_ok hrf
  obtain ⟨language', content', hlanguage', hcontent', hgpath, hglines⟩ := indexFile_ok hqg
  -- A discovered record is determined by its path, and with it the text and the language.
  have hsame : r = q := by
    rw [hrs r hr, hrs q hq, ← hfpath, ← hgpath, hpath]
  subst hsame
  rw [hlanguage] at hlanguage'
  rw [hcontent] at hcontent'
  cases hlanguage'
  cases hcontent'
  rw [hflines, hglines]

end

/-! ## Analyses -/

section
variable {limits : SignalLimits} {read : Reader} {visit : Visitors} {rs : List FileRecord}

/-- **An analysis of discovered files has no faults.** -/
theorem analyze_faultless (hrs : Discovered rs) (hread : ∀ r ∈ rs, Faultless (read r.path))
    (hvisit : ∀ l content path, Faultless (visit l content path)) {b : BlockLimits}
    (hblocks : limits.blocks = .ok b) (hpos : 0 < b.window) :
    Faultless (analyze limits read visit rs) := by
  have hindexed : Faultless (indexAll read visit rs) := FaultsIn.mapM fun r hr =>
    indexOrSkip_faultless hvisit (hread r (mem_sortRecords.1 hr))
  refine hindexed.bind fun index hindex => ?_
  have hc := consistent_of_discovered hrs hindex
  refine FaultsIn.bind ?_ fun _ _ => .ok _
  unfold candidatesWithin
  split
  · exact .ok _
  · rw [hblocks]
    exact candidateBlocks_faultless hc hpos

/-- Where an analysis reports a long function or a duplicated block, the limits of blocks were at
hand. -/
theorem analyze_blocks {run : AnalysisRun} (h : analyze limits read visit rs = .ok run)
    (hsome : run.analysis.signals.longFunctions ≠ [] ∨
      run.analysis.signals.duplicateBlocks ≠ []) : ∃ b, limits.blocks = .ok b := by
  obtain ⟨index, -, h⟩ := Outcome.bind_eq_ok.1 h
  obtain ⟨candidates, hcandidates, h⟩ := Outcome.bind_eq_ok.1 h
  unfold candidatesWithin at hcandidates
  split at hcandidates
  · rename_i hempty
    cases hcandidates
    cases h
    have hfiles : index.filterMap Indexing.file? = [] := by simpa using hempty
    simp [hfiles, longFunctions, dropCovered] at hsome
  · obtain ⟨b, hb, -⟩ := Outcome.bind_eq_ok.1 hcandidates
    exact ⟨b, hb⟩

end

/-! ## Issues -/

/-- An issue rests on citations, and on what the analysis reports for its signal. -/
structure Issue.Rests (i : Issue) (a : Analysis) : Prop where
  cited : ∃ cs : List Citation, i.evidence = cs.map Citation.item
  long : i.signal = longFunctionSignal → a.signals.longFunctions ≠ []
  duplicate : i.signal = duplicateSignal → a.signals.duplicateBlocks ≠ []

theorem Issue.rests_ofCitations {category signal confidence : String} {cs : List Citation}
    {a : Analysis} (hlong : signal = longFunctionSignal → a.signals.longFunctions ≠ [])
    (hduplicate : signal = duplicateSignal → a.signals.duplicateBlocks ≠ []) :
    (Issue.ofCitations category signal confidence cs).Rests a :=
  ⟨⟨cs, rfl⟩, hlong, hduplicate⟩

theorem issueUnlessEmpty_ok {α : Type} {xs : List α} {make : List α → Outcome Issue}
    {is : List Issue} (h : issueUnlessEmpty xs make = .ok is) :
    ∀ i ∈ is, xs ≠ [] ∧ make xs = .ok i := by
  unfold issueUnlessEmpty at h
  split at h
  · cases h
    intro i hi
    cases hi
  · rename_i hne
    obtain ⟨j, hj, h⟩ := Outcome.bind_eq_ok.1 h
    cases h
    intro i hi
    rw [List.mem_singleton.1 hi]
    exact ⟨fun hnil => hne (by rw [hnil]; rfl), hj⟩

theorem cutAt_of_toInt? {α : Type} {cap : Number} {n : Int} (hcap : cap.toInt? = some n)
    (hn : 0 ≤ n) (xs : List α) : cutAt cap xs = .ok (xs.take n.toNat) := by
  rw [cutAt, hcap]
  dsimp only
  rw [takeFirst, if_pos hn]

/-- An issue is that of a kind of signal, of which there is one, or that of missing tests. -/
theorem mem_aggregateIssues {cap : Number} {a : Analysis} {is : List Issue}
    (h : aggregateIssues cap a = .ok is) {i : Issue} (hi : i ∈ is) :
    (a.signals.longFunctions ≠ [] ∧ longFunctionIssue cap a.signals.longFunctions = .ok i) ∨
    (a.signals.duplicateBlocks ≠ [] ∧ duplicateIssue cap a.signals.duplicateBlocks = .ok i) ∨
    (a.signals.cycles ≠ [] ∧ cycleIssue cap a.signals.cycles = .ok i) ∨
    i = missingTestsIssue := by
  obtain ⟨long, hlong, h⟩ := Outcome.bind_eq_ok.1 h
  obtain ⟨duplicate, hduplicate, h⟩ := Outcome.bind_eq_ok.1 h
  obtain ⟨cyclic, hcyclic, h⟩ := Outcome.bind_eq_ok.1 h
  cases h
  rcases List.mem_append.1 hi with hi | hi
  · rcases List.mem_append.1 hi with hi | hi
    · rcases List.mem_append.1 hi with hi | hi
      · exact .inl (issueUnlessEmpty_ok hlong i hi)
      · exact .inr (.inl (issueUnlessEmpty_ok hduplicate i hi))
    · exact .inr (.inr (.inl (issueUnlessEmpty_ok hcyclic i hi)))
  · split at hi
    · cases hi
    · exact .inr (.inr (.inr (List.mem_singleton.1 hi)))

/-- The issues of an analysis rest on it. -/
theorem aggregateIssues_rests {cap : Number} {a : Analysis} {is : List Issue}
    (h : aggregateIssues cap a = .ok is) : ∀ i ∈ is, i.Rests a := by
  intro i hi
  rcases mem_aggregateIssues h hi with ⟨hne, hi⟩ | ⟨hne, hi⟩ | ⟨-, hi⟩ | rfl
  · obtain ⟨cited, -, hi⟩ := Outcome.bind_eq_ok.1 hi
    cases hi
    exact Issue.rests_ofCitations (fun _ => hne) fun hs => absurd hs (by decide)
  · obtain ⟨cited, -, hi⟩ := Outcome.bind_eq_ok.1 hi
    cases hi
    exact Issue.rests_ofCitations (fun hs => absurd hs (by decide)) fun _ => hne
  · obtain ⟨cited, -, hi⟩ := Outcome.bind_eq_ok.1 hi
    cases hi
    exact Issue.rests_ofCitations (fun hs => absurd hs (by decide)) fun hs =>
      absurd hs (by decide)
  · exact Issue.rests_ofCitations (fun hs => absurd hs (by decide)) fun hs =>
      absurd hs (by decide)

theorem guardIssues_ok {is : List Issue} {gs : List GuardedIssue} (h : guardIssues is = .ok gs) :
    ∀ g ∈ gs, g.toIssue ∈ is := by
  intro g hg
  obtain ⟨i, hi, hig⟩ := Outcome.exists_of_mapM_eq_ok h g hg
  obtain ⟨lack, -, hig⟩ := Outcome.bind_eq_ok.1 hig
  cases hig
  exact hi

end EvidenceLock
