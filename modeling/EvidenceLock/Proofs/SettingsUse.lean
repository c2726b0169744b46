import EvidenceLock.Proofs.BlockCounts
import EvidenceLock.Proofs.Evidence
import EvidenceLock.Run

/-!
# What a run needs of its settings

Four settings are needed on the way from a folder to its issues: the names of folders to leave out,
the size limit once there is an eligible file, the least length of a duplicated block once a file is
indexed, and the cap of evidence once long functions or cycles are ranked. Each stage is a fault
exactly when the value that it needs cannot be used for this (`Value.Listable`, `Number.Sized`,
`Number.Whole`), and fails in no other way; only the search for files fails, where there is no
folder, and is a fault, where this cannot be told. The guard gets past everything that an analysis
reports (`exists_guardIssues`).
-/

namespace EvidenceLock

/-! ## Values that can be used -/

/-- Names are listed by a text, a table, or a list without lists and tables. -/
inductive Value.Listable : Value → Prop
  | text (s : String) : Listable (.str s)
  | table (fields : NamedValues) : Listable (.table fields)
  | list {items : List Value} (h : ∀ v ∈ items, Toml.isCompound v = false) : Listable (.list items)

namespace Number

/-- A flag or an integer. -/
def Whole (n : Number) : Prop := ∃ i, n.toInt? = some i

/-- A size that is whole, or finite when it is turned into bytes. -/
def Sized (n : Number) : Prop :=
  n.Whole ∨ ∃ x negative m e, n = .float x ∧
    Decimal.Binary.ofFloat (x * 1024.0 * 1024.0) = .finite negative m e

theorem not_whole_iff {n : Number} : ¬ n.Whole ↔ n.toInt? = none := by
  rw [Whole, Option.eq_none_iff_forall_ne_some, not_exists]

end Number

theorem namesAmong_faulty_iff (items : List Value) :
    Faulty (namesAmong items) ↔ ∃ v ∈ items, Toml.isCompound v = true := by
  induction items with
  | nil => exact iff_of_false Faulty.not_ok (by simp)
  | cons v items ih =>
    have hrest (hv : Toml.isCompound v = false) :
        (∃ w ∈ v :: items, Toml.isCompound w = true) ↔ Faulty (namesAmong items) := by
      simp [ih, hv]
    unfold namesAmong
    cases v with
    | list _ | table _ => exact iff_of_true .misuse ⟨_, List.mem_cons_self, rfl⟩
    | str s =>
      rw [hrest rfl]
      exact Faulty.bind_ok_iff
    | null | bool _ | int _ | float _ | moment _ => exact (hrest rfl).symm

theorem namesAmong_unfailing (items : List Value) : Unfailing (namesAmong items) := by
  induction items with
  | nil => exact .ok _
  | cons v items ih =>
    unfold namesAmong
    cases v with
    | list _ | table _ => exact .misuse _ _
    | str s => exact ih.bind fun _ => .ok _
    | null | bool _ | int _ | float _ | moment _ => exact ih

theorem namesListed_faulty_iff (v : Value) : Faulty (namesListed v) ↔ ¬ v.Listable := by
  cases v with
  | list items =>
    refine (namesAmong_faulty_iff items).trans ⟨?_, fun h => ?_⟩
    · rintro ⟨v, hv, hcompound⟩ (⟨⟩ | ⟨⟩ | hnone)
      rw [hnone v hv] at hcompound
      cases hcompound
    · by_contra hnone
      exact h (.list fun v hv => by simpa using fun hv' => hnone ⟨v, hv, hv'⟩)
  | str s => exact iff_of_false Faulty.not_ok (not_not.2 (.text s))
  | table fields => exact iff_of_false Faulty.not_ok (not_not.2 (.table fields))
  | null | bool _ | int _ | float _ | moment _ => exact iff_of_true .misuse nofun

theorem namesListed_unfailing (v : Value) : Unfailing (namesListed v) := by
  cases v with
  | list items => exact namesAmong_unfailing items
  | str _ | table _ => exact .ok _
  | null | bool _ | int _ | float _ | moment _ => exact .misuse _ _

theorem truncated_faulty_iff (bytes : Float) :
    Faulty (match Decimal.truncate? bytes with
      | some n => .ok n
      | none =>
        if bytes.isNaN then misuse .value "cannot convert float NaN to integer"
        else misuse .overflow "cannot convert float infinity to integer") ↔
      ¬ ∃ negative m e, Decimal.Binary.ofFloat bytes = .finite negative m e := by
  unfold Decimal.truncate?
  cases Decimal.Binary.ofFloat bytes with
  | finite negative m e => exact iff_of_false Faulty.not_ok (not_not.2 ⟨negative, m, e, rfl⟩)
  | nan | infinite _ =>
    refine iff_of_true ?_ (by simp)
    cases bytes.isNaN <;> exact .misuse

namespace Settings

variable (s : Settings)

theorem selection_faulty_iff : Faulty s.selection ↔ ¬ s.excluded.Listable := by
  rw [← namesListed_faulty_iff]
  exact Faulty.bind_ok_iff

theorem selection_unfailing : Unfailing s.selection :=
  (namesListed_unfailing s.excluded).bind fun _ => .ok _

variable {s} in
theorem sizeLimit_of_selection {sel : Selection} (h : s.selection = .ok sel) :
    sel.sizeLimit = s.maxFileBytes := by
  obtain ⟨names, -, h⟩ := Outcome.bind_eq_ok.1 h
  cases h
  rfl

theorem maxFileBytes_faulty_iff : Faulty s.maxFileBytes ↔ ¬ s.maxFileSize.Sized := by
  unfold maxFileBytes Number.Sized Number.Whole
  cases s.maxFileSize with
  | flag b => exact iff_of_false Faulty.not_ok (not_not.2 (.inl ⟨_, rfl⟩))
  | int i => exact iff_of_false Faulty.not_ok (not_not.2 (.inl ⟨_, rfl⟩))
  | float x =>
    refine (truncated_faulty_iff (x * 1024.0 * 1024.0)).trans (not_congr ⟨?_, ?_⟩)
    · rintro ⟨negative, m, e, hx⟩
      exact .inr ⟨x, negative, m, e, rfl, hx⟩
    · rintro (⟨i, hi⟩ | ⟨y, negative, m, e, hy, hx⟩)
      · cases hi
      · cases hy
        exact ⟨negative, m, e, hx⟩

theorem maxFileBytes_unfailing : Unfailing s.maxFileBytes := by
  unfold maxFileBytes
  split
  · exact .ok _
  · dsimp only
    split
    · exact .ok _
    · split <;> exact .misuse _ _

end Settings

theorem Thresholds.blockLimits_faulty_iff (t : Thresholds) :
    Faulty t.blockLimits ↔ ¬ t.minLines.Whole := by
  have hcount : Faulty t.minLines.lineCount ↔ ¬ t.minLines.Whole := by
    unfold Number.lineCount
    rw [Number.not_whole_iff]
    cases t.minLines.toInt? with
    | some i => exact iff_of_false Faulty.not_ok nofun
    | none => exact iff_of_true .misuse rfl
  rw [← hcount]
  exact Faulty.bind_ok_iff

theorem Thresholds.blockLimits_unfailing (t : Thresholds) : Unfailing t.blockLimits := by
  refine .bind ?_ fun _ => .ok _
  unfold Number.lineCount
  split
  · exact .ok _
  · exact .misuse _ _

theorem cutAt_faulty_iff {α : Type} (cap : Number) (xs : List α) :
    Faulty (cutAt cap xs) ↔ ¬ cap.Whole := by
  unfold cutAt
  rw [Number.not_whole_iff]
  cases cap.toInt? with
  | some i => exact iff_of_false Faulty.not_ok nofun
  | none => exact iff_of_true .misuse rfl

theorem cutAt_unfailing {α : Type} (cap : Number) (xs : List α) : Unfailing (cutAt cap xs) := by
  unfold cutAt
  split
  · exact .ok _
  · exact .misuse _ _

/-! ## The search for files -/

/-- A run under a root looks for files among these entries. -/
def Host.HasFolder (h : Host) (root : String) (entries : List (String × Entry)) : Prop :=
  h.find (String.ofList (Path.tidy root.toList)) = .ok (.folder entries)

/-- Whether there is a folder under the root cannot be told. -/
def Host.OverlongRoot (h : Host) (root : String) : Prop :=
  h.Overlong (String.ofList (Path.tidy root.toList))

/-- The root is no folder. -/
def Failure.NoFolder (h : Host) (root : String) (f : Failure) : Prop :=
  (∀ entries, ¬ h.HasFolder root entries) ∧ ¬ h.OverlongRoot root ∧
    f = .configuration s!"Not a directory: {String.ofList (Path.tidy root.toList)}" []

theorem Entry.discover_faulty_iff {e : Entry} {sel : Selection} :
    Faulty (e.discover sel) ↔ e.candidates sel "" ≠ [] ∧ Faulty sel.sizeLimit := by
  unfold discover
  dsimp only
  split
  · rename_i hempty
    exact iff_of_false Faulty.not_ok fun h => h.1 (by simpa using hempty)
  · rename_i hsome
    exact Faulty.bind_ok_iff.trans (and_iff_right (by simpa using hsome)).symm

theorem Entry.discover_unfailing {e : Entry} {sel : Selection} (h : Unfailing sel.sizeLimit) :
    Unfailing (e.discover sel) := by
  unfold discover
  dsimp only
  split
  · exact .ok _
  · exact h.bind fun _ => .ok _

namespace Host

variable {h : Host} {root : String} {sel : Outcome Selection}

/-- Under a root there is a folder, or there is none, or this cannot be told. -/
theorem hasFolder_or (h : Host) (root : String) (sel : Outcome Selection) :
    (∃ entries, h.HasFolder root entries) ∨
      (∃ f, f.NoFolder h root ∧ h.discover root sel = fail f) ∨
      (h.OverlongRoot root ∧ Faulty (h.discover root sel)) := by
  unfold discover Failure.NoFolder HasFolder
  dsimp only
  split
  · rename_i entries hfound
    exact .inl ⟨entries, hfound⟩
  · rename_i hlong
    exact .inr (.inr ⟨hlong, .misuse⟩)
  · rename_i hnone hshort
    exact .inr (.inl ⟨_, ⟨hnone, hshort, rfl⟩, rfl⟩)

theorem HasFolder.not_overlongRoot {entries : List (String × Entry)}
    (hfolder : h.HasFolder root entries) : ¬ h.OverlongRoot root := by
  intro hlong
  unfold OverlongRoot Overlong at hlong
  rw [hfolder] at hlong
  cases hlong

namespace HasFolder

variable {entries : List (String × Entry)} (hfolder : h.HasFolder root entries) {s : Settings}

include hfolder

theorem discover (sel : Outcome Selection) :
    h.discover root sel = sel >>= (Entry.folder entries).discover := by
  unfold Host.discover
  dsimp only
  rw [hfolder]

theorem discover_faulty_iff : Faulty (h.discover root s.selection) ↔
    ¬ s.excluded.Listable ∨ ∃ sel, s.selection = .ok sel ∧
      (Entry.folder entries).candidates sel "" ≠ [] ∧ ¬ s.maxFileSize.Sized := by
  rw [hfolder.discover, Faulty.bind_iff, s.selection_faulty_iff]
  refine or_congr_right (exists_congr fun sel => and_congr_right fun hsel => ?_)
  rw [Entry.discover_faulty_iff, Settings.sizeLimit_of_selection hsel, s.maxFileBytes_faulty_iff]

theorem discover_unfailing : Unfailing (h.discover root s.selection) := by
  rw [hfolder.discover]
  refine s.selection_unfailing.bind_of_ok fun sel hsel => Entry.discover_unfailing ?_
  rw [Settings.sizeLimit_of_selection hsel]
  exact s.maxFileBytes_unfailing

end HasFolder

theorem discover_discovered {d : Discovery} (hd : h.discover root sel = .ok d) :
    Discovered d.records := by
  rcases h.hasFolder_or root sel with ⟨entries, hfolder⟩ | ⟨f, -, heq⟩ | ⟨-, f, heq⟩
  · rw [hfolder.discover] at hd
    obtain ⟨s, -, hd⟩ := Outcome.bind_eq_ok.1 hd
    exact Entry.discover_discovered hd
  · rw [heq] at hd
    cases hd
  · rw [heq] at hd
    cases hd

end Host

/-! ## Analyses -/

section
variable {files : List NormalizedFile} {limits : BlockLimits}

theorem candidateBlocks_unfailing : Unfailing (candidateBlocks files limits) := by
  have hnumber (p : Position) (offset : Nat) : Unfailing (numberAt files p offset) := by
    unfold numberAt
    split
    · exact .ok _
    · exact .misuse _ _
  have hplace (length : Nat) (p : Position) : Unfailing (occurrenceAt files length p) :=
    (hnumber p 0).bind fun _ => (hnumber p (length - 1)).bind fun _ => .ok _
  have hmerged : Unfailing (mergedGroups files limits) := by
    refine .foldlM (fun merged g _ => ?_) []
    obtain ⟨text, positions⟩ := g
    cases positions with
    | nil => exact .ok _
    | cons base others =>
      dsimp only
      split
      · exact .ok _
      · refine .bind (.bind (.mapM fun p _ => hplace _ p) fun _ => .ok _) fun _ => .ok _
  exact hmerged.bind fun _ => .ok _

theorem candidatesWithin_unfailing {blocks : Outcome BlockLimits} (h : Unfailing blocks) :
    Unfailing (candidatesWithin files blocks) := by
  unfold candidatesWithin
  split
  · exact .ok _
  · exact h.bind fun _ => candidateBlocks_unfailing

theorem candidatesWithin_faulty_iff (hc : Consistent files) {blocks : Outcome BlockLimits}
    (hwindow : ∀ b, blocks = .ok b → 0 < b.window) :
    Faulty (candidatesWithin files blocks) ↔ files ≠ [] ∧ Faulty blocks := by
  unfold candidatesWithin
  split
  · rename_i hempty
    exact iff_of_false Faulty.not_ok fun h => h.1 (by simpa using hempty)
  · rename_i hsome
    rw [Faulty.bind_iff, and_iff_right (by simpa using hsome)]
    refine or_iff_left ?_
    rintro ⟨b, hb, f, hf⟩
    exact candidateBlocks_faultless hc (hwindow b hb) f hf

end

section
variable {limits : SignalLimits} {read : Reader} {visit : Visitors} {rs : List FileRecord}

theorem analyze_unfailing (hvisit : visit.Sound) (hread : ∀ r ∈ rs, read.Skips r.path)
    (hblocks : Unfailing limits.blocks) : Unfailing (analyze limits read visit rs) := by
  obtain ⟨index, hindex⟩ := exists_indexAll hvisit.skips hread
  rw [analyze, hindex]
  exact (candidatesWithin_unfailing hblocks).bind fun _ => .ok _

variable {index : List Indexing} (hrs : Discovered rs) (hindex : indexAll read visit rs = .ok index)
  (hwindow : ∀ b, limits.blocks = .ok b → 0 < b.window)

include hrs hindex hwindow

theorem analyze_faulty_iff :
    Faulty (analyze limits read visit rs) ↔ filesOf index ≠ [] ∧ Faulty limits.blocks := by
  have hc := consistent_of_discovered hrs hindex
  rw [analyze, hindex, Outcome.ok_bind]
  refine Faulty.bind_ok_iff.trans ((candidatesWithin_faulty_iff hc hwindow).trans ?_)
  rw [ne_eq, List.map_eq_nil_iff]

/-- **What an analysis cites** comes of the functions, the blocks and the cycles of its files. -/
theorem analyze_cite {P : Citation → Prop} {run : AnalysisRun}
    (hrun : analyze limits read visit rs = .ok run)
    (hfunctions : ∀ s ∈ (filesOf index).flatMap IndexedFile.functions, P s.citation)
    (hblocks : ∀ {b bs}, limits.blocks = .ok b → candidateBlocks (normalizedOf index) b = .ok bs →
      ∀ b ∈ bs, ∀ o ∈ b.occurrences, P (b.citation o))
    (hcycles : ∀ known, ∀ c ∈ (DependencyGraph.ofFiles (normalizedOf index) known).cycles,
      ∀ d ∈ c.citations, P d) : run.analysis.signals.Cite P := by
  rw [analyze, hindex, Outcome.ok_bind] at hrun
  obtain ⟨candidates, hcandidates, hrun⟩ := Outcome.bind_eq_ok.1 hrun
  cases hrun
  have hcited : ∀ b ∈ candidates, b.occurrences ≠ [] ∧ ∀ o ∈ b.occurrences, P (b.citation o) := by
    unfold candidatesWithin at hcandidates
    split at hcandidates
    · cases hcandidates
      exact List.forall_mem_nil _
    · obtain ⟨limits, hlimits, hcandidates⟩ := Outcome.bind_eq_ok.1 hcandidates
      have hcounted := candidateBlocks_counted (consistent_of_discovered hrs hindex)
        (hwindow limits hlimits) hcandidates
      exact fun b hb => ⟨(hcounted b hb).1, hblocks hlimits hcandidates b hb⟩
  refine ⟨fun s hs => ?_, fun b hb => ?_, fun b hb => ?_, fun c hc => hcycles _ c hc⟩
  · exact hfunctions s (List.mem_of_mem_filter hs)
  · exact (hcited b ((dropCovered_sublist candidates).subset hb)).1
  · exact (hcited b ((dropCovered_sublist candidates).subset hb)).2

/-- The guard can look at all measurements of the citation. -/
def Citation.Small (c : Citation) : Prop := ∀ m ∈ c.metrics, ¬ m.value.TooLarge

/-- What an analysis of discovered files reports has measurements that the guard can look at. -/
theorem analyze_small (hvisit : visit.Sound) (hsize : linesRead read rs < Decimal.intLimit)
    {run : AnalysisRun} (hrun : analyze limits read visit rs = .ok run) :
    run.analysis.signals.Cite Citation.Small := by
  have hlines : lineTotal (normalizedOf index) ≤ linesRead read rs :=
    normalized_lines_le hvisit hindex
  refine analyze_cite hrs hindex hwindow hrun (fun s hs => ?_) (@fun limits bs hlimits hbs => ?_)
    fun known c hc d hd => ?_
  · exact fun m hm => ((function_usable hvisit hindex hsize hs).metrics m hm).2
  · intro b hb o _ m hm
    obtain ⟨-, hlength, hcount⟩ := candidateBlocks_counted
      (consistent_of_discovered hrs hindex) (hwindow limits hlimits) hbs b hb
    have hlength' : b.length ≤ linesRead read rs := hlength.2.trans (Int.ofNat_le.2 hlines)
    have hcount' : b.occurrences.length ≤ linesRead read rs := hcount.trans hlines
    have hmetrics : m = { kind := .str "loc", value := b.shownLength } ∨
        m = countMetric "count" b.occurrences.length ∨
        m = { kind := .str "hash", value := .str b.hash } := by
      simpa [DuplicateBlock.citation] using hm
    rcases hmetrics with rfl | rfl | rfl
    · unfold DuplicateBlock.shownLength
      split
      · rintro ⟨i, hi, -⟩
        cases hi
      · exact (countMetric_usable loc_inked hlength.1 (by omega)).2
    · exact (countMetric_usable count_inked (Int.natCast_nonneg _) (by omega)).2
    · rintro ⟨i, hi, -⟩
      cases hi
  · exact fun m hm => ((cycle_usable hvisit hindex hc d hd).metrics m hm).2

end

/-! ## Issues -/

section
variable {cap : Number}

theorem issueUnlessEmpty_faulty_iff {α : Type} {xs : List α} {make : List α → Outcome Issue} :
    Faulty (issueUnlessEmpty xs make) ↔ xs ≠ [] ∧ Faulty (make xs) := by
  unfold issueUnlessEmpty
  split
  · rename_i hempty
    exact iff_of_false Faulty.not_ok fun h => h.1 (by simpa using hempty)
  · rename_i hsome
    exact Faulty.bind_ok_iff.trans (and_iff_right (by simpa using hsome)).symm

theorem issueUnlessEmpty_unfailing {α : Type} {xs : List α} {make : List α → Outcome Issue}
    (h : Unfailing (make xs)) : Unfailing (issueUnlessEmpty xs make) := by
  unfold issueUnlessEmpty
  split
  · exact .ok _
  · exact h.bind fun _ => .ok _

theorem exists_duplicateIssue {blocks : List DuplicateBlock}
    (hsome : ∀ b ∈ blocks, b.occurrences ≠ []) (cap : Number) :
    ∃ i, duplicateIssue cap blocks = .ok i := by
  rw [duplicateIssue, duplicateCitations, mapM_withFirst hsome]
  exact ⟨_, rfl⟩

section
variable {a : Analysis} (hsome : ∀ b ∈ a.signals.duplicateBlocks, b.occurrences ≠ [])

include hsome

theorem aggregateIssues_faulty_iff : Faulty (aggregateIssues cap a) ↔
    (a.signals.longFunctions ≠ [] ∨ a.signals.cycles ≠ []) ∧ ¬ cap.Whole := by
  obtain ⟨i, hi⟩ := exists_duplicateIssue hsome cap
  have hduplicate : Unfailing (duplicateIssue cap a.signals.duplicateBlocks) := hi ▸ .ok i
  have hnot : ¬ Faulty (duplicateIssue cap a.signals.duplicateBlocks) := hi ▸ Faulty.not_ok
  have hlong (spans : List FunctionSpan) : Faulty (longFunctionIssue cap spans) ↔ ¬ cap.Whole :=
    Faulty.bind_ok_iff.trans (cutAt_faulty_iff cap _)
  have hcyclic (cycles : List Cycle) : Faulty (cycleIssue cap cycles) ↔ ¬ cap.Whole :=
    Faulty.bind_ok_iff.trans (cutAt_faulty_iff cap _)
  unfold aggregateIssues
  rw [Faulty.bind_iff_or (issueUnlessEmpty_unfailing ((cutAt_unfailing _ _).bind
      fun _ => .ok _)).faulty_or_ok fun _ =>
    (Faulty.bind_iff_or (issueUnlessEmpty_unfailing hduplicate).faulty_or_ok fun _ =>
      Faulty.bind_ok_iff)]
  simp only [issueUnlessEmpty_faulty_iff, hlong, hcyclic, hnot]
  tauto

theorem aggregateIssues_unfailing : Unfailing (aggregateIssues cap a) := by
  obtain ⟨i, hi⟩ := exists_duplicateIssue hsome cap
  refine .bind (issueUnlessEmpty_unfailing ?_) fun _ => .bind (issueUnlessEmpty_unfailing ?_)
    fun _ => .bind (issueUnlessEmpty_unfailing ?_) fun _ => .ok _
  · exact (cutAt_unfailing _ _).bind fun _ => .ok _
  · rw [hi]
    exact .ok i
  · exact (cutAt_unfailing _ _).bind fun _ => .ok _

end

theorem cutAt_subset {α : Type} {xs ys : List α} (h : cutAt cap xs = .ok ys) : ys ⊆ xs := by
  unfold cutAt at h
  split at h
  · cases h
    unfold takeFirst
    split <;> exact List.take_subset _ _
  · cases h

theorem duplicateCitations_of {blocks : List DuplicateBlock} {cs : List Citation}
    (h : duplicateCitations cap blocks = .ok cs) :
    ∀ c ∈ cs, ∃ b ∈ blocks, ∃ o ∈ b.occurrences, c = b.citation o := by
  obtain ⟨pairs, hpairs, h⟩ := Outcome.bind_eq_ok.1 h
  cases h
  intro c hc
  obtain ⟨⟨d, k⟩, hd, rfl⟩ := List.mem_map.1 hc
  have hd := List.fst_mem_of_mem_zipIdx ((List.takeWhile_sublist _).subset hd)
  obtain ⟨p, hp, hd⟩ := List.mem_flatMap.1 hd
  obtain ⟨o, ho, hd⟩ := List.mem_map.1 hd
  obtain ⟨b, hb, hbp⟩ := Outcome.exists_of_mapM_eq_ok hpairs p (List.mem_mergeSort.1 hp)
  unfold DuplicateBlock.withFirst at hbp
  split at hbp
  · cases hbp
    exact ⟨b, hb, o, ho, hd.symm⟩
  · cases hbp

/-- The issues of an analysis rest on its citations, whatever the cap is. -/
theorem aggregateIssues_of {a : Analysis} {P : Citation → Prop} (hcite : a.signals.Cite P)
    {is : List Issue} (h : aggregateIssues cap a = .ok is) :
    ∀ i ∈ is, ∃ cs : List Citation, i.evidence = cs.map Citation.item ∧ ∀ c ∈ cs, P c := by
  intro i hi
  rcases mem_aggregateIssues h hi with ⟨-, hi⟩ | ⟨-, hi⟩ | ⟨-, hi⟩ | rfl
  · obtain ⟨cited, hcited, hi⟩ := Outcome.bind_eq_ok.1 hi
    cases hi
    refine ⟨_, rfl, fun c hc => ?_⟩
    obtain ⟨s, hs, rfl⟩ := List.mem_map.1 hc
    exact hcite.functions s (List.mem_mergeSort.1 (cutAt_subset hcited hs))
  · obtain ⟨cs, hcs, hi⟩ := Outcome.bind_eq_ok.1 hi
    cases hi
    refine ⟨cs, rfl, fun c hc => ?_⟩
    obtain ⟨b, hb, o, ho, rfl⟩ := duplicateCitations_of hcs c hc
    exact hcite.blocks b hb o ho
  · obtain ⟨cs, hcs, hi⟩ := Outcome.bind_eq_ok.1 hi
    cases hi
    refine ⟨cs, rfl, fun c hc => ?_⟩
    obtain ⟨d, hd, hc⟩ := List.mem_flatMap.1 (cutAt_subset hcs hc)
    exact hcite.cycles d hd c hc
  · exact ⟨[], rfl, nofun⟩

/-- The guard gets past evidence whose measurements it can look at. -/
theorem exists_guardIssues {is : List Issue} (h : ∀ i ∈ is, ∃ cs : List Citation,
    i.evidence = cs.map Citation.item ∧ ∀ c ∈ cs, c.Small) : ∃ gs, guardIssues is = .ok gs := by
  have hsmall : ∀ i ∈ is, ¬ i.Overflows := by
    rintro i hi ⟨e, he, -, -, m, hm, -, hlarge⟩
    obtain ⟨cs, hcs, hsmall⟩ := h i hi
    rw [hcs] at he
    obtain ⟨c, hc, rfl⟩ := List.mem_map.1 he.mem
    exact hsmall c hc m hm.mem hlarge
  obtain ⟨gs, hgs, -⟩ := Outcome.exists_mapM_eq_ok fun i hi =>
    Issue.guarded_of_not_overflows (hsmall i hi)
  exact ⟨gs, hgs⟩

end

section
variable {a : Analysis} {cap : Number} (hcite : a.signals.Cite Citation.Small)

include hcite

theorem Signals.Cite.issues_faulty_iff : Faulty (a.issues cap) ↔
    (a.signals.longFunctions ≠ [] ∨ a.signals.cycles ≠ []) ∧ ¬ cap.Whole := by
  rw [Analysis.issues, Faulty.bind_iff, aggregateIssues_faulty_iff hcite.occurrences]
  refine or_iff_left ?_
  rintro ⟨is, his, hfault⟩
  obtain ⟨gs, hgs⟩ := exists_guardIssues (aggregateIssues_of hcite his)
  rw [hgs] at hfault
  exact Faulty.not_ok hfault

theorem Signals.Cite.issues_unfailing : Unfailing (a.issues cap) := by
  refine (aggregateIssues_unfailing hcite.occurrences).bind_of_ok fun is his => ?_
  obtain ⟨gs, hgs⟩ := exists_guardIssues (aggregateIssues_of hcite his)
  rw [hgs]
  exact .ok gs

end

end EvidenceLock
