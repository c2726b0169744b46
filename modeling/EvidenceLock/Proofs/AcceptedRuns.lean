import EvidenceLock.Proofs.SettingsFaults
import EvidenceLock.Proofs.SettingsUse
import EvidenceLock.Run

/-!
# Runs with accepted settings

The rules that settings keep leave values that cannot be used: names of folders that are a number, a
size that is infinite or not a number, a count of lines or of evidence that is a double. A run with
accepted settings is a fault exactly when it comes to need such a value or cannot ask for its folder
(`Host.Trips`, `Host.analyzeReading_faulty_iff`), whatever the folder holds and whether its files
can be read.
-/

namespace EvidenceLock

/-! ## Accepted thresholds -/

/-- Finished thresholds were made of named values, and so keep their rules. -/
def Overrides.Made (o : Overrides) : Prop :=
  ∀ t, o.thresholds = some t → ∃ fields, Thresholds.ofFields fields = .ok t

theorem Layers.thresholds_made {l : Layers} {o : Overrides} (ho : o.Made) {t : Thresholds}
    (h : l.thresholds o = .ok t) : ∃ fields, Thresholds.ofFields fields = .ok t := by
  unfold thresholds at h
  split at h
  · rename_i hsome
    cases h
    exact ho t hsome
  · unfold group groupOf at h
    split at h
    · exact ⟨[], h⟩
    · rename_i fields _
      rw [asConfiguration_eq_ok] at h
      split at h
      · cases h
      · exact ⟨fields, h⟩
    · split at h <;> cases h

theorem Host.loadSettings_made {h : Host} {file : Option String} {o : Overrides} {s : Settings}
    (ho : o.Made) (hs : h.loadSettings file o = .ok s) :
    ∃ fields, Thresholds.ofFields fields = .ok s.thresholds := by
  rw [loadSettings_eq] at hs
  obtain ⟨l, -, hs⟩ := Outcome.bind_eq_ok.1 hs
  obtain ⟨t, ht, hs⟩ := Outcome.bind_eq_ok.1 hs
  obtain ⟨g, -, hs⟩ := Outcome.bind_eq_ok.1 hs
  rw [asConfiguration_eq_ok] at hs
  rw [(Settings.groups_of_ofFields hs).1]
  exact Layers.thresholds_made ho ht

/-- Accepted thresholds give windows of at least one line. -/
theorem Thresholds.window_pos {fields : NamedValues} {t : Thresholds} (h : ofFields fields = .ok t)
    {b : BlockLimits} (hb : t.blockLimits = .ok b) : 0 < b.window := by
  obtain ⟨-, hmin, -⟩ := ofFields_keeps h
  obtain ⟨window, hwindow, hb⟩ := Outcome.bind_eq_ok.1 hb
  cases hb
  unfold Number.lineCount at hwindow
  split at hwindow
  · rename_i i hi
    cases hwindow
    rw [Number.lt_of_toInt? hi (j := 1) rfl, decide_eq_false_iff_not] at hmin
    dsimp only
    omega
  · cases hwindow

/-! ## Runs -/

namespace Host

/-- The run comes to need a setting that cannot be used for what it is needed for, or a root that
cannot be looked up. -/
inductive Trips (h : Host) (read : Reader) (visit : Visitors) (s : Settings) (root : String) : Prop
  /-- A name on the way to the root is too long. -/
  | root (hlong : h.OverlongRoot root)
  /-- There is a folder, and no names are listed. -/
  | names {entries : List (String × Entry)} (hfolder : h.HasFolder root entries)
      (hnames : ¬ s.excluded.Listable)
  /-- There is an eligible file, and the size limit is no number of bytes. -/
  | size {entries : List (String × Entry)} {sel : Selection} (hfolder : h.HasFolder root entries)
      (hsel : s.selection = .ok sel) (hfile : (Entry.folder entries).candidates sel "" ≠ [])
      (hsize : ¬ s.maxFileSize.Sized)
  /-- A file is indexed, and the least length of a block is no number of lines. -/
  | lines {d : Discovery} {index : List Indexing} (hfound : h.discover root s.selection = .ok d)
      (hindex : indexAll read visit d.records = .ok index) (hfile : filesOf index ≠ [])
      (hlines : ¬ s.thresholds.minLines.Whole)
  /-- There are long functions or cycles, and the cap of evidence is no number of items. -/
  | evidence {d : Discovery} {run : AnalysisRun} (hfound : h.discover root s.selection = .ok d)
      (hrun : analyze s.signalLimits read visit d.records = .ok run)
      (hranked : run.analysis.signals.longFunctions ≠ [] ∨ run.analysis.signals.cycles ≠ [])
      (hcap : ¬ s.maxEvidence.Whole)

variable {read : Reader} {visit : Visitors} {s : Settings}

/-- The report of a run, without what is logged on the way. -/
def reported (h : Host) (read : Reader) (visit : Visitors) (s : Settings) (root : String) :
    Outcome RunReport := do
  let found ← h.discover root s.selection
  let run ← analyze s.signalLimits read visit found.records
  let issues ← run.analysis.issues s.maxEvidence
  .ok { root, files := found.records, analysis := run.analysis, issues }

theorem analyzeReading_result (h : Host) (read : Reader) (visit : Visitors) (s : Settings)
    (path : String) : (h.analyzeReading read visit s path).result =
      if Path.holdsNull path then AccessError.nullCharacter.misused path
      else h.reported read visit s (Path.absolute h.workdir path) := by
  unfold analyzeReading resolve
  split
  · rfl
  · simp [reported, Analysis.issues]

theorem discover_faulty_iff {h : Host} {root : String} : Faulty (h.discover root s.selection) ↔
    h.OverlongRoot root ∨ ∃ entries, h.HasFolder root entries ∧ (¬ s.excluded.Listable ∨
      ∃ sel, s.selection = .ok sel ∧ (Entry.folder entries).candidates sel "" ≠ [] ∧
        ¬ s.maxFileSize.Sized) := by
  rcases h.hasFolder_or root s.selection with
    ⟨entries, hfolder⟩ | ⟨f, hf, heq⟩ | ⟨hlong, hfault⟩
  · rw [or_iff_right hfolder.not_overlongRoot]
    refine ⟨fun hfault => ⟨entries, hfolder, hfolder.discover_faulty_iff.1 hfault⟩, ?_⟩
    rintro ⟨entries', hfolder', hfault⟩
    exact hfolder'.discover_faulty_iff.2 hfault
  · rw [heq]
    refine iff_of_false Faulty.not_fail ?_
    rintro (hlong | ⟨entries, hfolder, -⟩)
    · exact hf.2.1 hlong
    · exact hf.1 entries hfolder
  · exact iff_of_true hfault (.inl hlong)

theorem discover_failures (h : Host) (root : String) :
    FailuresIn (Failure.NoFolder h root) (h.discover root s.selection) := by
  rcases h.hasFolder_or root s.selection with
    ⟨entries, hfolder⟩ | ⟨f, hf, heq⟩ | ⟨-, fault, heq⟩
  · exact hfolder.discover_unfailing.mono nofun
  · rw [heq]
    exact .fail hf
  · rw [heq]
    exact ⟨nofun⟩

section
variable {h : Host} {root : String} (hvisit : visit.Sound)
  (hread : ∀ d, h.discover root s.selection = .ok d → ∀ r ∈ d.records, read.Skips r.path)
  (hwindow : ∀ b, s.signalLimits.blocks = .ok b → 0 < b.window)
  (hsize : ∀ d, h.discover root s.selection = .ok d → linesRead read d.records < Decimal.intLimit)

include hvisit hread hwindow hsize

/-- What a run analyses cites nothing that the guard cannot look at. -/
theorem small_of_run {d : Discovery} (hd : h.discover root s.selection = .ok d) {run : AnalysisRun}
    (hrun : analyze s.signalLimits read visit d.records = .ok run) :
    run.analysis.signals.Cite Citation.Small := by
  obtain ⟨index, hindex⟩ := exists_indexAll hvisit.skips (hread d hd)
  exact analyze_small (discover_discovered hd) hindex hwindow hvisit (hsize d hd) hrun

theorem reported_faulty_iff :
    Faulty (h.reported read visit s root) ↔ h.Trips read visit s root := by
  have hblocks : Faulty s.signalLimits.blocks ↔ ¬ s.thresholds.minLines.Whole :=
    s.thresholds.blockLimits_faulty_iff
  constructor
  -- each stage is a fault over a setting of its own, after the stages before it have answered
  · intro hfault
    rcases Faulty.bind_iff.1 hfault with hfault | ⟨d, hd, hfault⟩
    · rcases discover_faulty_iff.1 hfault with
        hlong | ⟨entries, hfolder, hnames | ⟨sel, hsel, hfile, hsize⟩⟩
      · exact .root hlong
      · exact .names hfolder hnames
      · exact .size hfolder hsel hfile hsize
    rcases Faulty.bind_iff.1 hfault with hfault | ⟨run, hrun, hfault⟩
    · obtain ⟨index, hindex⟩ := exists_indexAll hvisit.skips (hread d hd)
      rw [analyze_faulty_iff (discover_discovered hd) hindex hwindow, hblocks] at hfault
      exact .lines hd hindex hfault.1 hfault.2
    · have hsmall := small_of_run hvisit hread hwindow hsize hd hrun
      rw [Faulty.bind_ok_iff, hsmall.issues_faulty_iff] at hfault
      exact .evidence hd hrun hfault.1 hfault.2
  · rintro (hlong | ⟨hfolder, hnames⟩ | ⟨hfolder, hsel, hfile, hsize⟩ |
      ⟨hd, hindex, hfile, hlines⟩ | ⟨hd, hrun, hranked, hcap⟩)
    · exact Faulty.bind_iff.2 (.inl (discover_faulty_iff.2 (.inl hlong)))
    · exact Faulty.bind_iff.2 (.inl (discover_faulty_iff.2 (.inr ⟨_, hfolder, .inl hnames⟩)))
    · exact Faulty.bind_iff.2
        (.inl (discover_faulty_iff.2 (.inr ⟨_, hfolder, .inr ⟨_, hsel, hfile, hsize⟩⟩)))
    · have hfault := (analyze_faulty_iff (discover_discovered hd) hindex hwindow).2
        ⟨hfile, hblocks.2 hlines⟩
      exact Faulty.bind_iff.2 (.inr ⟨_, hd, Faulty.bind_iff.2 (.inl hfault)⟩)
    · have hsmall := small_of_run hvisit hread hwindow hsize hd hrun
      have hfault := hsmall.issues_faulty_iff.2 ⟨hranked, hcap⟩
      exact Faulty.bind_iff.2 (.inr ⟨_, hd, Faulty.bind_iff.2
        (.inr ⟨_, hrun, Faulty.bind_ok_iff.2 hfault⟩)⟩)

theorem reported_failures :
    FailuresIn (Failure.NoFolder h root) (h.reported read visit s root) := by
  refine (h.discover_failures root).bind_of_ok fun d hd => .mono (P := fun _ => False) nofun ?_
  refine (analyze_unfailing hvisit (hread d hd) s.thresholds.blockLimits_unfailing).bind_of_ok
    fun run hrun => ?_
  have hsmall := small_of_run hvisit hread hwindow hsize hd hrun
  exact hsmall.issues_unfailing.bind fun _ => .ok _

end

/-- **A run with accepted settings is a fault exactly when it comes to need a value that cannot be
used** or a path that cannot be looked up, and it fails only over a path that is no folder. -/
theorem analyzeReading_faulty_iff {config : Host} {file : Option String} {o : Overrides}
    (ho : o.Made) (hs : config.loadSettings file o = .ok s) (h : Host) (path : String)
    (hvisit : visit.Sound)
    (hread : ∀ d, h.discover (Path.absolute h.workdir path) s.selection = .ok d →
      ∀ r ∈ d.records, read.Skips r.path)
    (hsize : ∀ d, h.discover (Path.absolute h.workdir path) s.selection = .ok d →
      linesRead read d.records < Decimal.intLimit) :
    (Faulty (h.analyzeReading read visit s path).result ↔
      Path.holdsNull path = true ∨ h.Trips read visit s (Path.absolute h.workdir path)) ∧
    FailuresIn (Failure.NoFolder h (Path.absolute h.workdir path))
      (h.analyzeReading read visit s path).result := by
  obtain ⟨fields, hfields⟩ := loadSettings_made ho hs
  have hwindow : ∀ b, s.signalLimits.blocks = .ok b → 0 < b.window := fun b hb =>
    Thresholds.window_pos hfields hb
  rw [analyzeReading_result]
  by_cases hnull : Path.holdsNull path = true
  · rw [if_pos hnull]
    exact ⟨iff_of_true .misuse (.inl hnull), .misuse _ _⟩
  · rw [if_neg hnull, or_iff_right hnull]
    exact ⟨reported_faulty_iff hvisit hread hwindow hsize,
      reported_failures hvisit hread hwindow hsize⟩

end Host

/-! ## A folder and its settings -/

/-- A working folder with these settings, beside a folder with the short module. -/
def moduleHost (settings : String) : Host where
  root := .folder [("work", .folder [("coderoast.toml", .file (Text.Utf8.encode settings))]),
    ("home", .folder []), ("src", .folder [("a.py", .file (Text.Utf8.encode shortModule))])]
  workdir := "/work"
  home := "/home"

/-- The fault that an outcome is. -/
def Outcome.fault? {α : Type} : Outcome α → Option Fault
  | .error (.fault f) => some f
  | _ => none

theorem Outcome.eq_of_fault? {α : Type} {x : Outcome α} {f : Fault} (h : x.fault? = some f) :
    x = .error (.fault f) := by
  unfold fault? at h
  split at h
  · cases h
    rfl
  · cases h

/-- What is evaluated of accepted settings and of what follows with them. -/
theorem Host.exists_fault {α : Type} {h : Host} {f : Fault} {x : Settings → Outcome α}
    (hrun : ((h.loadSettings none {}).toOption.bind fun s => (x s).fault?) = some f) :
    ∃ s, h.loadSettings none {} = .ok s ∧ x s = .error (.fault f) := by
  obtain ⟨s, hs, hfault⟩ := Option.bind_eq_some_iff.1 hrun
  exact ⟨s, Outcome.eq_ok_of_toOption hs, Outcome.eq_of_fault? hfault⟩

/-- The settings are accepted, and a run with them over the short module ends in the fault. -/
def RunsInto (settings : String) (f : Fault) : Prop :=
  ∃ s, (moduleHost settings).loadSettings none {} = .ok s ∧
    ((moduleHost settings).analyzeFolder Syntax.visitors s "/src").result = .error (.fault f)

/-- Sizes, names and counts that cannot be used are accepted, and end a run. -/
theorem Host.analyzeFolder_unusable :
    RunsInto "max_file_size_mb = inf\n"
      ⟨.overflow, "cannot convert float infinity to integer"⟩ ∧
    RunsInto "max_file_size_mb = nan\n" ⟨.value, "cannot convert float NaN to integer"⟩ ∧
    RunsInto "exclude_dirs = 5\n" ⟨.type, "'int' object is not iterable"⟩ ∧
    RunsInto "[thresholds]\nduplicate_min_lines = 10.0\n"
      ⟨.type, "'float' object cannot be interpreted as an integer"⟩ ∧
    RunsInto "max_evidence_items = 2.5\n[thresholds]\nlong_function_threshold = 3\n"
      ⟨.type, "slice indices must be integers or None or have an __index__ method"⟩ := by
  refine ⟨?_, ?_, ?_, ?_, ?_⟩
  all_goals exact Host.exists_fault (by decide +kernel)

/-- The short module, and settings with half an item of evidence. -/
def halfItemHost : Host :=
  moduleHost "max_evidence_items = 2.5\n[thresholds]\nlong_function_threshold = 3\n"

theorem halfItemHost_found {s : Settings} {d : Discovery}
    (hs : halfItemHost.loadSettings none {} = .ok s)
    (hd : halfItemHost.discover "/src" s.selection = .ok d) : d.records = [.ofPath "a.py"] := by
  have hfound : ((halfItemHost.loadSettings none {} >>= fun s =>
      halfItemHost.discover "/src" s.selection).toOption.map Discovery.records) =
        some [.ofPath "a.py"] := by decide +kernel
  simpa [hs, hd, Except.toOption] using hfound

/-- Half an item of evidence is accepted, and the run over the short module comes to need it. -/
theorem Host.analyzeReading_faulty_iff_half : ∃ s, halfItemHost.loadSettings none {} = .ok s ∧
    (halfItemHost.analyzeReading (halfItemHost.reader "/src") shortVisitors s "/src").result =
      misuse .type "slice indices must be integers or None or have an __index__ method" ∧
    halfItemHost.Trips (halfItemHost.reader "/src") shortVisitors s "/src" := by
  obtain ⟨s, hs, hfault⟩ := Host.exists_fault (h := halfItemHost)
    (x := fun s => (halfItemHost.analyzeReading (halfItemHost.reader "/src") shortVisitors s
      "/src").result)
    (f := ⟨.type, "slice indices must be integers or None or have an __index__ method"⟩)
    (by decide +kernel)
  have hroot : Path.absolute halfItemHost.workdir "/src" = "/src" := by decide +kernel
  have hskips : (halfItemHost.reader "/src").Skips "a.py" := by
    rw [← (halfItemHost.reader "/src").through_nil]
    exact halfItemHost.reader_skips "/src" [] fun _ => by decide +kernel
  have hexact := Host.analyzeReading_faulty_iff (o := {}) nofun hs halfItemHost "/src"
    shortVisitors_sound
    (fun d hd r hr => by
      rw [hroot] at hd
      rw [halfItemHost_found hs hd, List.mem_singleton] at hr
      rw [hr]
      exact hskips)
    (fun d hd => by
      rw [hroot] at hd
      rw [halfItemHost_found hs hd]
      exact linesRead_lt_intLimit (by decide) (by decide +kernel))
  rw [hroot] at hexact
  have hclean : Path.holdsNull "/src" = false := by decide +kernel
  exact ⟨s, hs, hfault, (hexact.1.1 ⟨_, hfault⟩).resolve_left (by simp [hclean])⟩

end EvidenceLock
