import EvidenceLock.Proofs.Preorder
import EvidenceLock.Proofs.SettingsUse

/-!
# What a run survives

An attempt turns every foreseen failure into a rejected suggestion, so that only a fault can end a
run. The stages of an attempt are gone through for the faults they can end in. They read no files
but those of the records, since an analysis cites no others (`analyze_files`) and a patch touches
cited files only; and none of them has any fault, except that a number in an answer may have too
many digits to be read or written. `Spared` says that no answer has such a number, and this is
exactly when a run gives its suggestions (`runFixes_survives`).
-/

namespace EvidenceLock

open EvidenceLock.Decimal

/-! ## Stages and their faults -/

section
variable {file : String} {message : String → String} {reason : Failure} {r : Option Refusal}

theorem refuse_faults : FaultsIn LongNumber (refuse file message reason r) := by
  unfold refuse
  split
  · exact .ok ()
  · exact .fail _
  · exact (written_faults _).bind fun _ _ => .fail _

theorem refuse_faulty :
    Faulty (refuse file message reason r) ↔ ∃ n, r = some (.line n) ∧ writable n = false := by
  unfold refuse
  split
  · exact iff_of_false Faulty.not_ok (by simp)
  · exact iff_of_false Faulty.not_fail (by simp)
  · rename_i n
    rw [refuseEdit, Faulty.bind_iff, written_faulty]
    simp [Faulty.not_fail]

end

/-- The only fault of the scope check is a line number that is too long to be written. -/
theorem checkScope_faults {allowed : AllowedRanges} {ps : List FilePatch} :
    FaultsIn LongNumber (checkScope allowed ps) := by
  obtain ⟨file, message, reason, h⟩ := checkScope_eq allowed ps
  rw [h]
  exact refuse_faults

/-- The scope check is a fault when it refuses a line whose number is too long to be written. -/
theorem checkScope_faulty {allowed : AllowedRanges} {ps : List FilePatch} :
    Faulty (checkScope allowed ps) ↔
      ∃ n, refusal? allowed ps = some (.line n) ∧ writable n = false := by
  obtain ⟨file, message, reason, h⟩ := checkScope_eq allowed ps
  rw [h]
  exact refuse_faulty

namespace Applying

theorem applyHunk_faultless {file : String} {total : Nat} {a : Applying} {h : Hunk}
    (hw : writable h.oldStart = true) : Faultless (applyHunk file total a h) := by
  unfold applyHunk
  dsimp only
  split
  · rw [written_of_writable hw]
    exact .fail _
  · split
    · exact .fail _
    · exact applyLines_faultless

end Applying

theorem FilePatch.apply_faultless {p : FilePatch} {text : String}
    (hw : ∀ h ∈ p.hunks, writable h.oldStart = true) : Faultless (p.apply text) := by
  refine FaultsIn.map _ (FaultsIn.bind ?_ fun _ _ => .ok _)
  exact .foldlM (fun _ h hh => Applying.applyHunk_faultless (hw h hh)) _

theorem Reader.through_faultless {read : Reader} {path : String} (hread : Faultless (read path))
    (overlay : Overlay) : Faultless (read.through overlay path) := by
  unfold through
  split
  · exact .ok _
  · exact hread

/-- Patches whose line numbers can be written are applied to what can be read without faults. -/
theorem buildOverlay_faultless {read : Reader} {ps : List FilePatch}
    (hread : ∀ p ∈ ps, Faultless (read p.file))
    (hw : ∀ p ∈ ps, ∀ h ∈ p.hunks, writable h.oldStart = true) :
    Faultless (buildOverlay read ps) := by
  refine .foldlM (fun o p hp => ?_) []
  rw [applyToOverlay_eq]
  exact (Reader.through_faultless (hread p hp) o).bind fun _ _ =>
    (FilePatch.apply_faultless (hw p hp)).map _

/-! ## Cited files -/

/-- The citation is one of the file of a record. -/
def Citation.Of (c : Citation) (rs : List FileRecord) : Prop := ∃ r ∈ rs, r.path = c.file

section
variable {read : Reader} {visit : Visitors} {rs : List FileRecord} {index : List Indexing}

theorem indexFile_named (hvisit : visit.Named) {r : FileRecord} {f : IndexedFile}
    (h : indexFile read visit r = .ok f) : ∀ s ∈ f.functions, s.file = r.path := by
  unfold indexFile at h
  split at h
  · cases h
  · obtain ⟨content, -, h⟩ := Outcome.bind_eq_ok.1 h
    obtain ⟨facts, hfacts, h⟩ := Outcome.bind_eq_ok.1 h
    cases h
    exact hvisit hfacts

/-- An indexed file is that of a record. -/
theorem exists_record (h : indexAll read visit rs = .ok index) :
    ∀ n ∈ normalizedOf index, ∃ r ∈ rs, r.path = n.path := by
  intro n hn
  obtain ⟨f, hf, rfl⟩ := List.mem_map.1 hn
  obtain ⟨r, hr, hrf⟩ := indexAll_ok h f hf
  obtain ⟨-, -, -, -, hpath, -⟩ := indexFile_ok hrf
  exact ⟨r, hr, hpath.symm⟩

theorem DependencyGraph.exists_of_mem_ranges {files : List NormalizedFile} {known : String → Bool}
    {a b : String} {range : LineRange} (h : range ∈ (ofFiles files known).ranges a b) :
    ∃ n ∈ files, n.path = a := by
  rw [ranges_ofFiles] at h
  obtain ⟨n, hn, hrange⟩ := List.mem_flatMap.1 h
  split at hrange
  · rename_i ha
    exact ⟨n, hn, ha.symm⟩
  · cases hrange

/-- **An analysis cites files of its records** only. -/
theorem analyze_files {limits : SignalLimits} (hrs : Discovered rs) (hvisit : visit.Named)
    (hwindow : ∀ b, limits.blocks = .ok b → 0 < b.window) {run : AnalysisRun}
    (hrun : analyze limits read visit rs = .ok run) :
    run.analysis.signals.Cite fun c => c.Of rs := by
  obtain ⟨index, hindex, -⟩ := Outcome.bind_eq_ok.1 hrun
  have hfiles := exists_record hindex
  refine analyze_cite hrs hindex hwindow hrun (fun s hs => ?_) (fun _ hbs b hb o ho => ?_)
    fun known c hc d hd => ?_
  · obtain ⟨f, hf, hs⟩ := List.mem_flatMap.1 hs
    obtain ⟨r, hr, hrf⟩ := indexAll_ok hindex f hf
    exact ⟨r, hr, (indexFile_named hvisit hrf s hs).symm⟩
  · obtain ⟨n, hn, hpath⟩ := candidateBlocks_known hbs b hb o ho
    obtain ⟨r, hr, hrn⟩ := hfiles n hn
    exact ⟨r, hr, hrn.trans hpath⟩
  · obtain ⟨hforth, hback⟩ := DependencyGraph.mem_cycles (DependencyGraph.keyedOnce_ofFiles _) hc
    have hside : ∃ a b range, d.file = a ∧
        range ∈ (DependencyGraph.ofFiles (normalizedOf index) known).ranges a b := by
      have hsides : d.file = c.source ∨ d.file = c.target := by
        rcases List.mem_cons.1 hd with rfl | hd
        · exact .inl rfl
        · exact .inr (by rw [List.mem_singleton.1 hd])
      rcases hsides with hfile | hfile
      · exact ⟨_, _, _, hfile, List.mem_of_mem_head? hforth⟩
      · exact ⟨_, _, _, hfile, List.mem_of_mem_head? hback⟩
    obtain ⟨a, b, range, hfile, hrange⟩ := hside
    obtain ⟨n, hn, hpath⟩ := DependencyGraph.exists_of_mem_ranges hrange
    obtain ⟨r, hr, hrn⟩ := hfiles n hn
    exact ⟨r, hr, hrn.trans (hpath.trans hfile.symm)⟩

end

/-! ## Proper scenes -/

/-- A scene as a run sets it up: the files were discovered, and reading one of them gives its text
or fails in foreseen ways; so do the extractors of their structure, which name the file of a
function; the windows of duplicated blocks are not empty, and the analysis before any patch is one
of these files. What they hold may have changed since. -/
structure FixScene.Proper (scene : FixScene) : Prop where
  discovered : Discovered scene.records
  readable : ∀ r ∈ scene.records, Faultless (scene.read r.path)
  visitors : ∀ l content path, Faultless (scene.visit l content path)
  named : scene.visit.Named
  window : ∀ b, scene.limits.blocks = .ok b → 0 < b.window
  analysed : ∃ (read : Reader) (run : AnalysisRun),
    analyze scene.limits read scene.visit scene.records = .ok run ∧ run.analysis = scene.before

/-- What is cited of the files of a proper scene is read without faults. -/
theorem FixScene.Proper.read_faultless {scene : FixScene} (hscene : scene.Proper) {c : Citation}
    (hc : c.Of scene.records) : Faultless (scene.read c.file) := by
  obtain ⟨r, hr, hfile⟩ := hc
  exact hfile ▸ hscene.readable r hr

/-- An answer has a number with too many digits: one in a hunk header that reading it as a diff gets
to, or that of the line at which the scope check refuses it. -/
def Overlong (allowed : AllowedRanges) (a : Answer) : Prop :=
  ∃ text, a = .ok text ∧
    ((∃ header, Diff.Meets {} 1 0 (Diff.linesOf text) header ∧ Diff.LongHeader header) ∨
      ∃ ps n, Diff.parse text = .ok ps ∧ refusal? allowed ps = some (.line n) ∧
        writable n = false)

section
variable {scene : FixScene} {allowed : AllowedRanges} {cited : List Citation} {a : Answer}

theorem patchesOf_faults : FaultsIn LongNumber (patchesOf a) := by
  cases a with
  | ok text => exact Diff.parse_faults text
  | error reason => exact .fail _

/-- An answer is overlong when reading it as a diff or checking its scope is a fault. -/
theorem overlong_iff : Overlong allowed a ↔
    Faulty (patchesOf a) ∨ ∃ ps, patchesOf a = .ok ps ∧ Faulty (checkScope allowed ps) := by
  cases a with
  | error reason =>
    refine iff_of_false (fun ⟨_, h, _⟩ => by cases h) ?_
    rintro (h | ⟨ps, h, -⟩)
    · exact Faulty.not_fail h
    · cases h
  | ok text =>
    simp only [Overlong, patchesOf, Diff.parse_faulty, checkScope_faulty]
    constructor
    · rintro ⟨_, htext, h⟩
      cases htext
      rcases h with h | ⟨ps, n, hps, hn⟩
      · exact .inl h
      · exact .inr ⟨ps, hps, n, hn⟩
    · rintro (h | ⟨ps, hps, n, hn⟩)
      · exact ⟨text, rfl, .inl h⟩
      · exact ⟨text, rfl, .inr ⟨ps, n, hps, hn⟩⟩

/-- An overlong answer ends in a fault about the length of a number. -/
theorem reanalyze_of_overlong (h : Overlong allowed a) :
    ∃ f, LongNumber f ∧ scene.reanalyze allowed (patchesOf a) = .error (.fault f) := by
  rcases overlong_iff.1 h with ⟨f, hf⟩ | ⟨ps, hps, f, hf⟩
  · refine ⟨f, patchesOf_faults f hf, ?_⟩
    rw [FixScene.reanalyze, hf]
    rfl
  · refine ⟨f, checkScope_faults f hf, ?_⟩
    rw [FixScene.reanalyze, hps, Outcome.ok_bind, hf]
    rfl

/-- **The stages after an answer** have no faults unless the answer is overlong. -/
theorem reanalyze_faultless (hscene : scene.Proper) {b : BlockLimits}
    (hblocks : scene.limits.blocks = .ok b) (hfiles : ∀ c ∈ cited, c.Of scene.records)
    (h : ¬ Overlong (allowedRanges cited) a) :
    Faultless (scene.reanalyze (allowedRanges cited) (patchesOf a)) := by
  obtain ⟨hparsed, hchecked⟩ := not_or.1 (mt overlong_iff.2 h)
  refine (Faultless.of_not_faulty hparsed).bind fun ps hps => ?_
  obtain ⟨text, -, htext⟩ := patchesOf_ok.1 hps
  have hscope : Faultless (checkScope (allowedRanges cited) ps) :=
    Faultless.of_not_faulty fun hf => hchecked ⟨ps, hps, hf⟩
  refine hscope.bind fun _ hscoped => ?_
  have hread : ∀ p ∈ ps, Faultless (scene.read p.file) := by
    intro p hp
    obtain ⟨c, hc, hfile⟩ := FilePatch.cited_of_checkScope (checkScope_ok.1 hscoped p hp)
    exact hfile ▸ hscene.read_faultless (hfiles c hc)
  refine (buildOverlay_faultless hread (Diff.parse_writable htext)).bind fun overlay _ => ?_
  refine FaultsIn.bind ?_ fun _ _ => .ok _
  exact analyze_faultless hscene.discovered
    (fun r hr => Reader.through_faultless (hscene.readable r hr) overlay) hscene.visitors hblocks
    (hscene.window b hblocks)

end

/-! ## One attempt -/

def GuardedIssue.cited (i : GuardedIssue) : List Citation :=
  i.evidence.filterMap EvidenceItem.citation?

def GuardedIssue.shown (i : GuardedIssue) : List Citation :=
  i.selected.filterMap EvidenceItem.citation?

theorem citationsOf_filterMap {items : List EvidenceItem}
    (h : ∀ i ∈ items, ∃ c, i.citation? = some c) :
    citationsOf items = .ok (items.filterMap EvidenceItem.citation?) := by
  obtain ⟨cs, hcs⟩ := exists_citationsOf h
  have hsome : items.filterMap EvidenceItem.citation? =
      (items.map EvidenceItem.citation?).filterMap id := by
    rw [List.filterMap_map]
    rfl
  rw [hcs, hsome, citationsOf_ok.1 hcs, List.filterMap_map]
  exact congrArg Except.ok (List.filterMap_some).symm

theorem byFile_mem {items : List EvidenceItem} :
    ∀ e ∈ byFile items, ∀ i ∈ e.2, i ∈ items := by
  have hnone : ∀ e ∈ ([] : Keyed Value (List EvidenceItem)), ∀ i ∈ e.2, i ∈ items :=
    fun e he => by cases he
  unfold byFile
  refine List.foldlRecOn (motive := fun groups : Keyed Value (List EvidenceItem) =>
    ∀ e ∈ groups, ∀ i ∈ e.2, i ∈ items) items _ hnone fun groups hgroups i hi => ?_
  exact Keyed.forall_push hgroups hi

theorem GuardedIssue.selected_subset (i : GuardedIssue) : i.selected ⊆ i.evidence := by
  intro item hitem
  unfold GuardedIssue.selected at hitem
  split at hitem
  · exact List.mem_of_mem_take hitem
  · split at hitem
    · rename_i items hfound
      exact byFile_mem _ (List.mem_of_find?_eq_some hfound) _ (List.mem_of_mem_take hitem)
    · exact List.mem_of_mem_take hitem

/-- The conversation of an attempt; there is none where a text that is to be shown cannot be
read. -/
def GuardedIssue.conversation? (i : GuardedIssue) (scene : FixScene) (script : List Answer) :
    Option Conversation :=
  match readSnippets scene.read i.shown with
  | .ok snippets => some (i.conversation script snippets)
  | .error _ => none

def GuardedIssue.leaves (i : GuardedIssue) (scene : FixScene) (script : List Answer) :
    List Answer :=
  match i.conversation? scene script with
  | some c => c.rest
  | none => script

/-- The answer that an attempt acts on is not overlong. -/
def GuardedIssue.Spared (i : GuardedIssue) (scene : FixScene) (script : List Answer) : Prop :=
  ∀ c e, i.conversation? scene script = some c → c.exchanges.getLast? = some e →
    ¬ Overlong (allowedRanges i.cited) e.answer

/-- An attempt acts on the last answer of its conversation only. -/
theorem GuardedIssue.spared_iff {i : GuardedIssue} {scene : FixScene} {script : List Answer}
    {snippets : List Snippet} {e : Exchange}
    (hread : readSnippets scene.read i.shown = .ok snippets)
    (hlast : (i.conversation script snippets).exchanges.getLast? = some e) :
    i.Spared scene script ↔ ¬ Overlong (allowedRanges i.cited) e.answer := by
  have hconversation : i.conversation? scene script = some (i.conversation script snippets) := by
    rw [GuardedIssue.conversation?, hread]
  constructor
  · intro h
    exact h _ e hconversation hlast
  · intro h c e' hc he'
    rw [hconversation] at hc
    cases hc
    rw [hlast] at he'
    cases he'
    exact h

/-- The issue is one to fix in the scene: it rests on the analysis and cites files of the
records. -/
structure GuardedIssue.Suits (i : GuardedIssue) (scene : FixScene) : Prop where
  fixable : i.fixable = true
  rests : i.toIssue.Rests scene.before
  files : ∀ c ∈ i.cited, c.Of scene.records

theorem GuardedIssue.shown_subset (i : GuardedIssue) : i.shown ⊆ i.cited :=
  List.filterMap_subset _ i.selected_subset

section
variable {i : GuardedIssue} {scene : FixScene} (hscene : scene.Proper) (hsuits : i.Suits scene)

include hsuits in
theorem citationsOf_suits :
    citationsOf i.evidence = .ok i.cited ∧ citationsOf i.selected = .ok i.shown := by
  have hitems : ∀ item ∈ i.evidence, ∃ c, item.citation? = some c := by
    obtain ⟨cs, hcs⟩ := hsuits.rests.cited
    intro item hitem
    rw [hcs] at hitem
    obtain ⟨c, -, rfl⟩ := List.mem_map.1 hitem
    exact ⟨c, rfl⟩
  exact ⟨citationsOf_filterMap hitems,
    citationsOf_filterMap fun item hitem => hitems item (i.selected_subset hitem)⟩

include hsuits in
theorem GuardedIssue.attempt_ends {id : Nat} {script : List Answer} {a : Attempt}
    (h : (i.attempt scene id script).result = .ok a) :
    Ends i scene id script i.cited i.shown a := by
  obtain ⟨hcited, hshown⟩ := citationsOf_suits hsuits
  obtain ⟨cited, shown, hcited', hshown', hend⟩ := GuardedIssue.attempt_ok.1 h
  rw [hcited] at hcited'
  rw [hshown] at hshown'
  cases hcited'
  cases hshown'
  exact hend

include hscene hsuits in
/-- For an issue to fix the limits of duplicated blocks are at hand. -/
theorem exists_blocks : ∃ b, scene.limits.blocks = .ok b := by
  obtain ⟨read, run, hrun, hbefore⟩ := hscene.analysed
  have hfixable := hsuits.fixable
  refine analyze_blocks hrun ?_
  rw [hbefore]
  simp only [GuardedIssue.fixable, fixableSignals, Bool.and_eq_true, List.contains_eq_mem,
    List.mem_cons, List.not_mem_nil, or_false, decide_eq_true_eq] at hfixable
  exact hfixable.2.imp hsuits.rests.long hsuits.rests.duplicate

include hscene hsuits in
theorem readSnippets_faultless : Faultless (readSnippets scene.read i.shown) :=
  .mapM fun c hc => (hscene.read_faultless (hsuits.files c (i.shown_subset hc))).bind fun _ _ =>
    .ok _

include hscene hsuits in
/-- **One attempt** gives a suggestion when it is spared, and otherwise ends in a fault about the
length of a number. -/
theorem GuardedIssue.attempt_survives (id : Nat) (script : List Answer) :
    (i.Spared scene script →
      ∃ a, (i.attempt scene id script).result = .ok a ∧ a.rest = i.leaves scene script) ∧
    (¬ i.Spared scene script →
      ∃ f, LongNumber f ∧ (i.attempt scene id script).result = .error (.fault f)) := by
  obtain ⟨hcited, hshown⟩ := citationsOf_suits hsuits
  obtain ⟨b, hblocks⟩ := exists_blocks hscene hsuits
  have hresult : (i.attempt scene id script).result =
      i.endOf scene id script i.cited i.shown := by
    rw [GuardedIssue.result_attempt, hcited, Outcome.ok_bind, hshown, Outcome.ok_bind]
  rw [hresult]
  cases hsnippets : readSnippets scene.read i.shown with
  | error e =>
    obtain ⟨f, rfl⟩ := (readSnippets_faultless hscene hsuits).of_error hsnippets
    unfold GuardedIssue.endOf GuardedIssue.Spared GuardedIssue.leaves GuardedIssue.conversation?
    rw [hsnippets]
    refine ⟨fun _ => ⟨_, rfl, rfl⟩, fun h => absurd (fun c e hc => ?_) h⟩
    cases hc
  | ok snippets =>
    obtain ⟨e, hlast, hpatches⟩ := converse_last (fixPrompt i.toIssue snippets) script
    rw [← GuardedIssue.conversation] at hlast hpatches
    rw [GuardedIssue.spared_iff hsnippets hlast, not_not]
    unfold GuardedIssue.endOf GuardedIssue.leaves GuardedIssue.conversation?
    rw [hsnippets]
    dsimp only
    rw [hpatches]
    constructor
    · intro h
      have hfaultless := reanalyze_faultless hscene hblocks hsuits.files h
      cases hre : scene.reanalyze (allowedRanges i.cited) (patchesOf e.answer) with
      | ok after => exact ⟨_, rfl, rfl⟩
      | error err =>
        obtain ⟨f, rfl⟩ := hfaultless.of_error hre
        exact ⟨_, rfl, rfl⟩
    · intro h
      have hfault : ∃ f, LongNumber f ∧
          scene.reanalyze (allowedRanges i.cited) (patchesOf e.answer) = .error (.fault f) :=
        reanalyze_of_overlong h
      obtain ⟨f, hf, hre⟩ := hfault
      rw [hre]
      exact ⟨f, hf, rfl⟩

end

/-! ## A whole run -/

/-- No attempt for an issue in turn acts on an overlong answer. -/
def Spared (scene : FixScene) : List Answer → List GuardedIssue → Prop
  | _, [] => True
  | script, i :: is => i.Spared scene script ∧ Spared scene (i.leaves scene script) is

/-- Attempts in turn give their suggestions when they are spared; otherwise one of them ends in a
fault about the length of a number. -/
theorem attempts_survive {scene : FixScene} (hscene : scene.Proper) {is : List GuardedIssue}
    (his : ∀ i ∈ is, i.Suits scene) (id : Nat) (script : List Answer) :
    (Spared scene script is → ∃ as, (attempts scene id script is).result = .ok as) ∧
    (¬ Spared scene script is →
      ∃ f, LongNumber f ∧ (attempts scene id script is).result = .error (.fault f)) := by
  induction is generalizing id script with
  | nil => exact ⟨fun _ => ⟨[], rfl⟩, fun h => absurd trivial h⟩
  | cons i is ih =>
    obtain ⟨hspared, hfault⟩ :=
      GuardedIssue.attempt_survives hscene (his i List.mem_cons_self) id script
    -- The other attempts go on with the answers that this one leaves.
    obtain ⟨hothers, hothersFault⟩ := ih (fun j hj => his j (List.mem_cons_of_mem i hj)) (id + 1)
      (i.leaves scene script)
    simp only [attempts, Logged.result_bind, Logged.result_write, Logged.result_pure,
      Outcome.ok_bind]
    constructor
    · rintro ⟨hi, his⟩
      obtain ⟨a, ha, hrest⟩ := hspared hi
      obtain ⟨as, has⟩ := hothers his
      rw [ha, Outcome.ok_bind, hrest, has]
      exact ⟨a :: as, rfl⟩
    · intro h
      by_cases hi : i.Spared scene script
      · obtain ⟨a, ha, hrest⟩ := hspared hi
        obtain ⟨f, hf, hfailed⟩ := hothersFault fun his => h ⟨hi, his⟩
        rw [ha, Outcome.ok_bind, hrest, hfailed]
        exact ⟨f, hf, rfl⟩
      · obtain ⟨f, hf, hfailed⟩ := hfault hi
        rw [hfailed]
        exact ⟨f, hf, rfl⟩

theorem cutAt_int {α : Type} {m : Int} (hm : 0 ≤ m) (xs : List α) :
    cutAt (.int m) xs = .ok (xs.take m.toNat) := cutAt_of_toInt? rfl hm xs

/-- The candidates of a run are issues to fix in a scene whose analysis gave them. -/
theorem candidates_suit {scene : FixScene} (hscene : scene.Proper) {evidenceCap : Number}
    {is : List Issue} (his : aggregateIssues evidenceCap scene.before = .ok is)
    {issues : List GuardedIssue} (hissues : guardIssues is = .ok issues) (n : Nat) :
    ∀ i ∈ (issues.filter GuardedIssue.fixable).take n, i.Suits scene := by
  obtain ⟨read, run, hrun, hbefore⟩ := hscene.analysed
  have hcite := analyze_files hscene.discovered hscene.named hscene.window hrun
  rw [hbefore] at hcite
  intro i hi
  obtain ⟨hissue, hfixable⟩ := List.mem_filter.1 (List.mem_of_mem_take hi)
  have hmem := guardIssues_ok hissues i hissue
  obtain ⟨cs, hcs, hfiles⟩ := aggregateIssues_of hcite his _ hmem
  refine ⟨hfixable, aggregateIssues_rests his _ hmem, fun c hc => ?_⟩
  obtain ⟨item, hitem, hc⟩ := List.mem_filterMap.1 hc
  rw [hcs] at hitem
  obtain ⟨c', hc', rfl⟩ := List.mem_map.1 hitem
  cases hc
  exact hfiles _ hc'

theorem runFixes_of_attempts {scene : FixScene} {cap : Number} {issues chosen : List GuardedIssue}
    {script : List Answer} {f : Fault} (hchosen : fixCandidates issues cap = .ok chosen)
    (h : (attempts scene 1 script chosen).result = .error (.fault f)) :
    (runFixes scene cap issues script).result = .error (.fault f) := by
  rw [runFixes, Logged.result_bind, Logged.result_of, hchosen, Outcome.ok_bind,
    Logged.result_bind, h]
  rfl

/-- **What a run survives.** In a proper scene, with the issues of its analysis and a cap that is
not negative, a run gives its suggestions exactly when no attempt acts on an overlong answer; there
is nothing else that ends it. Then there is one suggestion for each candidate up to the cap, in
their order and numbered from 1, and what failed in an attempt is the message of a suggestion that
is not verified. -/
theorem runFixes_survives {scene : FixScene} (hscene : scene.Proper) {evidenceCap : Number}
    {is : List Issue} (his : aggregateIssues evidenceCap scene.before = .ok is)
    {issues : List GuardedIssue} (hissues : guardIssues is = .ok issues) {m : Int} (hm : 0 ≤ m)
    (script : List Answer) :
    let chosen := (issues.filter GuardedIssue.fixable).take m.toNat
    (Spared scene script chosen ↔
      ∃ run, (runFixes scene (.int m) issues script).result = .ok run) ∧
    (¬ Spared scene script chosen → ∃ f, LongNumber f ∧
      (runFixes scene (.int m) issues script).result = .error (.fault f)) ∧
    ∀ run, (runFixes scene (.int m) issues script).result = .ok run →
      run.result.suggestions.length =
        min m.toNat (issues.filter GuardedIssue.fixable).length ∧
      ∃ as : List Attempt, run.result.suggestions = as.map Attempt.suggestion ∧
        ∀ (k : Nat) (a : Attempt), as[k]? = some a → ∃ i own, chosen[k]? = some i ∧
          a.suggestion.id = k + 1 ∧ a.suggestion.signal = i.signal ∧
          a.suggestion.category = i.category ∧
          Ends i scene (k + 1) own i.cited i.shown a ∧
          (a.after = none → a.suggestion.verified = false ∧
            ∃ f : Failure, a.suggestion.message = f.message) := by
  intro chosen
  have hchosen : fixCandidates issues (.int m) = .ok chosen := cutAt_int hm _
  have hsuit := candidates_suit hscene his hissues m.toNat
  obtain ⟨hspared, hfault⟩ := attempts_survive hscene hsuit 1 script
  have hended : ¬ Spared scene script chosen → ∃ f, LongNumber f ∧
      (runFixes scene (.int m) issues script).result = .error (.fault f) := by
    intro h
    obtain ⟨f, hf, hfailed⟩ := hfault h
    exact ⟨f, hf, runFixes_of_attempts hchosen hfailed⟩
  refine ⟨⟨fun h => ?_, fun h => ?_⟩, hended, fun run h => ?_⟩
  · obtain ⟨as, has⟩ := hspared h
    exact ⟨_, runFixes_ok.2 ⟨chosen, as, hchosen, attempts_ok.1 has, rfl⟩⟩
  · by_contra hnot
    obtain ⟨run, hrun⟩ := h
    obtain ⟨f, -, hfailed⟩ := hended hnot
    rw [hrun] at hfailed
    cases hfailed
  · obtain ⟨chosen', as, hchosen', has, rfl⟩ := runFixes_ok.1 h
    rw [hchosen] at hchosen'
    cases hchosen'
    refine ⟨?_, as, rfl, fun k a ha => ?_⟩
    · show (as.map Attempt.suggestion).length = _
      rw [List.length_map, has.length_eq, List.length_take]
    · obtain ⟨i, own, hi, hown⟩ := has.getElem? ha
      have hend := GuardedIssue.attempt_ends (hsuit i (List.mem_of_getElem? hi)) hown
      rw [Nat.add_comm] at hend
      exact ⟨i, own, hi, hend.id_eq, hend.signal_eq, hend.category_eq, hend, hend.rejected⟩

/-! ### A run that a number ends -/

/-- Every extractor names the file of a function. -/
theorem Syntax.visitors_named : Syntax.visitors.Named := by
  intro l content path facts h s hs
  cases h
  cases l <;> exact Grammar.file_of_mem_walk _ _ _ hs

theorem shortScene_proper : shortScene.Proper where
  discovered := by
    intro r hr
    rw [List.mem_singleton.1 hr]
    rfl
  readable _ _ := .ok _
  visitors _ _ _ := .ok _
  named := Syntax.visitors_named
  window := by
    intro b hb
    cases hb
    decide
  analysed := by
    obtain ⟨run, hrun, hbefore⟩ := exists_shortAnalysis
    exact ⟨shortReader, run, hrun, hbefore⟩

/-- The analysis of the short module gives one candidate, whose lines can be read, and whose second
line can be removed. -/
theorem exists_shortIssues : ∃ is issues i, aggregateIssues 5 shortScene.before = .ok is ∧
    guardIssues is = .ok issues ∧ issues.filter GuardedIssue.fixable = [i] ∧
    (∃ snippets, readSnippets shortScene.read i.shown = .ok snippets) ∧
    ∃ ps, Diff.parse announcedDiff = .ok ps ∧ checkScope (allowedRanges i.cited) ps = .ok () := by
  have hissues : ((aggregateIssues 5 shortScene.before >>= guardIssues).toOption.map fun issues =>
      (issues.filter GuardedIssue.fixable).map fun i =>
        ((readSnippets shortScene.read i.shown).toOption.isSome,
          (Diff.parse announcedDiff >>= checkScope (allowedRanges i.cited)).toOption)) =
      some [(true, some ())] := by
    decide +kernel
  obtain ⟨issues, hissues, hread⟩ := Option.map_eq_some_iff.1 hissues
  obtain ⟨is, his, hguard⟩ := Outcome.bind_eq_ok.1 (Outcome.eq_ok_of_toOption hissues)
  obtain ⟨i, hi, heach⟩ := List.map_eq_singleton_iff.1 hread
  obtain ⟨hsome, hscope⟩ := Prod.mk.inj heach
  obtain ⟨snippets, hsnippets⟩ := Option.isSome_iff_exists.1 hsome
  exact ⟨is, issues, i, his, hguard, hi, ⟨snippets, Outcome.eq_ok_of_toOption hsnippets⟩,
    Outcome.bind_eq_ok.1 (Outcome.eq_ok_of_toOption hscope)⟩

/-- A text is not asked for again unless it is refused as a diff. -/
theorem converse_once {prompt text : String} {rest : List Answer}
    (h : ∀ f, Diff.parse text ≠ .error (.failure f)) :
    (converse prompt (.ok text :: rest)).exchanges = [{ prompt, answer := .ok text }] := by
  unfold converse
  dsimp only [nextAnswer, patchesOf]
  split
  · rename_i f hf
    exact absurd hf (h f)
  · rfl

/-- An attempt acts on a text that is not asked for again. -/
theorem spared_once {i : GuardedIssue} {scene : FixScene} {snippets : List Snippet}
    (hread : readSnippets scene.read i.shown = .ok snippets) {text : String} {rest : List Answer}
    (honce : ∀ f, Diff.parse text ≠ .error (.failure f)) :
    i.Spared scene (.ok text :: rest) ↔ ¬ Overlong (allowedRanges i.cited) (.ok text) := by
  have hexchanges : (i.conversation (.ok text :: rest) snippets).exchanges = _ :=
    converse_once honce
  exact GuardedIssue.spared_iff hread (by rw [hexchanges, List.getLast?_singleton])

/-- **A run that a number ends**: a hunk header with a number of 4301 digits is an answer that is
neither refused nor asked for again. -/
theorem runFixes_ended : shortScene.Proper ∧ ∃ is issues f,
    aggregateIssues 5 shortScene.before = .ok is ∧ guardIssues is = .ok issues ∧
    (runFixes shortScene (.int 2) issues
      [.ok (Diff.diffWith (List.replicate 4301 '9'))]).result = .error (.fault f) := by
  obtain ⟨is, issues, i, his, hissues, hi, ⟨snippets, hread⟩, -⟩ := exists_shortIssues
  have hdigits : ∀ c ∈ List.replicate 4301 '9', Text.isDigit c = true := by
    intro c hc
    rw [List.eq_of_mem_replicate hc]
    decide
  have hlong : maxDigits < (List.replicate 4301 '9').length := by
    rw [List.length_replicate]
    decide
  have hparse := Diff.parse_diffWith hdigits hlong
  have hspared : ¬ Spared shortScene [.ok (Diff.diffWith (List.replicate 4301 '9'))] [i] := by
    intro h
    refine (spared_once hread fun f hf => ?_).1 h.1 ⟨_, rfl, .inl (Diff.parse_faulty.1 ⟨_, hparse⟩)⟩
    rw [hparse] at hf
    cases hf
  have hsuit := candidates_suit shortScene_proper his hissues 2
  have hchosen : fixCandidates issues (.int 2) = .ok [i] := by
    rw [fixCandidates, hi]
    rfl
  rw [hi] at hsuit
  obtain ⟨f, -, hfailed⟩ := (attempts_survive shortScene_proper hsuit 1 _).2 hspared
  exact ⟨shortScene_proper, is, issues, f, his, hissues, runFixes_of_attempts hchosen hfailed⟩

/-- A run that survives: the generator answers with a diff that is in scope. -/
theorem runFixes_survives_announced : ∃ is issues run,
    aggregateIssues 5 shortScene.before = .ok is ∧ guardIssues is = .ok issues ∧
    (runFixes shortScene (.int 2) issues [.ok announcedDiff]).result = .ok run ∧
    run.result.suggestions.length = 1 := by
  obtain ⟨is, issues, i, his, hissues, hi, ⟨snippets, hread⟩, ps, hparse, hscope⟩ :=
    exists_shortIssues
  obtain ⟨hspared, -, hlength⟩ := runFixes_survives shortScene_proper his hissues
    (show (0 : Int) ≤ 2 by decide) [.ok announcedDiff]
  rw [hi] at hspared hlength
  have hshort : ¬ Overlong (allowedRanges i.cited) (.ok announcedDiff) := by
    rw [overlong_iff, patchesOf, hparse]
    rintro (h | ⟨ps', hps', h⟩)
    · exact Faulty.not_ok h
    · cases hps'
      rw [hscope] at h
      exact Faulty.not_ok h
  have honce : ∀ f, Diff.parse announcedDiff ≠ .error (.failure f) := by simp [hparse]
  obtain ⟨run, hrun⟩ := hspared.1 ⟨(spared_once hread honce).2 hshort, trivial⟩
  exact ⟨is, issues, run, his, hissues, hrun, (hlength run hrun).1⟩

end EvidenceLock
