import EvidenceLock.Proofs.Analysis
import EvidenceLock.Proofs.Disk
import EvidenceLock.Proofs.Sorting
import EvidenceLock.Syntax.Visitor
import Mathlib.Data.List.Nodup
import Mathlib.Data.List.Perm.Basic

/-!
# What an analysis depends on

Two runs whose readers give the same for the same records (`ReadsAlike`) report the same, in
whatever order the records come: step by step the two runs answer alike or end in the same error
(`Agree`), and the reasons why a file cannot be read, in which they may differ, only say why a
record was skipped. So an overlay predicts what is reported once its texts are on disk
(`analyze_reads`).
-/

namespace EvidenceLock

/-- Two computations answer with related values, or end in the same error. -/
inductive Agree {α β : Type} (R : α → β → Prop) : Outcome α → Outcome β → Prop
  | ok {a : α} {b : β} (h : R a b) : Agree R (.ok a) (.ok b)
  | error (e : Error) : Agree R (.error e) (.error e)

namespace Agree

variable {α β γ δ : Type} {R : α → β → Prop} {S : γ → δ → Prop}

theorem of_eq {R : α → α → Prop} (hR : ∀ a, R a a) {x y : Outcome α} (h : x = y) : Agree R x y := by
  subst h
  cases x with
  | ok a => exact .ok (hR a)
  | error e => exact .error e

theorem bind {x : Outcome α} {y : Outcome β} {f : α → Outcome γ} {g : β → Outcome δ}
    (h : Agree R x y) (hfg : ∀ a b, R a b → Agree S (f a) (g b)) :
    Agree S (x >>= f) (y >>= g) := by
  cases h with
  | ok h => exact hfg _ _ h
  | error e => exact .error e

theorem mapM {f g : α → Outcome β} {R : β → β → Prop} {as : List α}
    (h : ∀ a ∈ as, Agree R (f a) (g a)) : Agree (List.Forall₂ R) (as.mapM f) (as.mapM g) := by
  induction as with
  | nil => exact .ok .nil
  | cons a as ih =>
    rw [List.mapM_cons, List.mapM_cons]
    refine (h a List.mem_cons_self).bind fun b b' hb => ?_
    refine (ih fun c hc => h c (List.mem_cons_of_mem a hc)).bind fun bs bs' hbs => ?_
    exact .ok (.cons hb hbs)

end Agree

/-! ## Reading -/

/-- A path is read, or fails in a way for which its record is skipped. -/
def Reader.Skips (read : Reader) (path : String) : Prop :=
  ∀ e, read path = .error e → (skippable e).isSome = true

/-- Whatever is on disk, a record is skipped where it cannot be read, unless its path holds a null
character. -/
theorem Host.reader_skips (h : Host) (root : String) (overlay : Overlay) {path : String}
    (hclean : overlay.find? path = none →
      Path.holdsNull (Path.resolveUnder root path) = false) :
    ((h.reader root).through overlay).Skips path := by
  intro e he
  unfold Reader.through at he
  split at he
  · cases he
  · rename_i hnone
    rcases h.reader_of_clean (hclean hnone) with ⟨text, htext⟩ | ⟨full, reason, hfail⟩
    · rw [htext] at he
      cases he
    · rw [hfail] at he
      cases he
      rfl

/-! ## Indexing -/

/-- The outcomes for a record are the same but for the reason why it was skipped. -/
def Indexing.Same (x y : Indexing) : Prop := x.file? = y.file? ∧ x.skippedPath? = y.skippedPath?

section
variable {read read' : Reader} {visit : Visitors}

theorem indexOrSkip_agree {r : FileRecord} (h : ReadsAlike read read' r.path) :
    Agree Indexing.Same (indexOrSkip read visit r) (indexOrSkip read' visit r) := by
  have hsame : ∀ x, Indexing.Same x x := fun x => ⟨rfl, rfl⟩
  rcases h with h | ⟨⟨full, reason, hread⟩, ⟨full', reason', hread'⟩⟩
  · exact .of_eq hsame (by rw [indexOrSkip, indexOrSkip, indexFile, indexFile, h])
  · unfold indexOrSkip indexFile
    cases Language.ofExtension? r.extension with
    | none => exact .of_eq hsame rfl
    | some language =>
      rw [hread, hread']
      -- The two failures may differ, but each of them makes the record be skipped.
      exact .ok ⟨rfl, rfl⟩

end

/-! ## Order -/

theorem sortRecords_perm {rs rs' : List FileRecord} (hperm : rs.Perm rs')
    (hpaths : (rs.map FileRecord.path).Nodup) : sortRecords rs = sortRecords rs' := by
  have hle (r r' : FileRecord) : decide (r.path ≤ r'.path) = true ↔ r.path ≤ r'.path :=
    decide_eq_true_iff
  exact mergeSort_perm_eq hle hperm fun _ ha _ hb => List.inj_on_of_nodup_map hpaths ha hb

theorem testPaths_perm {paths paths' : List String} (hperm : paths.Perm paths') :
    testPaths paths = testPaths paths' := by
  have hle (path path' : String) : decide (path ≤ path') = true ↔ path ≤ path' :=
    decide_eq_true_iff
  exact mergeSort_perm_eq hle (hperm.filter _) fun _ _ _ _ => id

/-! ## Analyses -/

section
variable {limits : SignalLimits} {read read' : Reader} {visit : Visitors}
  {rs rs' : List FileRecord}

theorem indexAll_agree (hperm : rs.Perm rs') (hpaths : (rs.map FileRecord.path).Nodup)
    (h : ∀ r ∈ rs, ReadsAlike read read' r.path) :
    Agree (List.Forall₂ Indexing.Same) (indexAll read visit rs) (indexAll read' visit rs') := by
  rw [indexAll, indexAll, ← sortRecords_perm hperm hpaths]
  exact Agree.mapM fun r hr => indexOrSkip_agree (h r (mem_sortRecords.1 hr))

theorem filterMap_eq_of_forall₂ {α β : Type} {R : α → α → Prop} {f : α → Option β} {as bs : List α}
    (h : List.Forall₂ R as bs) (hf : ∀ a b, R a b → f a = f b) :
    as.filterMap f = bs.filterMap f := by
  induction h with
  | nil => rfl
  | cons hab _ ih => rw [List.filterMap_cons, List.filterMap_cons, hf _ _ hab, ih]

/-- What is reported of an index does not look at why a record was skipped. -/
theorem analyzeIndexed_same {paths paths' : List String} {index index' : List Indexing}
    (hpaths : paths.Perm paths') (h : List.Forall₂ Indexing.Same index index') :
    (analyzeIndexed limits paths index).map AnalysisRun.analysis =
      (analyzeIndexed limits paths' index').map AnalysisRun.analysis := by
  have hfiles : index.filterMap Indexing.file? = index'.filterMap Indexing.file? :=
    filterMap_eq_of_forall₂ h fun _ _ => And.left
  have hskipped : index.filterMap Indexing.skippedPath? =
      index'.filterMap Indexing.skippedPath? :=
    filterMap_eq_of_forall₂ h fun _ _ => And.right
  unfold analyzeIndexed
  dsimp only
  rw [hfiles, hskipped, testPaths_perm hpaths]
  cases candidatesWithin ((index'.filterMap Indexing.file?).map IndexedFile.normalized)
    limits.blocks <;> rfl

/-- **Two runs that read alike** report the same. -/
theorem analyze_agree (hperm : rs.Perm rs') (hpaths : (rs.map FileRecord.path).Nodup)
    (h : ∀ r ∈ rs, ReadsAlike read read' r.path) :
    (analyze limits read visit rs).map AnalysisRun.analysis =
      (analyze limits read' visit rs').map AnalysisRun.analysis := by
  have hindex : Agree (List.Forall₂ Indexing.Same) (indexAll read visit rs)
      (indexAll read' visit rs') := indexAll_agree hperm hpaths h
  unfold analyze
  generalize indexAll read visit rs = x at hindex ⊢
  generalize indexAll read' visit rs' = y at hindex ⊢
  cases hindex with
  | ok h => exact analyzeIndexed_same (hperm.map FileRecord.path) h
  | error e => rfl

/-- **An analysis depends on what its records read as**: on records with different paths, in
whatever order, two runs report the same metrics, signals, summary of imports and skipped files,
or end in the same error, when every record reads as the same in both, be it a text or an error, or
cannot be read in either of them, whatever the reasons. In particular an analysis through an overlay
is that of a folder to which the texts of the overlay were written, which is what a commit makes of
the folder of a session, and entries of an overlay for paths that no record has make no
difference. -/
theorem analyze_reads (hperm : rs.Perm rs') (hpaths : (rs.map FileRecord.path).Nodup) :
    (∀ (h h' : Host) (root root' : String) (overlay overlay' : Overlay),
      (∀ r ∈ rs, ReadsAlike ((h.reader root).through overlay)
        ((h'.reader root').through overlay') r.path) →
      (analyze limits ((h.reader root).through overlay) visit rs).map AnalysisRun.analysis =
        (analyze limits ((h'.reader root').through overlay') visit rs').map
          AnalysisRun.analysis) ∧
    (∀ (h h' : Host) (root root' : String) (overlay : Overlay),
      (∀ r ∈ rs, Written h root overlay h' root' r.path) →
      (analyze limits ((h.reader root).through overlay) visit rs).map AnalysisRun.analysis =
        (analyze limits (h'.reader root') visit rs').map AnalysisRun.analysis) ∧
    (∀ s : Session, s.Writable rs →
      (analyze limits s.read visit rs).map AnalysisRun.analysis =
        (analyze limits s.commit.read visit rs').map AnalysisRun.analysis) ∧
    ∀ (h : Host) (root : String) (overlay overlay' : Overlay),
      (∀ r ∈ rs, overlay.find? r.path = overlay'.find? r.path) →
      (analyze limits ((h.reader root).through overlay) visit rs).map AnalysisRun.analysis =
        (analyze limits ((h.reader root).through overlay') visit rs').map
          AnalysisRun.analysis := by
  refine ⟨fun h h' root root' overlay overlay' halike => ?_,
    fun h h' root root' overlay hwritten => ?_, fun s hs => ?_,
    fun h root overlay overlay' hfind => ?_⟩
  · exact analyze_agree hperm hpaths halike
  · exact analyze_agree hperm hpaths fun r hr => (hwritten r hr).readsAlike
  · exact analyze_agree hperm hpaths fun r => Session.read_commit hs
  · refine analyze_agree hperm hpaths fun r hr => .inl ?_
    rw [Reader.through, Reader.through, hfind r hr]

end

/-- A folder with a module, and an overlay with another one that is not on disk yet. -/
def draftSession : Session :=
  { host := { root := .folder [("p", .folder [("a.py", .file (Text.Utf8.encode "import b\n"))])] }
    root := "/p"
    settings := {}
    visit := Syntax.visitors
    overlay := [("b.py", "x = 1\n")] }

/-- Written to disk the other module is read as before, and the order of the two makes no
difference. -/
theorem analyze_reads_draft :
    ([FileRecord.ofPath "a.py", .ofPath "b.py"].map FileRecord.path).Nodup ∧
    draftSession.Writable [.ofPath "a.py", .ofPath "b.py"] ∧
    (analyze {} draftSession.read draftSession.visit [.ofPath "a.py", .ofPath "b.py"]).map
        AnalysisRun.analysis =
      (analyze {} draftSession.commit.read draftSession.visit [.ofPath "b.py", .ofPath "a.py"]).map
        AnalysisRun.analysis := by
  have hpaths : ([FileRecord.ofPath "a.py", .ofPath "b.py"].map FileRecord.path).Nodup := by decide
  have hwritable : draftSession.Writable [.ofPath "a.py", .ofPath "b.py"] := by
    refine ⟨by decide, fun p hp => ?_, fun p hp q hq hne => ?_⟩
    · have hnames : p = "a.py" ∨ p = "b.py" := by
        rcases hp with hp | hp
        · exact .inr (List.mem_singleton.1 hp)
        · simpa [FileRecord.ofPath] using hp
      rcases hnames with rfl | rfl <;>
        exact ⟨by decide +kernel, by decide +kernel, by decide +kernel⟩
    · cases List.mem_singleton.1 hp
      have hother : q = "a.py" := by
        have hq : q = "a.py" ∨ q = "b.py" := by simpa [FileRecord.ofPath] using hq
        exact hq.resolve_right (Ne.symm hne)
      subst hother
      exact ⟨by decide +kernel, by decide +kernel⟩
  exact ⟨hpaths, hwritable, (analyze_reads (List.Perm.swap _ _ _) hpaths).2.2.1 _ hwritable⟩

end EvidenceLock
