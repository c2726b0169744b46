import EvidenceLock.Patch.Parse
import EvidenceLock.Proofs.Lines
import EvidenceLock.Proofs.Scope

/-!
# The evidence lock

What a patch that was checked and applied can do to the texts. `buildOverlay` applies the patches
of one file after the other to a growing text (`buildOverlay_ok`), so the edits that they make
follow each other. `evidence_lock` says when they keep the lock: the numbers of a later patch of the
same file have to be traced back to the text that was read, and a single patch has to announce what
it removes. Both demands are exact, and the scope check makes neither.
-/

namespace EvidenceLock

open EvidenceLock.Text

/-! ## The texts of an overlay -/

def patchesFor (ps : List FilePatch) (file : String) : List FilePatch :=
  ps.filter fun p => p.file == file

theorem patchesFor_cons_self {p : FilePatch} {ps : List FilePatch} :
    patchesFor (p :: ps) p.file = p :: patchesFor ps p.file :=
  List.filter_cons_of_pos (beq_self_eq_true p.file)

theorem patchesFor_cons_ne {p : FilePatch} {ps : List FilePatch} {file : String}
    (h : p.file ≠ file) : patchesFor (p :: ps) file = patchesFor ps file :=
  List.filter_cons_of_neg (by simpa using h)

theorem Reader.through_insert_self {read : Reader} {o : Overlay} {file text : String} :
    read.through (o.insert file text) file = .ok text := by
  simp [Reader.through, Keyed.find?_insert]

theorem Reader.through_insert_ne {read : Reader} {o : Overlay} {file other text : String}
    (h : other ≠ file) : read.through (o.insert file text) other = read.through o other := by
  simp [Reader.through, Keyed.find?_insert, h]

theorem applyToOverlay_ok {read : Reader} {o o' : Overlay} {p : FilePatch}
    (h : applyToOverlay read o p = .ok o') :
    ∃ base text, read.through o p.file = .ok base ∧ p.apply base = .ok text ∧
      o' = o.insert p.file text := by
  rw [applyToOverlay_eq] at h
  obtain ⟨base, hbase, h⟩ := Outcome.bind_eq_ok.1 h
  obtain ⟨text, htext, rfl⟩ := Outcome.map_eq_ok.1 h
  exact ⟨base, text, hbase, htext, rfl⟩

/-- Applying patches to an overlay leaves the texts of other files, and takes the text of a file
through the patches of that file alone. -/
theorem foldlM_applyToOverlay_ok {read : Reader} {o o' : Overlay} {ps : List FilePatch}
    (h : ps.foldlM (applyToOverlay read) o = .ok o') (file : String) :
    (patchesFor ps file = [] → o'.find? file = o.find? file) ∧
      (patchesFor ps file ≠ [] → ∃ base new, read.through o file = .ok base ∧
        (patchesFor ps file).foldlM (fun text p => p.apply text) base = .ok new ∧
        o'.find? file = some new) := by
  induction ps generalizing o with
  | nil =>
    cases h
    exact ⟨fun _ => rfl, fun hne => absurd rfl hne⟩
  | cons p ps ih =>
    rw [List.foldlM_cons] at h
    obtain ⟨o₁, hp, hps⟩ := Outcome.bind_eq_ok.1 h
    obtain ⟨base, text, hbase, htext, rfl⟩ := applyToOverlay_ok hp
    obtain ⟨hsame, hnew⟩ := ih hps
    -- Once a patch is applied, the text of its file is that of the overlay and is not read again.
    by_cases hfile : p.file = file
    · subst hfile
      rw [patchesFor_cons_self]
      refine ⟨fun hnil => absurd hnil (List.cons_ne_nil _ _), fun _ => ?_⟩
      simp only [List.foldlM_cons]
      by_cases hlast : patchesFor ps p.file = []
      · refine ⟨base, text, hbase, ?_, ?_⟩
        · rw [htext, hlast]
          rfl
        · rw [hsame hlast, Keyed.find?_insert]
          simp
      · obtain ⟨base', new, hbase', hfold, hfind⟩ := hnew hlast
        rw [Reader.through_insert_self] at hbase'
        cases hbase'
        refine ⟨base, new, hbase, ?_, hfind⟩
        rw [htext]
        exact hfold
    · rw [patchesFor_cons_ne hfile]
      have hkeep : (o.insert p.file text).find? file = o.find? file := by
        rw [Keyed.find?_insert]
        simp [Ne.symm hfile]
      rw [hkeep] at hsame
      refine ⟨hsame, fun hne => ?_⟩
      obtain ⟨base', new, hbase', hfold, hfind⟩ := hnew hne
      rw [Reader.through_insert_ne (Ne.symm hfile)] at hbase'
      exact ⟨base', new, hbase', hfold, hfind⟩

/-- **The overlay**: each of its files has patches, its text was read once, and the new text is what
these patches make of it one after the other. -/
theorem buildOverlay_ok {read : Reader} {ps : List FilePatch} {overlay : Overlay}
    (h : buildOverlay read ps = .ok overlay) {file : String} (hfile : file ∈ overlay.keys) :
    patchesFor ps file ≠ [] ∧ ∃ old new, read file = .ok old ∧
      (patchesFor ps file).foldlM (fun text p => p.apply text) old = .ok new ∧
      overlay.find? file = some new := by
  obtain ⟨hsame, hnew⟩ := foldlM_applyToOverlay_ok h file
  have hne : patchesFor ps file ≠ [] := by
    intro hnil
    obtain ⟨v, hv⟩ := Keyed.mem_keys.1 hfile
    rw [hsame hnil] at hv
    cases hv
  refine ⟨hne, ?_⟩
  simpa only [Reader.through_nil] using hnew hne

/-! ## The edits of one file -/

/-- The edits that patches of one file make in turn, the first one of the given lines. Between two
of them the lines are split again. -/
def editsInTurn (lines : List String) : List FilePatch → List Edit
  | [] => []
  | [p] => [p.edit]
  | p :: q :: ps =>
    let made := p.edit.apply lines
    p.edit :: Edit.resplit made :: editsInTurn (linesOf (joinLines made)) (q :: ps)

/-- The patches of one file make their edits in turn; `old` are the lines from which `done` has led
to the text. -/
theorem foldlM_apply_ok {fs : List FilePatch} {done : Edit} {old : List String}
    {text new : String} (hlines : linesOf text = done.apply old) (hreach : done.reach ≤ old.length)
    (hne : fs ≠ []) (h : fs.foldlM (fun text p => p.apply text) text = .ok new) :
    ((editsInTurn (linesOf text) fs).foldl Edit.andThen done).reach ≤ old.length ∧
      new = joinLines (((editsInTurn (linesOf text) fs).foldl Edit.andThen done).apply old) := by
  induction fs generalizing done text with
  | nil => exact absurd rfl hne
  | cons p fs ih =>
    rw [List.foldlM_cons] at h
    obtain ⟨text', hp, h⟩ := Outcome.bind_eq_ok.1 h
    obtain ⟨-, hle, htext'⟩ := FilePatch.apply_ok hp
    have hmade : p.edit.apply (linesOf text) = (done.andThen p.edit).apply old := by
      rw [hlines, Edit.apply_andThen hreach]
    have hreach' : (done.andThen p.edit).reach ≤ old.length :=
      Edit.reach_andThen hreach (by rwa [← hlines])
    cases fs with
    | nil =>
      cases h
      rw [htext', hmade]
      exact ⟨hreach', rfl⟩
    | cons q fs =>
      -- The next patch counts the lines of the text that was written and split again.
      rw [editsInTurn, List.foldl_cons, List.foldl_cons, ← htext']
      refine ih ?_ (Edit.reach_andThen hreach' ?_) (List.cons_ne_nil q fs) h
      · rw [htext', Edit.apply_andThen hreach', ← hmade, Edit.apply_resplit]
      · rw [← hmade]
        exact Edit.reach_resplit _

/-! ## The lock -/

/-- **The evidence lock.** Patches that pass the scope check and are applied touch only cited files.
The new text of such a file is the old one after the edits of its patches in turn. Where all of this
as one edit stays within the cited lines, the lines outside of the evidence survive in their order.
It does so after each of the edits exactly when each of them does by the numbers of the text that
was read; that of a single patch does exactly when each of its hunks is announced. -/
theorem evidence_lock {cs : List Citation} {read : Reader} {ps : List FilePatch}
    {overlay : Overlay} (hscope : checkScope (allowedRanges cs) ps = .ok ())
    (hoverlay : buildOverlay read ps = .ok overlay) :
    ∀ file ∈ overlay.keys, (∃ c ∈ cs, c.file = file) ∧
      ∃ old new, read file = .ok old ∧ overlay.find? file = some new ∧
        let inside := Cited cs file
        let edits := editsInTurn (linesOf old) (patchesFor ps file)
        let lines := (Edit.total edits).apply (linesOf old)
        new = joinLines lines ∧
        (Edit.Within inside 1 (Edit.total edits) → Locked inside 1 (linesOf old) lines ∧
          (outsideLines inside 1 (linesOf old)).Sublist lines) ∧
        ((∀ k, Edit.Within inside 1 (Edit.total (edits.take k))) ↔
          Edit.AllTraced inside [] edits) ∧
        (∀ p, patchesFor ps file = [p] →
          (Edit.Within inside 1 (Edit.total edits) ↔ ∀ h ∈ p.hunks, h.Announced inside)) := by
  intro file hfile
  obtain ⟨hne, old, new, hread, hfold, hfind⟩ := buildOverlay_ok hoverlay hfile
  have hinScope : ∀ p ∈ patchesFor ps file,
      p.file = file ∧ p.checkScope (allowedRanges cs) = .ok () := by
    intro p hp
    obtain ⟨hps, hpfile⟩ := List.mem_filter.1 hp
    exact ⟨eq_of_beq hpfile, checkScope_ok.1 hscope p hps⟩
  have hcited : ∃ c ∈ cs, c.file = file := by
    obtain ⟨p, hp⟩ := List.exists_mem_of_ne_nil _ hne
    obtain ⟨hpfile, hpscope⟩ := hinScope p hp
    rw [← hpfile]
    exact FilePatch.cited_of_checkScope hpscope
  obtain ⟨hreach, hnew⟩ :=
    foldlM_apply_ok (Edit.apply_nil (linesOf old)).symm (Nat.zero_le _) hne hfold
  refine ⟨hcited, old, new, hread, hfind, hnew, fun hwithin => ?_,
    (Edit.allTraced_iff Edit.within_nil).symm, ?_⟩
  · have hlocked := hwithin.locked hreach
    exact ⟨hlocked, hlocked.outside_sublist⟩
  · intro p hp
    obtain ⟨hpfile, hpscope⟩ := hinScope p (by rw [hp]; exact List.mem_singleton_self p)
    rw [hp] at hfold
    obtain ⟨text, happly, -⟩ := Outcome.bind_eq_ok.1 (by simpa only [List.foldlM_cons] using hfold)
    have htotal : Edit.total (editsInTurn (linesOf old) [p]) = p.edit := by
      simp [editsInTurn, Edit.total]
    rw [hp, htotal, ← hpfile]
    exact FilePatch.within_edit_iff hpscope (FilePatch.apply_ok happly).1

/-! ### Where the lock breaks -/

/-- A diff of a text passes the scope check and is applied, and yet what it makes of the text is not
the text with changes inside the evidence only. -/
def BreaksLock (cs : List Citation) (file old diff : String) : Prop :=
  ∃ ps overlay new, Diff.parse diff = .ok ps ∧ checkScope (allowedRanges cs) ps = .ok () ∧
    buildOverlay (fun _ => (.ok old : Outcome String)) ps = .ok overlay ∧ overlay.find? file = some new ∧
    ¬ Locked (Cited cs file) 1 (linesOf old) (linesOf new)

/-- What a diff makes of the text of one file, once it has passed the scope check. -/
def patchedText (cs : List Citation) (file old diff : String) : Outcome (Option String) := do
  let ps ← Diff.parse diff
  checkScope (allowedRanges cs) ps
  let overlay ← buildOverlay (fun _ => (.ok old : Outcome String)) ps
  .ok (overlay.find? file)

/-- The lock is broken where a line outside is lost. -/
theorem BreaksLock.of_lost {cs : List Citation} {file old diff new : String}
    (hnew : (patchedText cs file old diff).toOption = some (some new))
    (hlost : ¬ (outsideLines (Cited cs file) 1 (linesOf old)).Sublist (linesOf new)) :
    BreaksLock cs file old diff := by
  obtain ⟨ps, hps, h⟩ := Outcome.bind_eq_ok.1 (Outcome.eq_ok_of_toOption hnew)
  obtain ⟨_, hscope, h⟩ := Outcome.bind_eq_ok.1 h
  obtain ⟨overlay, hoverlay, h⟩ := Outcome.bind_eq_ok.1 h
  exact ⟨ps, overlay, new, hps, hscope, hoverlay, Except.ok.inj h,
    fun hlocked => hlost hlocked.outside_sublist⟩

/-- A function of three lines, and two lines after it. -/
def shortModule : String := "def f():\n    x = 1\n    return x\ny = 2\nz = 3\n"

def functionCited : List Citation := [{ file := "a.py", first := 1, last := 3 }]

/-- The second line is removed, and the header announces it. -/
def announcedDiff : String := "--- a/a.py\n+++ b/a.py\n@@ -2,1 +2,0 @@\n-    x = 1\n"

/-- Two lines are removed, and the header announces none. -/
def unannouncedDiff : String :=
  "--- a/a.py\n+++ b/a.py\n@@ -2,0 +2,0 @@\n-    return x\n-y = 2\n"

/-- The second line is removed by one patch, and by another one what is then the third. -/
def repeatedDiff : String := announcedDiff ++ "--- a/a.py\n+++ b/a.py\n@@ -3,1 +3,0 @@\n-y = 2\n"

/-- **The lock breaks** where a hunk announces no old line but removes two, and where the second
patch of a file counts the lines that the first one left: both lose line 4, which is not cited. -/
theorem evidence_lock_breaks :
    BreaksLock functionCited "a.py" shortModule unannouncedDiff ∧
      BreaksLock functionCited "a.py" shortModule repeatedDiff := by
  constructor
  · have hnew : (patchedText functionCited "a.py" shortModule unannouncedDiff).toOption =
        some (some "def f():\n    x = 1\nz = 3\n") := by decide +kernel
    exact .of_lost hnew (by decide +kernel)
  · have hnew : (patchedText functionCited "a.py" shortModule repeatedDiff).toOption =
        some (some "def f():\n    return x\nz = 3\n") := by decide +kernel
    exact .of_lost hnew (by decide +kernel)

/-- The lock at work: a patch that removes line 2 of the function and announces it. -/
theorem evidence_lock_announced :
    ∃ lines, (patchedText functionCited "a.py" shortModule announcedDiff).toOption =
        some (some (joinLines lines)) ∧
      Locked (Cited functionCited "a.py") 1 (linesOf shortModule) lines := by
  let hunk : Hunk :=
    { oldStart := 2, oldCount := 1, newStart := 2, newCount := 0
      lines := [{ kind := .remove, text := "    x = 1" }] }
  let p : FilePatch := { file := "a.py", oldPath := "a.py", newPath := "a.py", hunks := [hunk] }
  have hscope : checkScope (allowedRanges functionCited) [p] = .ok () :=
    Outcome.eq_ok_of_toOption (by decide +kernel)
  have hoverlay : buildOverlay (fun _ => (.ok shortModule : Outcome String)) [p] =
      .ok [("a.py", "def f():\n    return x\ny = 2\nz = 3\n")] :=
    Outcome.eq_ok_of_toOption (by decide +kernel)
  obtain ⟨-, old, new, hread, hnew, htext, hlocked, -, hsingle⟩ :=
    evidence_lock hscope hoverlay "a.py" List.mem_cons_self
  cases hread
  have hannounced : ∀ h ∈ p.hunks, h.Announced (Cited functionCited "a.py") := by
    intro h hh
    rw [List.mem_singleton.1 hh]
    exact .inl (by decide)
  have hwithin := (hsingle p (by decide +kernel)).2 hannounced
  refine ⟨_, ?_, (hlocked hwithin).1⟩
  rw [← htext, ← Option.some.inj hnew]
  decide +kernel

end EvidenceLock
