import EvidenceLock.Proofs.Keyed
import EvidenceLock.Proofs.Lock
import EvidenceLock.Proofs.Replacement

/-!
# An overlay file by file

Patches of different files do not touch each other: applying a list of patches succeeds exactly
when for each patched file its text is read and its own patches apply to it in turn
(`exists_buildOverlay_iff`). So the order in which the patches of different files are mixed decides
only in which order the files stand in the overlay (`buildOverlay_interleaved`). Each of these files
is read once, where its first patch stands (`buildOverlay_noting`).
-/

namespace EvidenceLock

/-- The patched files that are not yet known, in the order in which they first appear. -/
def newFiles (known : List String) (ps : List FilePatch) : List String :=
  ((ps.map FilePatch.file).filter fun file => !known.contains file).eraseDups

theorem newFiles_nil (ps : List FilePatch) :
    newFiles [] ps = (ps.map FilePatch.file).eraseDups := by
  rw [newFiles, List.filter_eq_self.2]
  intro file _
  rfl

theorem newFiles_cons_of_mem {known : List String} {p : FilePatch} (h : p.file ∈ known)
    (ps : List FilePatch) : newFiles known (p :: ps) = newFiles known ps := by
  rw [newFiles, List.map_cons, List.filter_cons_of_neg, newFiles]
  simpa using h

theorem newFiles_cons_of_not_mem {known : List String} {p : FilePatch} (h : p.file ∉ known)
    (ps : List FilePatch) :
    newFiles known (p :: ps) = p.file :: newFiles (known ++ [p.file]) ps := by
  have hnew : (!known.contains p.file) = true := by simpa using h
  rw [newFiles, List.map_cons, List.filter_cons, if_pos hnew, List.eraseDups_cons, newFiles,
    List.filter_filter]
  congr 2
  refine List.filter_congr fun file _ => ?_
  by_cases hfile : file = p.file <;> simp [hfile, h]

/-! ## Success -/

/-- The text that the patches of a file make of what is read for it. -/
def patchedFile (read : Reader) (ps : List FilePatch) (file : String) : Outcome String := do
  let base ← read file
  (patchesFor ps file).foldlM (fun text p => p.apply text) base

theorem patchedFile_eq_ok {read : Reader} {ps : List FilePatch} {file new : String} :
    patchedFile read ps file = .ok new ↔ ∃ base, read file = .ok base ∧
      (patchesFor ps file).foldlM (fun text p => p.apply text) base = .ok new :=
  Outcome.bind_eq_ok

/-- A patch is applied where the text of its file is there and it applies to that. -/
theorem applyToOverlay_of_ok {read : Reader} {o : Overlay} {p : FilePatch} {base text : String}
    (hbase : read.through o p.file = .ok base) (htext : p.apply base = .ok text) :
    applyToOverlay read o p = .ok (o.insert p.file text) := by
  rw [applyToOverlay_eq, hbase, Outcome.ok_bind, htext]
  rfl

theorem exists_foldlM_applyToOverlay {read : Reader} {o : Overlay} {ps : List FilePatch}
    (h : ∀ file, patchesFor ps file ≠ [] → ∃ base new, read.through o file = .ok base ∧
      (patchesFor ps file).foldlM (fun text p => p.apply text) base = .ok new) :
    ∃ o', ps.foldlM (applyToOverlay read) o = .ok o' := by
  induction ps generalizing o with
  | nil => exact ⟨o, rfl⟩
  | cons p ps ih =>
    obtain ⟨base, new, hbase, hfold⟩ :=
      h p.file (by rw [patchesFor_cons_self]; exact List.cons_ne_nil _ _)
    rw [patchesFor_cons_self, List.foldlM_cons] at hfold
    obtain ⟨text, htext, hfold⟩ := Outcome.bind_eq_ok.1 hfold
    rw [List.foldlM_cons, applyToOverlay_of_ok hbase htext, Outcome.ok_bind]
    apply ih
    intro file hfile
    by_cases hsame : p.file = file
    · subst hsame
      exact ⟨text, new, Reader.through_insert_self, hfold⟩
    · rw [Reader.through_insert_ne (Ne.symm hsame)]
      have hother := h file
      rw [patchesFor_cons_ne hsame] at hother
      exact hother hfile

/-- **Patches apply** exactly when those of each file do. -/
theorem exists_buildOverlay_iff {read : Reader} {ps : List FilePatch} :
    (∃ o, buildOverlay read ps = .ok o) ↔
      ∀ file, patchesFor ps file ≠ [] → ∃ new, patchedFile read ps file = .ok new := by
  constructor
  · rintro ⟨o, ho⟩ file hfile
    obtain ⟨base, new, hbase, hfold, -⟩ := (foldlM_applyToOverlay_ok ho file).2 hfile
    rw [Reader.through_nil] at hbase
    exact ⟨new, patchedFile_eq_ok.2 ⟨base, hbase, hfold⟩⟩
  · intro h
    apply exists_foldlM_applyToOverlay
    intro file hfile
    obtain ⟨new, hnew⟩ := h file hfile
    obtain ⟨base, hbase, hfold⟩ := patchedFile_eq_ok.1 hnew
    rw [Reader.through_nil]
    exact ⟨base, new, hbase, hfold⟩

/-! ## The files of an overlay -/

theorem keys_insert_of_mem {o : Overlay} {file : String} (h : file ∈ o.keys) (text : String) :
    (o.insert file text).keys = o.keys := Keyed.keys_alter_of_mem h _

theorem keys_insert_of_not_mem {o : Overlay} {file : String} (h : file ∉ o.keys) (text : String) :
    (o.insert file text).keys = o.keys ++ [file] := by
  rw [Keyed.insert, Keyed.alter_of_not_mem h, Keyed.keys, List.map_append]
  rfl

theorem keys_foldlM_applyToOverlay {read : Reader} {o o' : Overlay} {ps : List FilePatch}
    (h : ps.foldlM (applyToOverlay read) o = .ok o') : o'.keys = o.keys ++ newFiles o.keys ps := by
  induction ps generalizing o with
  | nil =>
    cases h
    exact (List.append_nil _).symm
  | cons p ps ih =>
    rw [List.foldlM_cons] at h
    obtain ⟨o₁, hp, hps⟩ := Outcome.bind_eq_ok.1 h
    obtain ⟨_, text, -, -, rfl⟩ := applyToOverlay_ok hp
    rw [ih hps]
    by_cases hfile : p.file ∈ o.keys
    · rw [keys_insert_of_mem hfile, newFiles_cons_of_mem hfile]
    · rw [keys_insert_of_not_mem hfile, newFiles_cons_of_not_mem hfile, List.append_assoc]
      rfl

/-- **The files of an overlay** are the patched ones, in the order in which they first appear. -/
theorem keys_buildOverlay {read : Reader} {ps : List FilePatch} {o : Overlay}
    (h : buildOverlay read ps = .ok o) : o.keys = newFiles [] ps := keys_foldlM_applyToOverlay h

/-- The text of each file is what its patches make of what is read for it. -/
theorem find?_buildOverlay {read : Reader} {ps : List FilePatch} {o : Overlay}
    (h : buildOverlay read ps = .ok o) (file : String) :
    (patchesFor ps file = [] → o.find? file = none) ∧
      (patchesFor ps file ≠ [] →
        ∃ new, patchedFile read ps file = .ok new ∧ o.find? file = some new) := by
  obtain ⟨hsame, hnew⟩ := foldlM_applyToOverlay_ok h file
  refine ⟨hsame, fun hne => ?_⟩
  obtain ⟨base, new, hbase, hfold, hfind⟩ := hnew hne
  rw [Reader.through_nil] at hbase
  exact ⟨new, patchedFile_eq_ok.2 ⟨base, hbase, hfold⟩, hfind⟩

/-! ## What is read -/

/-- A run that notes the paths whose texts it asks for. -/
abbrev Noting := StateT (List String) Outcome

/-- Reads a text and notes its path behind those noted before. -/
def Reader.noting (read : Reader) (path : String) : Noting String := do
  modify (· ++ [path])
  read path

/-- The first patch of a file notes its path, the others note nothing. -/
theorem applyToOverlay_noting (read : Reader) (o : Overlay) (p : FilePatch) (noted : List String) :
    (applyToOverlay read.noting o p).run noted = (applyToOverlay read o p).map fun o' =>
      (o', if p.file ∈ o.keys then noted else noted ++ [p.file]) := by
  rw [applyToOverlay_eq]
  unfold applyToOverlay Reader.through
  cases ho : Keyed.find? o p.file with
  | some base =>
    have hmem : p.file ∈ o.keys := Keyed.mem_keys.2 ⟨base, ho⟩
    simp only [hmem, if_true, pure_bind, Outcome.ok_bind]
    cases p.apply base with
    | error e => rfl
    | ok text => rfl
  | none =>
    have hmem : p.file ∉ o.keys := by
      intro h
      obtain ⟨v, hv⟩ := Keyed.mem_keys.1 h
      rw [ho] at hv
      cases hv
    simp only [hmem, if_false, Reader.noting]
    cases read p.file with
    | error e => rfl
    | ok base =>
      change ((liftM (p.apply base) >>= fun text => pure (o.insert p.file text) :
        Noting Overlay).run (noted ++ [p.file])) = _
      rw [Outcome.ok_bind]
      cases p.apply base with
      | error e => rfl
      | ok text => rfl

theorem foldlM_applyToOverlay_noting (read : Reader) (o : Overlay) (ps : List FilePatch)
    (noted : List String) :
    (ps.foldlM (applyToOverlay read.noting) o).run noted =
      (ps.foldlM (applyToOverlay read) o).map fun o' => (o', noted ++ newFiles o.keys ps) := by
  induction ps generalizing o noted with
  | nil =>
    have hnil : newFiles o.keys [] = [] := rfl
    rw [hnil, List.append_nil]
    rfl
  | cons p ps ih =>
    rw [List.foldlM_cons, List.foldlM_cons, StateT.run_bind, applyToOverlay_noting]
    cases hp : applyToOverlay read o p with
    | error e => rfl
    | ok o₁ =>
      obtain ⟨_, text, -, -, rfl⟩ := applyToOverlay_ok hp
      change (ps.foldlM (applyToOverlay read.noting) _).run _ =
        Except.map _ (ps.foldlM (applyToOverlay read) _)
      rw [ih]
      by_cases hfile : p.file ∈ o.keys
      · rw [if_pos hfile, keys_insert_of_mem hfile, newFiles_cons_of_mem hfile]
      · rw [if_neg hfile, keys_insert_of_not_mem hfile, newFiles_cons_of_not_mem hfile,
          List.append_assoc]
        rfl

/-- **What is read**: noting it changes no outcome, and each patched file is read once. -/
theorem buildOverlay_noting (read : Reader) (ps : List FilePatch) :
    (buildOverlay read.noting ps).run [] =
      (buildOverlay read ps).map fun o => (o, newFiles [] ps) :=
  foldlM_applyToOverlay_noting read [] ps []

/-! ## Two orders -/

/-- **Files are patched independently.** Two lists with the same patches for each file in the same
order, however they are mixed, both fail or lead to the same texts. The overlay has the patched
files in the order in which they first appear, each one with what its patches make of its text in
turn, and exactly these files are read, each one once. -/
theorem buildOverlay_interleaved (read : Reader) {ps qs : List FilePatch}
    (h : ∀ file, patchesFor ps file = patchesFor qs file) :
    ((∃ e, buildOverlay read ps = .error e) ∧ (∃ e, buildOverlay read qs = .error e) ∨
      ∃ o o', buildOverlay read ps = .ok o ∧ buildOverlay read qs = .ok o' ∧
        ∀ file, o.find? file = o'.find? file) ∧
    (∀ o, buildOverlay read ps = .ok o →
      o.keys = (ps.map FilePatch.file).eraseDups ∧
      (∀ file ∈ o.keys, ∃ base new, read file = .ok base ∧
        (patchesFor ps file).foldlM (fun text p => p.apply text) base = .ok new ∧
        o.find? file = some new)) ∧
    (buildOverlay read.noting ps).run [] =
      (buildOverlay read ps).map fun o => (o, (ps.map FilePatch.file).eraseDups) := by
  have hsame : ∀ file, patchedFile read ps file = patchedFile read qs file := by
    intro file
    rw [patchedFile, patchedFile, h file]
  have hboth : (∃ o, buildOverlay read ps = .ok o) ↔ ∃ o, buildOverlay read qs = .ok o := by
    rw [exists_buildOverlay_iff, exists_buildOverlay_iff]
    simp only [h, hsame]
  refine ⟨?_, fun o ho => ⟨?_, fun file hfile => ?_⟩, ?_⟩
  · cases hps : buildOverlay read ps with
    | error e =>
      refine .inl ⟨⟨e, rfl⟩, ?_⟩
      cases hqs : buildOverlay read qs with
      | error e' => exact ⟨e', rfl⟩
      | ok o' =>
        obtain ⟨o, ho⟩ := hboth.2 ⟨o', hqs⟩
        rw [hps] at ho
        cases ho
    | ok o =>
      obtain ⟨o', ho'⟩ := hboth.1 ⟨o, hps⟩
      refine .inr ⟨o, o', rfl, ho', fun file => ?_⟩
      obtain ⟨hnone, hsome⟩ := find?_buildOverlay hps file
      obtain ⟨hnone', hsome'⟩ := find?_buildOverlay ho' file
      rw [← h file] at hnone' hsome'
      by_cases hfile : patchesFor ps file = []
      · rw [hnone hfile, hnone' hfile]
      · obtain ⟨new, hnew, hfind⟩ := hsome hfile
        obtain ⟨new', hnew', hfind'⟩ := hsome' hfile
        rw [← hsame file, hnew] at hnew'
        rw [hfind, hfind', Except.ok.inj hnew']
  · rw [keys_buildOverlay ho, newFiles_nil]
  · exact (buildOverlay_ok ho hfile).2
  · rw [buildOverlay_noting, newFiles_nil]

/-- Two files of two lines each. -/
def twoFiles : Reader := fun path =>
  if path = "a.py" ∨ path = "b.py" then .ok "x\nx" else fail (.fileAccess path "missing")

def firstLine (path new : String) : FilePatch := replacementPatch path 1 ["x"] [new]

def secondLine (path new : String) : FilePatch := replacementPatch path 2 ["x"] [new]

/-- A file that is patched between the two patches of another one may be patched before them. -/
theorem buildOverlay_interleaved_twoFiles :
    let ps := [firstLine "a.py" "y", firstLine "b.py" "z", secondLine "a.py" "w"]
    let qs := [firstLine "b.py" "z", firstLine "a.py" "y", secondLine "a.py" "w"]
    (∀ file, patchesFor ps file = patchesFor qs file) ∧
      ∃ o o', buildOverlay twoFiles ps = .ok o ∧ buildOverlay twoFiles qs = .ok o' ∧
        (∀ file, o.find? file = o'.find? file) ∧ o.find? "a.py" = some "y\nw" ∧
        o.keys = ["a.py", "b.py"] ∧ o'.keys = ["b.py", "a.py"] ∧
        (buildOverlay twoFiles.noting ps).run [] = .ok (o, ["a.py", "b.py"]) := by
  intro ps qs
  have hmixed : ∀ file, patchesFor ps file = patchesFor qs file := by
    intro file
    have hfirst : (firstLine "a.py" "y").file = "a.py" ∧ (secondLine "a.py" "w").file = "a.py" ∧
      (firstLine "b.py" "z").file = "b.py" := ⟨rfl, rfl, rfl⟩
    by_cases ha : "a.py" = file
    · subst ha
      simp [ps, qs, patchesFor, hfirst]
    · simp [ps, qs, patchesFor, List.filter_cons, hfirst, ha]
  have hps : buildOverlay twoFiles ps = .ok [("a.py", "y\nw"), ("b.py", "z\nx")] :=
    Outcome.eq_ok_of_toOption (by decide +kernel)
  have hqs : buildOverlay twoFiles qs = .ok [("b.py", "z\nx"), ("a.py", "y\nw")] :=
    Outcome.eq_ok_of_toOption (by decide +kernel)
  obtain ⟨hboth, -, hnoted⟩ := buildOverlay_interleaved twoFiles hmixed
  rw [hps, hqs] at hboth
  rcases hboth with ⟨⟨e, he⟩, -⟩ | ⟨o, o', ho, ho', hfind⟩
  · cases he
  · cases ho
    cases ho'
    rw [hps] at hnoted
    exact ⟨hmixed, _, _, hps, hqs, hfind, rfl, rfl, rfl, hnoted⟩

end EvidenceLock
