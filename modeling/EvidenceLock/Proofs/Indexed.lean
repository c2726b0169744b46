import EvidenceLock.Proofs.DependencyGraph
import EvidenceLock.Proofs.NumberedLines
import EvidenceLock.Proofs.Occurrence
import EvidenceLock.Proofs.Rereading
import Mathlib.Algebra.Order.BigOperators.Group.List
import Mathlib.Algebra.Order.Group.Nat
import Mathlib.Algebra.Ring.Nat

/-!
# Indexed files

An index divides its records into files and skipped paths (`indexAll_perm`); there is none only
where a path with a null character would have to be read (`Garbled`). The files hold what their
texts say (`IndexedFile.Holds`): their lines are lines of the text, and so are those of their
functions and imports when the extractors keep to it (`Visitors.Sound`). So the functions, the
places of duplicated blocks and the edges of the import graph lie on lines of indexed files
(`Located`).
-/

namespace EvidenceLock

open EvidenceLock.Text

/-- Lines of a text from one number to another. -/
structure IsRange (content : String) (first last : Int) : Prop where
  positive : 1 ≤ first
  ordered : first ≤ last
  inside : last ≤ (linesOf content).length

/-- The functions of a file are those of its path, and its functions and imports stand on its
lines. -/
structure FileFacts.Fits (facts : FileFacts) (content path : String) : Prop where
  functions : ∀ s ∈ facts.functions, s.file = path ∧ IsRange content s.first s.last
  imports : ∀ ref ∈ facts.imports, IsRange content ref.first ref.last

/-- What the extractors give fits the text, and they fail only in ways for which a file is
skipped. -/
structure Visitors.Sound (visit : Visitors) : Prop where
  fits : ∀ {l content path facts}, visit l content path = .ok facts → facts.Fits content path
  skips : ∀ {l content path e}, visit l content path = .error e → (skippable e).isSome = true

/-- The extractors fail only in ways for which a file is skipped. -/
def Visitors.Skips (visit : Visitors) : Prop :=
  ∀ {l content path e}, visit l content path = .error e → (skippable e).isSome = true

/-- The functions of a file are given its path. -/
def Visitors.Named (visit : Visitors) : Prop :=
  ∀ {l content path facts}, visit l content path = .ok facts → ∀ s ∈ facts.functions, s.file = path

/-- What is indexed of a file is what its text says. -/
structure IndexedFile.Holds (f : IndexedFile) (read : Reader) (content : String) : Prop where
  read : read f.record.path = .ok content
  path : f.normalized.path = f.record.path
  lines : ∃ language, f.normalized.lines = normalizedLines language content
  facts : FileFacts.Fits { functions := f.functions, imports := f.normalized.imports } content
    f.record.path

/-- The files of an index. -/
abbrev filesOf (index : List Indexing) : List IndexedFile := index.filterMap Indexing.file?

/-- The paths that were skipped. -/
abbrev skippedOf (index : List Indexing) : List String := index.filterMap Indexing.skippedPath?

theorem filesOf_done (f : IndexedFile) (index : List Indexing) :
    filesOf (.done f :: index) = f :: filesOf index := rfl

theorem filesOf_skipped (path : String) (why : Failure) (index : List Indexing) :
    filesOf (.skipped path why :: index) = filesOf index := rfl

theorem skippedOf_done (f : IndexedFile) (index : List Indexing) :
    skippedOf (.done f :: index) = skippedOf index := rfl

theorem skippedOf_skipped (path : String) (why : Failure) (index : List Indexing) :
    skippedOf (.skipped path why :: index) = path :: skippedOf index := rfl

/-- The files of an index as far as they are compared with each other. -/
abbrev normalizedOf (index : List Indexing) : List NormalizedFile :=
  (filesOf index).map IndexedFile.normalized

/-- Lines of a text that was indexed under a path. -/
def Located (read : Reader) (files : List IndexedFile) (path : String) (first last : Int) : Prop :=
  ∃ f ∈ files, f.record.path = path ∧ ∃ content, read path = .ok content ∧
    IsRange content first last

/-- The number of lines that are read under a path. -/
def lineCount (read : Reader) (path : String) : Nat :=
  match read path with
  | .ok content => (linesOf content).length
  | .error _ => 0

/-- The number of lines that are read for some records. -/
def linesRead (read : Reader) (rs : List FileRecord) : Nat :=
  (rs.map fun r => lineCount read r.path).sum

section
variable {read : Reader} {visit : Visitors} {rs : List FileRecord} {index : List Indexing}

/-! ## One record -/

theorem indexFile_record {r : FileRecord} {f : IndexedFile} (h : indexFile read visit r = .ok f) :
    f.record = r := by
  unfold indexFile at h
  split at h
  · cases h
  · obtain ⟨content, -, h⟩ := Outcome.bind_eq_ok.1 h
    obtain ⟨facts, -, h⟩ := Outcome.bind_eq_ok.1 h
    cases h
    rfl

theorem indexFile_holds (hvisit : visit.Sound) {r : FileRecord} {f : IndexedFile}
    (h : indexFile read visit r = .ok f) : ∃ content, f.Holds read content := by
  unfold indexFile at h
  split at h
  · cases h
  · rename_i language _
    obtain ⟨content, hread, h⟩ := Outcome.bind_eq_ok.1 h
    obtain ⟨facts, hfacts, h⟩ := Outcome.bind_eq_ok.1 h
    cases h
    exact ⟨content, hread, rfl, ⟨language, rfl⟩, hvisit.fits hfacts⟩

/-- Whatever keeps a record from being indexed, it can be skipped for it. -/
theorem indexFile_skips (hvisit : visit.Skips) {r : FileRecord} {e : Error}
    (hread : read.Skips r.path) (h : indexFile read visit r = .error e) :
    (skippable e).isSome = true := by
  unfold indexFile at h
  split at h
  · cases h
    rfl
  · rename_i language _
    cases hcontent : read r.path with
    | error e' =>
      rw [hcontent] at h
      cases h
      exact hread _ hcontent
    | ok content =>
      rw [hcontent, Outcome.ok_bind] at h
      cases hfacts : visit language content r.path with
      | error e' =>
        rw [hfacts] at h
        cases h
        exact hvisit hfacts
      | ok facts =>
        rw [hfacts] at h
        cases h

theorem exists_indexOrSkip (hvisit : visit.Skips) {r : FileRecord} (hread : read.Skips r.path) :
    ∃ x, indexOrSkip read visit r = .ok x := by
  unfold indexOrSkip
  cases h : indexFile read visit r with
  | ok f => exact ⟨_, rfl⟩
  | error e =>
    obtain ⟨why, hwhy⟩ := Option.isSome_iff_exists.1 (indexFile_skips hvisit hread h)
    simp [hwhy]

/-- What comes of a record: a file of the record, or its path among the skipped ones. -/
theorem indexOrSkip_cases {r : FileRecord} {x : Indexing} (h : indexOrSkip read visit r = .ok x) :
    (∃ f, x = .done f ∧ indexFile read visit r = .ok f) ∨ ∃ why, x = .skipped r.path why := by
  unfold indexOrSkip at h
  split at h
  · rename_i f hf
    cases h
    exact .inl ⟨f, rfl, hf⟩
  · split at h
    · rename_i why _
      cases h
      exact .inr ⟨why, rfl⟩
    · cases h

/-! ## All records -/

/-- **Indexing answers** whenever reading and extracting only fail in ways for which a file is
skipped. -/
theorem exists_indexAll (hvisit : visit.Skips) (hread : ∀ r ∈ rs, read.Skips r.path) :
    ∃ index, indexAll read visit rs = .ok index := by
  obtain ⟨index, hindex, -⟩ := @Outcome.exists_mapM_eq_ok _ _ _ (sortRecords rs) (fun _ _ => True)
    fun r hr => (exists_indexOrSkip hvisit (hread r (mem_sortRecords.1 hr))).imp
      fun _ hx => ⟨hx, trivial⟩
  exact ⟨index, hindex⟩

/-! ## Paths with a null character -/

/-- The fault of looking up a path with a null character. -/
abbrev nullFault : Error := .fault { kind := .value, message := "embedded null byte" }

/-- To index the record something is read from disk that cannot be looked up: its path holds a null
character, or that of the folder does. -/
structure Garbled (root : String) (overlay : Overlay) (r : FileRecord) : Prop where
  language : ∃ l, Language.ofExtension? r.extension = some l
  overlay : overlay.find? r.path = none
  null : Path.holdsNull root = true ∨ Path.holdsNull r.path = true

section
variable {root : String} {overlay : Overlay}

theorem indexOrSkip_of_garbled (h : Host) {r : FileRecord} (hr : Garbled root overlay r) :
    indexOrSkip ((h.reader root).through overlay) visit r = .error nullFault := by
  obtain ⟨⟨l, hlanguage⟩, hnone, hnull⟩ := hr
  have hread : (h.reader root).through overlay r.path = .error nullFault := by
    rw [Reader.through, hnone]
    refine h.reader_of_null ?_
    rw [Path.holdsNull_resolveUnder, Bool.or_eq_true]
    exact hnull
  unfold indexOrSkip indexFile
  simp only [hlanguage, hread, Outcome.error_bind, skippable]

/-- All other records are indexed or skipped. -/
theorem exists_indexOrSkip_of_not_garbled (hvisit : visit.Skips) (h : Host) {r : FileRecord}
    (hr : ¬ Garbled root overlay r) :
    ∃ x, indexOrSkip ((h.reader root).through overlay) visit r = .ok x := by
  cases hlanguage : Language.ofExtension? r.extension with
  | none =>
    rw [indexOrSkip, indexFile, hlanguage]
    exact ⟨_, rfl⟩
  | some l =>
    refine exists_indexOrSkip hvisit (h.reader_skips root overlay fun hnone => ?_)
    rw [Path.holdsNull_resolveUnder, ← Bool.not_eq_true, Bool.or_eq_true]
    exact fun hnull => hr ⟨⟨l, hlanguage⟩, hnone, hnull⟩

/-- **What is read from disk is indexed** as long as no record is garbled. -/
theorem exists_indexAll_of_not_garbled (hvisit : visit.Skips) (h : Host)
    (hclean : ∀ r ∈ rs, ¬ Garbled root overlay r) :
    ∃ index, indexAll ((h.reader root).through overlay) visit rs = .ok index := by
  obtain ⟨index, hindex, -⟩ := Outcome.exists_mapM_eq_ok (R := fun _ _ => True) fun r hr =>
    (exists_indexOrSkip_of_not_garbled hvisit h (hclean r (mem_sortRecords.1 hr))).imp
      fun _ hx => ⟨hx, trivial⟩
  exact ⟨index, hindex⟩

/-- One garbled record ends the indexing of all. -/
theorem indexAll_of_garbled (hvisit : visit.Skips) (h : Host)
    (hgarbled : ∃ r ∈ rs, Garbled root overlay r) :
    indexAll ((h.reader root).through overlay) visit rs = .error nullFault := by
  obtain ⟨r, hr, hgarbled⟩ := hgarbled
  refine Outcome.mapM_eq_error (fun s _ => ?_)
    ⟨r, mem_sortRecords.2 hr, indexOrSkip_of_garbled h hgarbled⟩
  by_cases hs : Garbled root overlay s
  · exact .inl (indexOrSkip_of_garbled h hs)
  · exact .inr (exists_indexOrSkip_of_not_garbled hvisit h hs)

end

/-! ## The parts of an index -/

theorem sortRecords_perm_self (rs : List FileRecord) : (sortRecords rs).Perm rs :=
  List.mergeSort_perm rs _

/-- **An index divides its records** into files and skipped paths. -/
theorem indexAll_perm (h : indexAll read visit rs = .ok index) :
    ((filesOf index).map (fun f => f.record.path) ++ skippedOf index).Perm
      (rs.map FileRecord.path) := by
  -- The records are taken in sorted order, and each one adds its path to one of the two lists.
  refine List.Perm.trans ?_ ((sortRecords_perm_self rs).map FileRecord.path)
  have hindex := Outcome.forall₂_of_mapM_eq_ok h
  clear h
  generalize sortRecords rs = sorted at hindex
  induction hindex with
  | nil => exact .nil
  | cons hx _ ih =>
    rcases indexOrSkip_cases hx with ⟨f, rfl, hf⟩ | ⟨why, rfl⟩
    · rw [filesOf_done, skippedOf_done, List.map_cons, List.map_cons, indexFile_record hf]
      exact ih.cons _
    · rw [filesOf_skipped, skippedOf_skipped, List.map_cons]
      exact List.perm_middle.trans (ih.cons _)

/-- The files have no more normalized lines than are read. -/
theorem normalized_lines_le (hvisit : visit.Sound) (h : indexAll read visit rs = .ok index) :
    ((normalizedOf index).map fun f => f.lines.length).sum ≤ linesRead read rs := by
  unfold linesRead normalizedOf
  rw [← ((sortRecords_perm_self rs).map fun r => lineCount read r.path).sum_eq, List.map_map]
  have hindex := Outcome.forall₂_of_mapM_eq_ok h
  clear h
  generalize sortRecords rs = sorted at hindex
  induction hindex with
  | nil => exact Nat.le_refl 0
  | cons hx _ ih =>
    rcases indexOrSkip_cases hx with ⟨f, rfl, hf⟩ | ⟨why, rfl⟩
    · obtain ⟨content, hholds⟩ := indexFile_holds hvisit hf
      obtain ⟨language, hlines⟩ := hholds.lines
      have hread := hholds.read
      rw [indexFile_record hf] at hread
      rw [filesOf_done, List.map_cons, List.map_cons, List.sum_cons, List.sum_cons]
      refine Nat.add_le_add ?_ ih
      rw [lineCount, hread, Function.comp_apply, hlines]
      exact normalizedLines_length_le language content
    · rw [filesOf_skipped, List.map_cons, List.sum_cons]
      exact Nat.le_trans ih (Nat.le_add_left _ _)

end

/-! ## The files of an index -/

section
variable {read : Reader} {visit : Visitors} {rs : List FileRecord} {index : List Indexing}
  (hvisit : visit.Sound) (h : indexAll read visit rs = .ok index)

include hvisit h

/-- A file belongs to a record and holds what its text says. -/
theorem exists_holds {f : IndexedFile} (hf : f ∈ filesOf index) :
    f.record ∈ rs ∧ ∃ content, f.Holds read content := by
  obtain ⟨r, hr, hrf⟩ := indexAll_ok h f hf
  rw [indexFile_record hrf]
  exact ⟨hr, indexFile_holds hvisit hrf⟩

theorem corpus_of_indexAll (hpaths : (rs.map FileRecord.path).Nodup) :
    Corpus (normalizedOf index) := by
  have hholds : ∀ n ∈ normalizedOf index, ∃ language content,
      n.lines = normalizedLines language content := by
    intro n hn
    obtain ⟨f, hf, rfl⟩ := List.mem_map.1 hn
    obtain ⟨-, content, hf⟩ := exists_holds hvisit h hf
    obtain ⟨language, hlines⟩ := hf.lines
    exact ⟨language, content, hlines⟩
  refine ⟨?_, fun n hn l hl => ?_, fun n hn => ?_⟩
  · have hpath : (normalizedOf index).map NormalizedFile.path =
        (filesOf index).map fun f => f.record.path := by
      rw [List.map_map]
      refine List.map_congr_left fun f hf => ?_
      obtain ⟨-, content, hf⟩ := exists_holds hvisit h hf
      exact hf.path
    rw [hpath]
    exact (List.nodup_append.1 ((indexAll_perm h).nodup_iff.2 hpaths)).1
  · obtain ⟨language, content, hlines⟩ := hholds n hn
    obtain ⟨line, hline, rfl⟩ := List.mem_map.1 hl
    rw [hlines] at hline
    exact (normalizedLines_number hline).2.2
  · obtain ⟨language, content, hlines⟩ := hholds n hn
    rw [NormalizedFile.numbers, hlines]
    exact normalizedLines_pairwise language content

/-! ## Places -/

theorem located_of_mem_functions {s : FunctionSpan}
    (hs : s ∈ (filesOf index).flatMap IndexedFile.functions) :
    Located read (filesOf index) s.file s.first s.last := by
  obtain ⟨f, hf, hs⟩ := List.mem_flatMap.1 hs
  obtain ⟨-, content, hholds⟩ := exists_holds hvisit h hf
  obtain ⟨hfile, hrange⟩ := hholds.facts.functions s hs
  exact ⟨f, hf, hfile.symm, content, hfile ▸ hholds.read, hrange⟩

theorem located_of_placeOf (hpaths : (rs.map FileRecord.path).Nodup) {length : Nat}
    (hpos : 0 < length) {p : Position} {o : Occurrence}
    (ho : PlaceOf (normalizedOf index) length p o) :
    Located read (filesOf index) o.file o.first o.last := by
  have hc := corpus_of_indexAll hvisit h hpaths
  obtain ⟨hfile, n, hn, hpath, hfirst, hlast⟩ := ho
  have hordered := (hc.number_le_iff hn hfirst hlast).2 (by omega)
  obtain ⟨f, hf, rfl⟩ := List.mem_map.1 hn
  obtain ⟨-, content, hholds⟩ := exists_holds hvisit h hf
  obtain ⟨language, hlines⟩ := hholds.lines
  -- Both ends of a place are numbers of normalized lines, which are numbers of lines of the text.
  have hnumber {i : Nat} {k : Int} (hk : f.normalized.numbers[i]? = some k) :
      1 ≤ k ∧ k ≤ (linesOf content).length := by
    obtain ⟨l, hl, rfl⟩ := List.mem_map.1 (List.mem_of_getElem? hk)
    rw [hlines] at hl
    obtain ⟨hge, hle, -⟩ := normalizedLines_number hl
    exact ⟨hge, hle⟩
  have hfile : f.record.path = o.file := by rw [hfile, ← hpath, hholds.path]
  exact ⟨f, hf, hfile, content, hfile ▸ hholds.read, (hnumber hfirst).1, hordered,
    (hnumber hlast).2⟩

theorem located_of_mem_ranges {known : String → Bool} {a b : String} {range : LineRange}
    (hrange : range ∈ (DependencyGraph.ofFiles (normalizedOf index) known).ranges a b) :
    Located read (filesOf index) a range.1 range.2 := by
  rw [DependencyGraph.ranges_ofFiles] at hrange
  obtain ⟨n, hn, hrange⟩ := List.mem_flatMap.1 hrange
  obtain ⟨f, hf, rfl⟩ := List.mem_map.1 hn
  split at hrange
  · rename_i ha
    obtain ⟨ref, href, -, -, rfl⟩ := mem_importRanges.1 hrange
    obtain ⟨-, content, hholds⟩ := exists_holds hvisit h hf
    have hpath : f.record.path = a := by rw [ha, hholds.path]
    exact ⟨f, hf, hpath, content, hpath ▸ hholds.read, hholds.facts.imports ref href⟩
  · cases hrange

/-- A place has no more lines than are read. -/
theorem length_le_linesRead {path : String} {first last : Int}
    (hplace : Located read (filesOf index) path first last) :
    last - first + 1 ≤ linesRead read rs := by
  obtain ⟨f, hf, rfl, content, hread, hrange⟩ := hplace
  obtain ⟨hr, -⟩ := exists_holds hvisit h hf
  have hle : lineCount read f.record.path ≤ linesRead read rs :=
    List.le_sum_of_mem (List.mem_map_of_mem hr)
  rw [lineCount, hread] at hle
  have := hrange.positive
  have := hrange.inside
  dsimp only at hle
  omega

end

end EvidenceLock
