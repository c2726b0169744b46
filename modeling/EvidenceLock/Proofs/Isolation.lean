import EvidenceLock.Proofs.Indexed

/-!
# Records are indexed independently of each other

An indexer takes its records one after the other, and what it notes of one of them depends on that
record only. So its run gives the files and the skipped paths of an index (`Indexer.indexAll_eq`),
whatever it skipped in earlier runs (`Indexer.indexAll_after`), and two runs that read and parse the
other records alike (`Indexer.Alike`) note the same of them. One kind of record is not kept apart:
to read a path with a null character is a fault, which ends the run (`Garbled`).
-/

namespace EvidenceLock

/-- The extractors answer, or they cannot parse a file. -/
def Visitors.Parse (visit : Visitors) : Prop :=
  ∀ {l content path e}, visit l content path = .error e →
    ∃ file language reason, e = .failure (.parsing file language reason)

theorem Visitors.Parse.skips {visit : Visitors} (h : visit.Parse) : visit.Skips := by
  intro l content path e he
  obtain ⟨file, language, reason, rfl⟩ := h he
  rfl

/-! ## The paths of an index -/

section
variable {read : Reader} {visit : Visitors} {rs : List FileRecord} {index : List Indexing}

theorem pairwise_sortRecords (hpaths : (rs.map FileRecord.path).Nodup) :
    ((sortRecords rs).map FileRecord.path).Pairwise (· < ·) :=
  List.pairwise_map.2 (pairwise_lt_mergeSort (fun _ _ => decide_eq_true_iff) hpaths)

/-- Files and skipped paths keep the order of the records. -/
theorem indexAll_sublist (h : indexAll read visit rs = .ok index) :
    ((filesOf index).map fun f => f.record.path).Sublist ((sortRecords rs).map FileRecord.path) ∧
      (skippedOf index).Sublist ((sortRecords rs).map FileRecord.path) := by
  have hindex := Outcome.forall₂_of_mapM_eq_ok h
  clear h
  generalize sortRecords rs = sorted at hindex
  induction hindex with
  | nil => exact ⟨.slnil, .slnil⟩
  | cons hx _ ih =>
    obtain ⟨hfiles, hskipped⟩ := ih
    rcases indexOrSkip_cases hx with ⟨f, rfl, hf⟩ | ⟨why, rfl⟩
    · rw [filesOf_done, skippedOf_done, List.map_cons, List.map_cons, indexFile_record hf]
      exact ⟨hfiles.cons_cons _, hskipped.cons _⟩
    · rw [filesOf_skipped, skippedOf_skipped, List.map_cons]
      exact ⟨hfiles.cons _, hskipped.cons_cons _⟩

/-! ## All records but one -/

/-- Two runs note the same of every path but one. -/
structure SameElsewhere (path : String) (files files' : List IndexedFile)
    (skipped skipped' : List String) : Prop where
  files : files.filter (fun f => f.record.path != path) =
    files'.filter fun f => f.record.path != path
  skipped : skipped.filter (· != path) = skipped'.filter (· != path)

/-- What comes of a record is not seen at other paths. -/
theorem filter_cons_of_path (index : List Indexing) {path : String} {r : FileRecord} {y : Indexing}
    (h : indexOrSkip read visit r = .ok y) (hr : r.path = path) :
    (filesOf (y :: index)).filter (fun f => f.record.path != path) =
        (filesOf index).filter (fun f => f.record.path != path) ∧
      (skippedOf (y :: index)).filter (· != path) = (skippedOf index).filter (· != path) := by
  rcases indexOrSkip_cases h with ⟨f, rfl, hf⟩ | ⟨why, rfl⟩
  · have hpath : (f.record.path != path) = false := by simp [indexFile_record hf, hr]
    rw [filesOf_done, skippedOf_done, List.filter_cons_of_neg (by simp [hpath])]
    exact ⟨rfl, rfl⟩
  · rw [filesOf_skipped, skippedOf_skipped, List.filter_cons_of_neg (by simp [hr])]
    exact ⟨rfl, rfl⟩

theorem filesOf_cons (y : Indexing) : filesOf (y :: index) = y.file?.toList ++ filesOf index := by
  cases y <;> rfl

theorem skippedOf_cons (y : Indexing) :
    skippedOf (y :: index) = y.skippedPath?.toList ++ skippedOf index := by
  cases y <;> rfl

/-- **Two indexes whose records come out alike but at one path** say the same elsewhere. -/
theorem sameElsewhere_of_same {read' : Reader} {visit' : Visitors} {index' : List Indexing}
    {path : String} (hindex : rs.mapM (indexOrSkip read visit) = .ok index)
    (hindex' : rs.mapM (indexOrSkip read' visit') = .ok index')
    (hsame : ∀ r ∈ rs, r.path ≠ path →
      Agree Indexing.Same (indexOrSkip read visit r) (indexOrSkip read' visit' r)) :
    SameElsewhere path (filesOf index) (filesOf index') (skippedOf index) (skippedOf index') := by
  induction rs generalizing index index' with
  | nil =>
    cases hindex
    cases hindex'
    exact ⟨rfl, rfl⟩
  | cons r rs ih =>
    rw [List.mapM_cons] at hindex hindex'
    obtain ⟨y, hy, hindex⟩ := Outcome.bind_eq_ok.1 hindex
    obtain ⟨ys, hys, hindex⟩ := Outcome.bind_eq_ok.1 hindex
    obtain ⟨y', hy', hindex'⟩ := Outcome.bind_eq_ok.1 hindex'
    obtain ⟨ys', hys', hindex'⟩ := Outcome.bind_eq_ok.1 hindex'
    cases hindex
    cases hindex'
    obtain ⟨hfiles, hskipped⟩ := ih hys hys' fun s hs => hsame s (List.mem_cons_of_mem r hs)
    by_cases hr : r.path = path
    · obtain ⟨hfile, hskip⟩ := filter_cons_of_path ys hy hr
      obtain ⟨hfile', hskip'⟩ := filter_cons_of_path ys' hy' hr
      exact ⟨by rw [hfile, hfile', hfiles], by rw [hskip, hskip', hskipped]⟩
    · have hr := hsame r List.mem_cons_self hr
      rw [hy, hy'] at hr
      cases hr with
      | ok hr =>
        constructor
        · rw [filesOf_cons, filesOf_cons, List.filter_append, List.filter_append, hr.1, hfiles]
        · rw [skippedOf_cons, skippedOf_cons, List.filter_append, List.filter_append, hr.2,
            hskipped]

end

/-! ## Runs of an indexer -/

namespace Indexer

/-- The run goes on from what it has done, and notes what it skips. -/
theorem indexFrom_eq {x : Indexer} {h : Host} {rs : List FileRecord} {index : List Indexing}
    (hindex : rs.mapM (indexOrSkip (x.reader h) x.visit) = .ok index) (done : List IndexedFile) :
    x.indexFrom h done rs =
      (.ok (done ++ filesOf index), { x with skipped := x.skipped ++ skippedOf index }) := by
  induction rs generalizing x done index with
  | nil =>
    cases hindex
    simp [indexFrom, filesOf, skippedOf]
  | cons r rs ih =>
    rw [List.mapM_cons] at hindex
    obtain ⟨y, hy, hindex⟩ := Outcome.bind_eq_ok.1 hindex
    obtain ⟨ys, hys, hindex⟩ := Outcome.bind_eq_ok.1 hindex
    cases hindex
    rw [indexFrom]
    unfold indexOrSkip at hy
    split at hy
    · rename_i f hf
      cases hy
      simp only [ih hys, filesOf_done, skippedOf_done, List.append_assoc, List.singleton_append]
    · rename_i e he
      split at hy
      · rename_i why hwhy
        cases hy
        -- Noting the path changes neither how texts are read nor the extractors.
        have hrest := @ih { x with skipped := x.skipped ++ [r.path] } ys hys done
        simp only [hrest, filesOf_skipped, skippedOf_skipped, List.append_assoc,
          List.singleton_append]
      · cases hy

/-- **A run of an indexer** gives the files of the index and notes its skipped paths. -/
theorem indexAll_eq {x : Indexer} {h : Host} {rs : List FileRecord} {index : List Indexing}
    (hindex : EvidenceLock.indexAll (x.reader h) x.visit rs = .ok index) :
    x.indexAll h rs = (.ok (filesOf index), { x with skipped := skippedOf index }) :=
  indexFrom_eq (x := { x with skipped := [] }) hindex []

/-- A run ends as the indexing of its records does. -/
theorem indexFrom_fst (x : Indexer) (h : Host) (done : List IndexedFile) (rs : List FileRecord) :
    (x.indexFrom h done rs).1 =
      (rs.mapM (indexOrSkip (x.reader h) x.visit)).map fun index => done ++ filesOf index := by
  induction rs generalizing x done with
  | nil => exact congrArg Except.ok (List.append_nil done).symm
  | cons r rs ih =>
    rw [List.mapM_cons, indexFrom, indexOrSkip]
    cases indexFile (x.reader h) x.visit r with
    | ok f =>
      dsimp only
      rw [ih, Outcome.ok_bind]
      cases rs.mapM (indexOrSkip (x.reader h) x.visit) with
      | ok index => exact congrArg Except.ok (List.append_assoc done [f] (filesOf index))
      | error e => rfl
    | error e =>
      dsimp only
      cases skippable e with
      | none => rfl
      | some why =>
        dsimp only
        rw [ih, Outcome.ok_bind]
        change (rs.mapM (indexOrSkip (x.reader h) x.visit)).map _ = _
        cases rs.mapM (indexOrSkip (x.reader h) x.visit) <;> rfl

/-- **A null character ends the run**, however many records come before and after. -/
theorem indexAll_of_garbled {x : Indexer} (hvisit : x.visit.Skips) (h : Host)
    {rs : List FileRecord} (hgarbled : ∃ r ∈ rs, Garbled x.root x.overlay r) :
    (x.indexAll h rs).1 = .error nullFault := by
  have herror : EvidenceLock.indexAll (x.reader h) x.visit rs = .error nullFault :=
    EvidenceLock.indexAll_of_garbled hvisit h hgarbled
  rw [indexAll, indexFrom_fst]
  change (EvidenceLock.indexAll (x.reader h) x.visit rs).map _ = _
  rw [herror]
  rfl

/-- A run changes nothing about an indexer but what it notes as skipped. -/
theorem indexFrom_snd (x : Indexer) (h : Host) (done : List IndexedFile) (rs : List FileRecord) :
    ∃ skipped, (x.indexFrom h done rs).2 = { x with skipped } := by
  induction rs generalizing x done with
  | nil => exact ⟨x.skipped, rfl⟩
  | cons r rs ih =>
    rw [indexFrom]
    split
    · exact ih x _
    · split
      · exact ih { x with skipped := x.skipped ++ [r.path] } done
      · exact ⟨x.skipped, rfl⟩

/-- The indexer after some runs, each on its own host and records. -/
def after (x : Indexer) (runs : List (Host × List FileRecord)) : Indexer :=
  runs.foldl (fun y run => (y.indexAll run.1 run.2).2) x

theorem exists_after (x : Indexer) (runs : List (Host × List FileRecord)) :
    ∃ skipped, x.after runs = { x with skipped } := by
  induction runs generalizing x with
  | nil => exact ⟨x.skipped, rfl⟩
  | cons run runs ih =>
    obtain ⟨noted, hnoted⟩ := indexFrom_snd { x with skipped := [] } run.1 [] (sortRecords run.2)
    obtain ⟨skipped, hskipped⟩ := ih (x.indexAll run.1 run.2).2
    refine ⟨skipped, ?_⟩
    rw [after, List.foldl_cons]
    exact hskipped.trans (by rw [indexAll, hnoted])

/-- **Earlier runs leave no trace**, whatever they were and however they ended. -/
theorem indexAll_after (x : Indexer) (runs : List (Host × List FileRecord)) (h : Host)
    (rs : List FileRecord) : (x.after runs).indexAll h rs = x.indexAll h rs := by
  obtain ⟨skipped, hskipped⟩ := x.exists_after runs
  rw [hskipped, indexAll, indexAll]

/-- A path stands for the same text and the same structure in two runs: for its overlay entry or
its file on disk, and what the extractors make of it. -/
structure Alike (x x' : Indexer) (h h' : Host) (path : String) : Prop where
  overlay : x.overlay.find? path = x'.overlay.find? path
  disk : x.overlay.find? path = none →
    SameBytes (h.readBytes (Path.resolveUnder x.root path))
      (h'.readBytes (Path.resolveUnder x'.root path))
  visit : ∀ language content, x.visit language content path = x'.visit language content path

variable {x x' : Indexer} {h h' : Host}

theorem Alike.readsAlike {path : String} (halike : x.Alike x' h h' path) :
    ReadsAlike (x.reader h) (x'.reader h') path := by
  rw [ReadsAlike, Unreadable, Unreadable, reader, reader, Reader.through, Reader.through,
    ← halike.overlay]
  cases hfind : x.overlay.find? path with
  | some new => exact .inl rfl
  | none => exact Host.readsAlike_of_sameBytes (halike.disk hfind)

/-- A record that ends one run ends the other. -/
theorem Alike.garbled {r : FileRecord} (halike : x.Alike x' h h' r.path)
    (hr : Garbled x'.root x'.overlay r) : Garbled x.root x.overlay r := by
  obtain ⟨hlanguage, hnone, hnull⟩ := hr
  rw [← halike.overlay] at hnone
  refine ⟨hlanguage, hnone, ?_⟩
  rw [← Bool.or_eq_true, ← Path.holdsNull_resolveUnder] at hnull ⊢
  exact Host.readBytes_eq_null.1 ((halike.disk hnone).null.2 (Host.readBytes_eq_null.2 hnull))

theorem Alike.indexOrSkip {r : FileRecord} (halike : x.Alike x' h h' r.path) :
    Agree Indexing.Same (indexOrSkip (x.reader h) x.visit r)
      (indexOrSkip (x'.reader h') x'.visit r) := by
  have hvisit : EvidenceLock.indexOrSkip (x'.reader h') x'.visit r =
      EvidenceLock.indexOrSkip (x'.reader h') x.visit r := by
    unfold EvidenceLock.indexOrSkip indexFile
    simp only [halike.visit]
  rw [hvisit]
  exact indexOrSkip_agree halike.readsAlike

/-- Another overlay entry for a path leaves the other paths alike. -/
theorem alike_insert (x : Indexer) (h : Host) {path other : String} (text : String)
    (hne : other ≠ path) :
    x.Alike { x with overlay := x.overlay.insert path text } h h other := by
  refine ⟨?_, fun _ => .refl _, fun _ _ => rfl⟩
  rw [Keyed.find?_insert, if_neg (by simpa using hne)]

/-- Another content on disk leaves the paths alike that lie apart from it. -/
theorem alike_write (x : Indexer) (h : Host) {path other : String} (bytes : List Nat)
    (hp : h.Plain (Path.resolveUnder x.root path))
    (ho : h.Plain (Path.resolveUnder x.root other))
    (hapart : Apart (h.namesOf (Path.resolveUnder x.root path))
      (h.namesOf (Path.resolveUnder x.root other))) :
    x.Alike x h (h.write (Path.resolveUnder x.root path) bytes) other :=
  ⟨rfl, fun _ => Host.sameBytes_write_apart hp ho hapart bytes, fun _ _ => rfl⟩

/-- Files and skipped paths are the paths of the records in two parts, each in order. -/
structure Divides (rs : List FileRecord) (files : List IndexedFile) (skipped : List String) :
    Prop where
  filesOrdered : (files.map fun f => f.record.path).Pairwise (· < ·)
  skippedOrdered : skipped.Pairwise (· < ·)
  disjoint : (files.map fun f => f.record.path).Disjoint skipped
  all : ∀ path, path ∈ rs.map FileRecord.path ↔
    path ∈ files.map (fun f => f.record.path) ∨ path ∈ skipped

theorem divides_of_indexAll {read : Reader} {visit : Visitors} {rs : List FileRecord}
    {index : List Indexing} (hpaths : (rs.map FileRecord.path).Nodup)
    (hindex : EvidenceLock.indexAll read visit rs = .ok index) :
    Divides rs (filesOf index) (skippedOf index) := by
  have hsorted := pairwise_sortRecords hpaths
  obtain ⟨hfiles, hskipped⟩ := indexAll_sublist hindex
  have hperm := indexAll_perm hindex
  refine ⟨hsorted.sublist hfiles, hsorted.sublist hskipped, ?_, fun path => ?_⟩
  · exact List.disjoint_of_nodup_append (hperm.nodup_iff.2 hpaths)
  · rw [← hperm.mem_iff, List.mem_append]

/-- **Indexing divides its records and keeps failures apart**, when the extractors fail only on
files they cannot parse and no record is read under a path with a null character: a run answers, its
files and its skipped paths are in order and divide the paths of the records, and earlier runs make
no difference. Where another run differs in what it reads or parses under one path only, it answers
as well and notes the same of all the others. With such a record in either run, that run ends in a
fault. -/
theorem indexAll_divides {rs : List FileRecord} (hvisit : x.visit.Parse)
    (hpaths : (rs.map FileRecord.path).Nodup) (h : Host) :
    ((∃ r ∈ rs, Garbled x.root x.overlay r) → (x.indexAll h rs).1 = .error nullFault) ∧
    ((∀ r ∈ rs, ¬ Garbled x.root x.overlay r) →
      ∃ files skipped, x.indexAll h rs = (.ok files, { x with skipped }) ∧
        Divides rs files skipped ∧
        (∀ runs, (x.after runs).indexAll h rs = (.ok files, { x with skipped })) ∧
        ∀ path (x' : Indexer) h', x'.visit.Parse →
          (∀ r ∈ rs, r.path ≠ path → x.Alike x' h h' r.path) →
          (∀ r ∈ rs, r.path = path → ¬ Garbled x'.root x'.overlay r) →
          ∃ files' skipped', x'.indexAll h' rs = (.ok files', { x' with skipped := skipped' }) ∧
            SameElsewhere path files files' skipped skipped') := by
  refine ⟨indexAll_of_garbled hvisit.skips h, fun hclean => ?_⟩
  obtain ⟨index, hindex⟩ := exists_indexAll_of_not_garbled hvisit.skips h hclean
  have hrun := indexAll_eq hindex
  refine ⟨filesOf index, skippedOf index, hrun, divides_of_indexAll hpaths hindex,
    fun runs => (x.indexAll_after runs h rs).trans hrun, ?_⟩
  intro path x' h' hvisit' halike hclean'
  have hother : ∀ r ∈ rs, ¬ Garbled x'.root x'.overlay r := by
    intro r hr hgarbled
    by_cases hpath : r.path = path
    · exact hclean' r hr hpath hgarbled
    · exact hclean r hr ((halike r hr hpath).garbled hgarbled)
  obtain ⟨index', hindex'⟩ := exists_indexAll_of_not_garbled hvisit'.skips h' hother
  refine ⟨filesOf index', skippedOf index', indexAll_eq hindex', ?_⟩
  exact sameElsewhere_of_same hindex hindex' fun r hr hne =>
    (halike r (mem_sortRecords.1 hr) hne).indexOrSkip

end Indexer

/-- The extractor of one language rejects everything, the others are as they are. -/
def Visitors.rejecting (visit : Visitors) (language : Language) : Visitors :=
  fun l content path =>
    if l = language then fail (.parsing path language.name "rejected") else visit l content path

/-- An indexer that cannot parse one of the languages. -/
def pickyIndexer : Indexer :=
  { root := "/p", visit := Syntax.visitors.rejecting .python, skipped := ["old.ts"] }

/-- The same with an overlay entry for one path. -/
def pickyFilled : Indexer :=
  { pickyIndexer with overlay := pickyIndexer.overlay.insert "missing.ts" "let a = 1;\n" }

/-- A folder with two sources and a file of no language. -/
def mixedHost : Host :=
  { root := .folder [("p", .folder [("gen.py", .file (Text.Utf8.encode "x = 1\n")),
      ("notes.md", .file (Text.Utf8.encode "notes\n")),
      ("ok.ts", .file (Text.Utf8.encode "let a = 1;\n"))])] }

/-- Records of a folder, one of which is not there. -/
def mixedRecords : List FileRecord :=
  [.ofPath "ok.ts", .ofPath "missing.ts", .ofPath "notes.md", .ofPath "gen.py"]

/-- The folder with the missing file in it. -/
def mixedHostFilled : Host :=
  mixedHost.write (Path.resolveUnder pickyIndexer.root "missing.ts")
    (Text.Utf8.encode "let a = 1;\n")

theorem pickyIndexer_parse : pickyIndexer.visit.Parse := by
  intro l content path e he
  simp only [pickyIndexer, Visitors.rejecting] at he
  split at he
  · cases he
    exact ⟨_, _, _, rfl⟩
  · cases he

theorem not_garbled_mixed {root : String} (hroot : Path.holdsNull root = false)
    (overlay : Overlay) : ∀ r ∈ mixedRecords, ¬ Garbled root overlay r := by
  intro r hr hgarbled
  have hclean : ∀ r ∈ mixedRecords, Path.holdsNull r.path = false := by decide +kernel
  rcases hgarbled.null with hnull | hnull
  · rw [hroot] at hnull
    cases hnull
  · rw [hclean r hr] at hnull
    cases hnull

/-- Writing the missing file leaves the other records alike. -/
theorem alike_mixedHostFilled {r : FileRecord} (hr : r ∈ mixedRecords)
    (hne : r.path ≠ "missing.ts") :
    pickyIndexer.Alike pickyIndexer mixedHost mixedHostFilled r.path := by
  have hplain : ∀ p ∈ mixedRecords.map FileRecord.path,
      Path.resolveUnder pickyIndexer.root p ≠ "" ∧
        Path.holdsNull (Path.resolveUnder pickyIndexer.root p) = false ∧
        ∀ n ∈ mixedHost.namesOf (Path.resolveUnder pickyIndexer.root p),
          n ≠ ".." ∧ n.utf8ByteSize ≤ 255 := by
    decide +kernel
  have hapart : ∀ p ∈ mixedRecords.map FileRecord.path, p ≠ "missing.ts" →
      ¬ mixedHost.namesOf (Path.resolveUnder pickyIndexer.root "missing.ts") <+:
          mixedHost.namesOf (Path.resolveUnder pickyIndexer.root p) ∧
        ¬ mixedHost.namesOf (Path.resolveUnder pickyIndexer.root p) <+:
          mixedHost.namesOf (Path.resolveUnder pickyIndexer.root "missing.ts") := by
    decide +kernel
  have hplain {p : String} (hp : p ∈ mixedRecords.map FileRecord.path) :
      mixedHost.Plain (Path.resolveUnder pickyIndexer.root p) :=
    have ⟨hgiven, hclean, hnames⟩ := hplain p hp
    ⟨hgiven, hclean, hnames⟩
  have hmissing : "missing.ts" ∈ mixedRecords.map FileRecord.path := by decide +kernel
  have hpath : r.path ∈ mixedRecords.map FileRecord.path := List.mem_map_of_mem hr
  exact pickyIndexer.alike_write mixedHost _ (hplain hmissing) (hplain hpath) (hapart _ hpath hne)

/-- What cannot be read, parsed or assigned to a language is skipped; once an overlay or the folder
has the missing record it is indexed, and the others are as before. -/
theorem indexAll_divides_mixed :
    pickyIndexer.visit.Parse ∧ (mixedRecords.map FileRecord.path).Nodup ∧
    (∀ r ∈ mixedRecords, ¬ Garbled pickyIndexer.root pickyIndexer.overlay r) ∧
    ∃ files skipped, pickyIndexer.indexAll mixedHost mixedRecords =
        (.ok files, { pickyIndexer with skipped }) ∧
      files.map (fun f => f.record.path) = ["ok.ts"] ∧
      skipped = ["gen.py", "missing.ts", "notes.md"] ∧
      (∃ files' skipped', pickyFilled.indexAll mixedHost mixedRecords =
          (.ok files', { pickyFilled with skipped := skipped' }) ∧
        files'.map (fun f => f.record.path) = ["missing.ts", "ok.ts"] ∧
        SameElsewhere "missing.ts" files files' skipped skipped') ∧
      ∃ files' skipped', pickyIndexer.indexAll mixedHostFilled mixedRecords =
          (.ok files', { pickyIndexer with skipped := skipped' }) ∧
        files'.map (fun f => f.record.path) = ["missing.ts", "ok.ts"] ∧
        SameElsewhere "missing.ts" files files' skipped skipped' := by
  have hpaths : (mixedRecords.map FileRecord.path).Nodup := by decide +kernel
  have hclean := not_garbled_mixed (show Path.holdsNull pickyIndexer.root = false by decide +kernel)
  obtain ⟨files, skipped, hrun, -, -, hother⟩ :=
    (Indexer.indexAll_divides pickyIndexer_parse hpaths mixedHost).2 (hclean _)
  obtain ⟨filesO, skippedO, hrunO, hsameO⟩ := hother "missing.ts" pickyFilled mixedHost
    pickyIndexer_parse (fun r _ hne => pickyIndexer.alike_insert mixedHost "let a = 1;\n" hne)
    fun r hr _ => hclean _ r hr
  obtain ⟨filesD, skippedD, hrunD, hsameD⟩ := hother "missing.ts" pickyIndexer mixedHostFilled
    pickyIndexer_parse (fun r hr hne => alike_mixedHostFilled hr hne) fun r hr _ => hclean _ r hr
  have hsorted : sortRecords mixedRecords =
      [.ofPath "gen.py", .ofPath "missing.ts", .ofPath "notes.md", .ofPath "ok.ts"] := by
    simp [sortRecords, mixedRecords, FileRecord.ofPath, List.mergeSort]
  -- The paths that are indexed and skipped, found by running the three indexers.
  have hfound : ((pickyIndexer.indexAll mixedHost mixedRecords).1.toOption.map fun fs =>
        fs.map fun f => f.record.path) = some ["ok.ts"] ∧
      (pickyIndexer.indexAll mixedHost mixedRecords).2.skipped =
        ["gen.py", "missing.ts", "notes.md"] ∧
      ((pickyFilled.indexAll mixedHost mixedRecords).1.toOption.map fun fs =>
        fs.map fun f => f.record.path) = some ["missing.ts", "ok.ts"] ∧
      ((pickyIndexer.indexAll mixedHostFilled mixedRecords).1.toOption.map fun fs =>
        fs.map fun f => f.record.path) = some ["missing.ts", "ok.ts"] := by
    rw [Indexer.indexAll, Indexer.indexAll, Indexer.indexAll, hsorted]
    decide +kernel
  rw [hrun, hrunO, hrunD] at hfound
  obtain ⟨hfiles, hskipped, hfilesO, hfilesD⟩ := hfound
  exact ⟨pickyIndexer_parse, hpaths, hclean _, files, skipped, hrun, Option.some.inj hfiles,
    hskipped, ⟨filesO, skippedO, hrunO, Option.some.inj hfilesO, hsameO⟩,
    filesD, skippedD, hrunD, Option.some.inj hfilesD, hsameD⟩

/-- **A record that is not skipped**: nothing can stand under its path, and to index it ends the run
for all records. -/
theorem indexAll_garbled : pickyIndexer.visit.Parse ∧
    ([FileRecord.ofPath "a\x00.py", .ofPath "ok.ts"].map FileRecord.path).Nodup ∧
    (pickyIndexer.indexAll mixedHost [.ofPath "a\x00.py", .ofPath "ok.ts"]).1 =
      .error nullFault := by
  have hgarbled : Garbled pickyIndexer.root pickyIndexer.overlay (.ofPath "a\x00.py") :=
    ⟨⟨.python, by decide +kernel⟩, by decide +kernel, .inr (by decide +kernel)⟩
  exact ⟨pickyIndexer_parse, by decide +kernel, Indexer.indexAll_of_garbled
    pickyIndexer_parse.skips mixedHost ⟨_, List.mem_cons_self, hgarbled⟩⟩

end EvidenceLock
