import EvidenceLock.Proofs.HunkLines

/-!
# Patches that are written

Patches are written as a diff (`Diff.render`), and reading what was written gives them back
(`Diff.parse_render`). A row is read as what it was written from whatever stands in it, since its
marker or header is in front; only a removed and an added line that together look like a pair of
file headers (`LooksLikeHeaders`) are taken for one, and blank rows at the very end are dropped.
-/

namespace EvidenceLock

open EvidenceLock.Text EvidenceLock.Decimal

/-! ## The rows of a patch -/

/-- A path as a header has it; only a file stands in the folder of its side. -/
def Diff.pathRow (side : Char) (path : String) : Diff.Line :=
  if path = noFile then path.toList else side :: '/' :: path.toList

def Hunk.header (h : Hunk) : Diff.Line :=
  Diff.rangesRow h.oldStart.toNat h.oldCount.toNat h.newStart.toNat h.newCount.toNat ++
    ' ' :: h.section_.toList

def Hunk.rows (h : Hunk) : List Diff.Line := h.header :: h.lines.map HunkLine.row

def FilePatch.rows (p : FilePatch) : List Diff.Line :=
  (Diff.oldMark ++ Diff.pathRow 'a' p.oldPath) :: (Diff.newMark ++ Diff.pathRow 'b' p.newPath) ::
    p.hunks.flatMap Hunk.rows

/-- Patches written as a diff. -/
def Diff.render (ps : List FilePatch) : String :=
  joinLines ((ps.flatMap FilePatch.rows).map String.ofList)

/-- A removed line and an added line, with only blank context between them, whose rows begin as an
old-file and a new-file header do. -/
def LooksLikeHeaders (ls : List HunkLine) : Prop :=
  ∃ before removed between added after,
    ls = before ++ ⟨.remove, removed⟩ :: (between ++ ⟨.add, added⟩ :: after) ∧
      "-- ".toList <+: removed.toList ∧ "++ ".toList <+: added.toList ∧
      ∀ l ∈ between, l.kind = .context ∧ allBlank l.text.toList = true

/-- What a hunk must be for its rows to say all of it. -/
structure Hunk.Printable (h : Hunk) : Prop where
  numbers : ∀ n ∈ [h.oldStart, h.oldCount, h.newStart, h.newCount], 0 ≤ n ∧ writable n = true
  trimmed : trim h.section_.toList = h.section_.toList
  lineFeed : '\n' ∉ h.section_.toList
  lines : ∀ l ∈ h.lines, '\n' ∉ l.text.toList ∧ l.text.toList.getLast? ≠ some '\r'
  noHeaders : ¬ LooksLikeHeaders h.lines

/-- What a patch must be for its rows to say all of it. Its file is that of the new header unless
that is none. -/
structure FilePatch.Printable (p : FilePatch) : Prop where
  file : p.file = if p.newPath = noFile then p.oldPath else p.newPath
  oldPath : p.oldPath = noFile ∨ Diff.PlainPath p.oldPath
  newPath : p.newPath = noFile ∨ Diff.PlainPath p.newPath
  hunks : ∀ h ∈ p.hunks, h.Printable

namespace Diff

/-! ## Lines that look like headers -/

theorem newHeader?_context (text : String) (rest : List Line) :
    (newHeader? (HunkLine.row ⟨.context, text⟩ :: rest)).isSome =
      (allBlank text.toList && (newHeader? rest).isSome) := by
  have hmark : startsWith (HunkLine.row ⟨.context, text⟩) newMark = false := rfl
  have hindex : startsWith (HunkLine.row ⟨.context, text⟩) "index ".toList = false := rfl
  have hblank : allBlank (HunkLine.row ⟨.context, text⟩) = allBlank text.toList := by
    simp [allBlank, HunkLine.row, LineKind.marker, isBlank_space]
  rw [newHeader?, hmark, hindex, hblank]
  cases allBlank text.toList <;> simp

/-- Rows of a hunk complete an old-file header when blank context and then a row that begins as a
new-file header come first. -/
theorem newHeader?_rows {ls : List HunkLine} {rest : List Line}
    (hrest : newHeader? rest = none) :
    (newHeader? (ls.map HunkLine.row ++ rest)).isSome = true ↔
      ∃ between added after, ls = between ++ ⟨.add, added⟩ :: after ∧
        "++ ".toList <+: added.toList ∧
        ∀ l ∈ between, l.kind = .context ∧ allBlank l.text.toList = true := by
  induction ls with
  | nil => simp [hrest]
  | cons l ls ih =>
    obtain ⟨kind, text⟩ := l
    rw [List.map_cons, List.cons_append]
    constructor
    · intro h
      cases kind with
      | remove =>
        rw [newHeader?_remove] at h
        cases h
      | add =>
        rw [newHeader?_add] at h
        exact ⟨[], text, ls, rfl, List.isPrefixOf_iff_prefix.1 h, by simp⟩
      | context =>
        rw [newHeader?_context, Bool.and_eq_true] at h
        obtain ⟨between, added, after, rfl, hadded, hbetween⟩ := ih.1 h.2
        refine ⟨⟨.context, text⟩ :: between, added, after, rfl, hadded, ?_⟩
        rintro m (_ | ⟨_, hm⟩)
        · exact ⟨rfl, h.1⟩
        · exact hbetween m hm
    · rintro ⟨between, added, after, hls, hadded, hbetween⟩
      cases between with
      | nil =>
        obtain ⟨hl, -⟩ := List.cons.inj hls
        cases hl
        rw [newHeader?_add]
        exact List.isPrefixOf_iff_prefix.2 hadded
      | cons m between =>
        obtain ⟨hl, hrest'⟩ := List.cons.inj hls
        obtain ⟨hkind, hblank⟩ := hbetween m List.mem_cons_self
        cases hl
        cases hkind
        rw [newHeader?_context, hblank, Bool.true_and]
        exact ih.2 ⟨between, added, after, hrest', hadded,
          fun k hk => hbetween k (List.mem_cons_of_mem _ hk)⟩

/-- The lines of a hunk hold no start of a file exactly if no two of them look like headers. -/
theorem noneStartsFile_iff {ls : List HunkLine} {rest : List Line}
    (hrest : newHeader? rest = none) : NoneStartsFile rest ls ↔ ¬ LooksLikeHeaders ls := by
  have hstarts : ∀ l ls, startsFile (HunkLine.row l) (ls.map HunkLine.row ++ rest) = true ↔
      l.kind = .remove ∧ "-- ".toList <+: l.text.toList ∧
        ∃ between added after, ls = between ++ ⟨.add, added⟩ :: after ∧
          "++ ".toList <+: added.toList ∧
          ∀ l ∈ between, l.kind = .context ∧ allBlank l.text.toList = true := by
    intro l ls
    rw [startsFile_row, Bool.and_eq_true, newHeader?_rows hrest, Bool.and_eq_true, decide_eq_true_eq,
      and_assoc]
    exact and_congr_right fun _ => and_congr_left fun _ => List.isPrefixOf_iff_prefix
  -- The removed line is the first one, or there is such a line further on.
  induction ls with
  | nil =>
    refine iff_of_true trivial ?_
    rintro ⟨before, removed, between, added, after, hls, -⟩
    simp at hls
  | cons l ls ih =>
    have hcons : NoneStartsFile rest (l :: ls) ↔
        ¬ startsFile l.row (ls.map HunkLine.row ++ rest) = true ∧ ¬ LooksLikeHeaders ls :=
      and_congr Bool.eq_false_iff ih
    rw [hcons, hstarts, ← not_or, not_iff_not]
    constructor
    · rintro (⟨hkind, hremoved, between, added, after, rfl, hadded, hbetween⟩ | ⟨before, hbefore⟩)
      · obtain ⟨kind, text⟩ := l
        cases hkind
        exact ⟨[], text, between, added, after, rfl, hremoved, hadded, hbetween⟩
      · obtain ⟨removed, between, added, after, rfl, hlooks⟩ := hbefore
        exact ⟨l :: before, removed, between, added, after, rfl, hlooks⟩
    · rintro ⟨before, removed, between, added, after, hls, hremoved, hadded, hbetween⟩
      cases before with
      | nil =>
        obtain ⟨rfl, rfl⟩ := List.cons.inj hls
        exact .inl ⟨rfl, hremoved, between, added, after, rfl, hadded, hbetween⟩
      | cons m before =>
        obtain ⟨rfl, rfl⟩ := List.cons.inj hls
        exact .inr ⟨before, removed, between, added, after, rfl, hremoved, hadded, hbetween⟩

/-! ## Reading the rows -/

theorem startsWith_header (h : Hunk) : startsWith h.header hunkMark = true := rfl

theorem newHeader?_hunkRows {hs : List Hunk} {rest : List Line} (hrest : newHeader? rest = none) :
    newHeader? (hs.flatMap Hunk.rows ++ rest) = none := by
  cases hs with
  | nil => exact hrest
  | cons h hs => rfl

theorem newHeader?_fileRows (ps : List FilePatch) : newHeader? (ps.flatMap FilePatch.rows) = none := by
  cases ps with
  | nil => rfl
  | cons p ps => rfl

/-- A hunk, or a patch with its hunks, as it stands in what has been read: last lines first. -/
def lastFirst (h : Hunk) : Hunk := { h with lines := h.lines.reverse }

def patchLastFirst (p : FilePatch) : FilePatch :=
  { p with hunks := (p.hunks.map lastFirst).reverse }

theorem result_lastFirst {p : Progress} {ps : List FilePatch}
    (h : p.patches = (ps.map patchLastFirst).reverse) : p.result = ps := by
  have hhunk : ∀ k : Hunk, { lastFirst k with lines := (lastFirst k).lines.reverse } = k := by
    intro k
    simp [lastFirst]
  rw [Progress.result, h, List.reverse_reverse, List.map_map]
  refine (List.map_congr_left fun f _ => ?_).trans (List.map_id _)
  simp only [Function.comp_apply, patchLastFirst, List.reverse_reverse, List.map_map, id]
  congr 1
  exact (List.map_congr_left fun k _ => hhunk k).trans (List.map_id _)

theorem trim_trimEnd_space {cs : Line} (h : trim cs = cs) : trim (trimEnd (' ' :: cs)) = cs := by
  by_cases hcs : cs = []
  · rw [hcs]
    rfl
  · have hspace : trim (' ' :: cs) = trim cs := by
      rw [trim, trimStart, List.dropWhile_cons_of_pos isBlank_space, ← trimStart, ← trim]
    rw [trimEnd_cons (trimEnd_of_trim h) hcs, hspace, h]

/-- The header of a hunk is read as the hunk without its lines. -/
theorem hunkOfHeader_header {h : Hunk} (hprint : h.Printable) (number : Option Int) :
    hunkOfHeader h.header number = .ok { h with lines := [] } := by
  have hlf : '\n' ∉ ' ' :: h.section_.toList := by
    simpa using hprint.lineFeed
  have hnumber : ∀ n ∈ [h.oldStart, h.oldCount, h.newStart, h.newCount],
      ((n.toNat : Nat) : Int) = n ∧ writable (n.toNat : Nat) = true := by
    intro n hn
    obtain ⟨hnonneg, hwritable⟩ := hprint.numbers n hn
    have hcast : ((n.toNat : Nat) : Int) = n := Int.toNat_of_nonneg hnonneg
    exact ⟨hcast, (congrArg writable hcast).trans hwritable⟩
  simp only [List.forall_mem_cons] at hnumber
  obtain ⟨⟨hold, hold'⟩, ⟨holds, holds'⟩, ⟨hnew, hnew'⟩, ⟨hnews, hnews'⟩, -⟩ := hnumber
  rw [Hunk.header, hunkOfHeader_rangesRow _ _ _ _ hlf hold' holds' hnew' hnews' number, hold, holds,
    hnew, hnews, trim_trimEnd_space hprint.trimmed, String.ofList_toList]

/-- The rows of hunks become hunks of the current patch, then what follows them. -/
theorem readLines_hunkRows {p : Progress} {f : FilePatch} {ps : List FilePatch} {number : Int}
    {hs : List Hunk} {rest : List Line} (hp : p.patches = f :: ps)
    (hprint : ∀ h ∈ hs, h.Printable) (hrest : newHeader? rest = none) :
    ∃ q n, q.patches = { f with hunks := (hs.map lastFirst).reverse ++ f.hunks } :: ps ∧
      readLines p number 0 (hs.flatMap Hunk.rows ++ rest) = readLines q n 0 rest := by
  induction hs generalizing p f number with
  | nil => exact ⟨p, number, hp, rfl⟩
  | cons h hs ih =>
    have hh := hprint h List.mem_cons_self
    -- What follows the hunk cannot complete a header in it.
    have hheader : newHeader? (hs.flatMap Hunk.rows ++ rest) = none := newHeader?_hunkRows hrest
    have hnone := (noneStartsFile_iff hheader).2 hh.noHeaders
    obtain ⟨q, hq, hread⟩ := readLines_hunk number hp (startsWith_header h)
      (fun number => hunkOfHeader_header hh number) hnone
    obtain ⟨r, n, hr, hnext⟩ := @ih q _ (number + 1 + h.lines.length) hq
      fun k hk => hprint k (List.mem_cons_of_mem _ hk)
    refine ⟨r, n, ?_, ?_⟩
    · rw [hr]
      simp [lastFirst]
    · rw [List.flatMap_cons, Hunk.rows, List.append_assoc, List.cons_append, hread, hnext]

theorem headerPath_pathRow {path : String} (h : path = noFile ∨ PlainPath path) {side : Char}
    (hside : side = 'a' ∨ side = 'b') : headerPath (pathRow side path) = path := by
  rcases h with rfl | h
  · rfl
  · rw [pathRow, if_neg h.file, h.headerPath_eq hside]

/-- **The rows of patches** become these patches. -/
theorem readLines_patchRows {p : Progress} {number : Int} {ps : List FilePatch}
    (hprint : ∀ f ∈ ps, f.Printable) :
    ∃ q, q.patches = (ps.map patchLastFirst).reverse ++ p.patches ∧
      readLines p number 0 (ps.flatMap FilePatch.rows) = .ok q := by
  induction ps generalizing p number with
  | nil => exact ⟨p, rfl, rfl⟩
  | cons f ps ih =>
    have hf := hprint f List.mem_cons_self
    have hold := headerPath_pathRow hf.oldPath (.inl rfl)
    have hnew := headerPath_pathRow hf.newPath (.inr rfl)
    obtain ⟨q, n, hq, hread⟩ := @readLines_hunkRows (p.addFile f.oldPath f.newPath) _ p.patches
      (number + 1 + 1) f.hunks _ rfl hf.hunks (newHeader?_fileRows ps)
    obtain ⟨r, hr, hnext⟩ := @ih q n fun g hg => hprint g (List.mem_cons_of_mem _ hg)
    refine ⟨r, ?_, ?_⟩
    · rw [hr, hq]
      simp [patchLastFirst, FilePatch.ofHeaders, ← hf.file]
    · rw [List.flatMap_cons, FilePatch.rows, List.cons_append, List.cons_append, readLines_file,
        hold, hnew, hread, hnext]

/-! ## Splitting the text into rows -/

theorem not_mem_pathRow {path : String} (h : path = noFile ∨ PlainPath path) {side : Char}
    (hside : side = 'a' ∨ side = 'b') :
    '\n' ∉ pathRow side path ∧ (pathRow side path).getLast? ≠ some '\r' := by
  rcases h with rfl | h
  · simp [pathRow, noFile]
  · have hrow : pathRow side path = [side, '/'] ++ path.toList := by
      rw [pathRow, if_neg h.file]
      rfl
    rw [hrow]
    refine ⟨?_, getLast?_append_ne (by simp) h.getLast?_ne⟩
    rcases hside with rfl | rfl <;> simp [h.lineFeed]

/-- No row has the end of a line in it or, so far as that could become one, at its end. -/
theorem not_mem_rows {p : FilePatch} (hprint : p.Printable) :
    ∀ row ∈ p.rows, '\n' ∉ row ∧ row.getLast? ≠ some '\r' := by
  intro row hrow
  rcases List.mem_cons.1 hrow with rfl | hrow
  · have hside : 'a' = 'a' ∨ 'a' = 'b' := .inl rfl
    obtain ⟨hlf, hcr⟩ := not_mem_pathRow hprint.oldPath hside
    exact ⟨by simp [oldMark, hlf], getLast?_append_ne (by simp [oldMark]) hcr⟩
  rcases List.mem_cons.1 hrow with rfl | hrow
  · have hside : 'b' = 'a' ∨ 'b' = 'b' := .inr rfl
    obtain ⟨hlf, hcr⟩ := not_mem_pathRow hprint.newPath hside
    exact ⟨by simp [newMark, hlf], getLast?_append_ne (by simp [newMark]) hcr⟩
  obtain ⟨h, hh, hrow⟩ := List.mem_flatMap.1 hrow
  have hhunk := hprint.hunks h hh
  rcases List.mem_cons.1 hrow with rfl | hrow
  · have hspace : [' '].getLast? ≠ some '\r' := by simp
    have hsection : (' ' :: h.section_.toList).getLast? ≠ some '\r' :=
      getLast?_append_ne hspace (getLast?_ne_of_trimEnd (trimEnd_of_trim hhunk.trimmed))
    refine ⟨?_, getLast?_append_ne (by simp [getLast?_rangesRow]) hsection⟩
    simp [Hunk.header, not_mem_rangesRow, hhunk.lineFeed]
  · obtain ⟨l, hl, rfl⟩ := List.mem_map.1 hrow
    obtain ⟨hlf, hcr⟩ := hhunk.lines l hl
    obtain ⟨kind, text⟩ := l
    have hmarker : kind.marker ≠ '\n' ∧ [kind.marker].getLast? ≠ some '\r' := by
      cases kind <;> simp [LineKind.marker]
    refine ⟨?_, getLast?_append_ne hmarker.2 hcr⟩
    simpa [HunkLine.row, hmarker.1.symm] using hlf

/-- What was written has the rows again, whether or not the last one is ended. -/
theorem linesOf_render {ps : List FilePatch} (hne : ps ≠ []) (hprint : ∀ p ∈ ps, p.Printable)
    (hlast : ∀ row ∈ (ps.flatMap FilePatch.rows).getLast?, allBlank row = false) :
    ∀ ending ∈ ["", "\n"], linesOf (render ps ++ ending) = ps.flatMap FilePatch.rows := by
  have hrows : ∀ row ∈ ps.flatMap FilePatch.rows, '\n' ∉ row ∧ row.getLast? ≠ some '\r' := by
    intro row hrow
    obtain ⟨p, hp, hrow⟩ := List.mem_flatMap.1 hrow
    exact not_mem_rows (hprint p hp) row hrow
  have hrowsne : ps.flatMap FilePatch.rows ≠ [] := by
    obtain ⟨p, ps, rfl⟩ := List.exists_cons_of_ne_nil hne
    simp [FilePatch.rows]
  have hend := dropBlankEnd_eq hlast
  simp only [List.forall_mem_cons, List.not_mem_nil, false_imp_iff, implies_true, and_true]
  constructor
  · rw [String.append_empty, linesOf, render, splitLines_joinLines hrowsne hrows, hend]
  · -- A line feed at the end is one more row, which is blank and dropped.
    have hempty : [""] = [([] : Line)].map String.ofList := rfl
    rw [linesOf, render, ← joinLines_concat_nil (by simpa using hrowsne), hempty, ← List.map_append,
      splitLines_joinLines (by simp), dropBlankEnd_concat rfl, hend]
    intro row hrow
    rcases List.mem_append.1 hrow with hrow | hrow
    · exact hrows row hrow
    · rw [List.mem_singleton.1 hrow]
      simp

/-- **Reading undoes writing.** Printable patches that change a line, and the last row of which is
not blank, are read from what `render` makes of them. -/
theorem parse_render {ps : List FilePatch} (hprint : ∀ p ∈ ps, p.Printable)
    (hchanges : ∃ p ∈ ps, ∃ h ∈ p.hunks, ∃ l ∈ h.lines, l.kind ≠ .context)
    (hlast : ∀ row ∈ (ps.flatMap FilePatch.rows).getLast?, allBlank row = false) :
    ∀ ending ∈ ["", "\n"], parse (render ps ++ ending) = .ok ps := by
  intro ending hending
  obtain ⟨p, hp, h, hh, l, hl, hkind⟩ := hchanges
  have hne : ps ≠ [] := List.ne_nil_of_mem hp
  have hany : (ps.any fun p => p.hunks.any Hunk.changes) = true := by
    rw [List.any_eq_true]
    refine ⟨p, hp, List.any_eq_true.2 ⟨h, hh, List.any_eq_true.2 ⟨l, hl, ?_⟩⟩⟩
    simpa using hkind
  obtain ⟨q, hq, hread⟩ := @readLines_patchRows {} 1 ps hprint
  have hresult : q.result = ps := result_lastFirst (by simpa using hq)
  rw [parse, linesOf_render hne hprint hlast ending hending, hread, Outcome.ok_bind, hresult, checked,
    if_neg (by simpa using hne), if_pos hany]

/-- A file is created and another one, in a folder named like that of a side, is deleted. Lines look
like headers, but never an old one before a new one. -/
def samplePatches : List FilePatch :=
  [{ file := "new.py", oldPath := noFile, newPath := "new.py"
     hunks := [
      { oldStart := 0, oldCount := 0, newStart := 1, newCount := 7, section_ := "@@ def f():"
        lines := [⟨.add, "++ b/x"⟩, ⟨.context, ""⟩, ⟨.remove, "-- a/x"⟩, ⟨.context, " "⟩] },
      { oldStart := 12, oldCount := 1, newStart := 9, newCount := 0
        lines := [⟨.context, "@@ -1,1 +1,1 @@"⟩, ⟨.remove, "-- "⟩] }] },
   { file := "a/old.md", oldPath := "a/old.md", newPath := noFile
     hunks := [
      { oldStart := 1, oldCount := 1, newStart := 0, newCount := 0
        lines := [⟨.add, "\\ No newline"⟩] }] }]

def printedText : String :=
  "--- /dev/null\n+++ b/new.py\n@@ -0,0 +1,7 @@ @@ def f():\n+++ b/x\n \n--- a/x\n  \n" ++
    "@@ -12,1 +9,0 @@ \n @@ -1,1 +1,1 @@\n--- \n" ++
    "--- a/a/old.md\n+++ /dev/null\n@@ -1,1 +0,0 @@ \n+\\ No newline\n"

theorem samplePatches_printable : ∀ p ∈ samplePatches, p.Printable := by
  have hplain : PlainPath "new.py" ∧ PlainPath "a/old.md" :=
    ⟨⟨by decide, by decide, by decide, by decide, by decide⟩,
      ⟨by decide, by decide, by decide, by decide, by decide⟩⟩
  have hhunks : ∀ p ∈ samplePatches, ∀ h ∈ p.hunks, NoneStartsFile [] h.lines → h.Printable := by
    intro p hp h hh hnone
    have hfields : ∀ p ∈ samplePatches, ∀ h ∈ p.hunks,
        (∀ n ∈ [h.oldStart, h.oldCount, h.newStart, h.newCount], 0 ≤ n ∧ writable n = true) ∧
        trim h.section_.toList = h.section_.toList ∧ '\n' ∉ h.section_.toList ∧
        ∀ l ∈ h.lines, '\n' ∉ l.text.toList ∧ l.text.toList.getLast? ≠ some '\r' := by
      decide +kernel
    obtain ⟨hnumbers, htrim, hlf, hlines⟩ := hfields p hp h hh
    exact ⟨hnumbers, htrim, hlf, hlines, (noneStartsFile_iff rfl).1 hnone⟩
  refine List.forall_mem_cons.2 ⟨⟨rfl, .inl rfl, .inr hplain.1, ?_⟩,
    List.forall_mem_singleton.2 ⟨rfl, .inr hplain.2, .inl rfl, ?_⟩⟩
  · intro h hh
    refine hhunks _ List.mem_cons_self h hh ?_
    rcases List.mem_cons.1 hh with rfl | hh
    · exact ⟨rfl, rfl, rfl, rfl, trivial⟩
    · rw [List.mem_singleton.1 hh]
      exact ⟨rfl, rfl, trivial⟩
  · intro h hh
    refine hhunks _ (List.mem_cons_of_mem _ List.mem_cons_self) h hh ?_
    rw [List.mem_singleton.1 hh]
    exact ⟨rfl, trivial⟩

theorem parse_render_sample : render samplePatches ++ "\n" = printedText ∧
    parse printedText = .ok samplePatches := by
  have htext : render samplePatches ++ "\n" = printedText := by decide +kernel
  refine ⟨htext, ?_⟩
  rw [← htext]
  exact parse_render samplePatches_printable (by decide) (by decide +kernel) "\n" (by simp)

/-- A removed line is taken for a file header if an added line behind it looks like the other one. -/
example : (parse "--- a/f\n+++ b/f\n@@ -1,2 +1,2 @@\n-x\n--- a\n \n+++ b").toOption.map List.length =
    some 2 := by
  decide +kernel

end Diff

end EvidenceLock
