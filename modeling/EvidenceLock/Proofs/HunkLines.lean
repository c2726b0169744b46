import EvidenceLock.Proofs.HunkHeader
import Mathlib.Data.List.DropRight
import Mathlib.Data.List.TakeWhile

/-!
# Rows of a diff

How the reader goes on over the rows that a diff consists of, from any state: a pair of file headers
(`Diff.readLine_fileRows`), a hunk header (`Diff.readLine_hunkRow`) and the lines of a hunk
(`Diff.readLines_rows`). A removed line may look like a file header; it is one only if a new-file
header follows (`Diff.NoneStartsFile`).
-/

namespace EvidenceLock

open EvidenceLock.Text EvidenceLock.Decimal

namespace Hunk

/-- The number of its context and removed lines. -/
def oldLines (h : Hunk) : Nat := h.lines.countP fun l => l.kind != .add

/-- The number of its context and added lines. -/
def newLines (h : Hunk) : Nat := h.lines.countP fun l => l.kind != .remove

end Hunk

/-- The row of a diff that holds a line of a hunk. -/
def HunkLine.row (l : HunkLine) : Diff.Line := l.kind.marker :: l.text.toList

namespace Text

theorem trimEnd_of_trim {cs : List Char} (h : trim cs = cs) : trimEnd cs = cs := by
  have htrim : trimEnd (trim cs) = trim cs := by
    simp [trim, trimEnd, List.dropWhile_idempotent]
  rwa [h] at htrim

theorem trimEnd_cons {c : Char} {cs : List Char} (h : trimEnd cs = cs) (hne : cs ≠ []) :
    trimEnd (c :: cs) = c :: cs := by
  have hreverse : cs.reverse.dropWhile isBlank = cs.reverse := by
    rw [← List.reverse_inj, List.reverse_reverse]
    exact h
  rw [trimEnd, List.reverse_cons, List.dropWhile_append, hreverse, if_neg (by simpa using hne)]
  simp

/-- A text without white space at its end does not end in a carriage return. -/
theorem getLast?_ne_of_trimEnd {cs : List Char} (h : trimEnd cs = cs) : cs.getLast? ≠ some '\r' := by
  intro hlast
  obtain ⟨init, rfl⟩ := List.getLast?_eq_some_iff.1 hlast
  have hlen := congrArg List.length h
  rw [trimEnd_concat init (by decide), List.length_append, List.length_singleton] at hlen
  have hle := (trimEnd_isPrefix init).length_le
  omega

end Text

namespace Diff

/-! ## Lines of a hunk -/

theorem newHeader?_remove (text : String) (rest : List Line) :
    newHeader? (HunkLine.row ⟨.remove, text⟩ :: rest) = none := by
  have hmark : startsWith (HunkLine.row ⟨.remove, text⟩) newMark = false := rfl
  have hink : allBlank (HunkLine.row ⟨.remove, text⟩) = false := rfl
  have hindex : startsWith (HunkLine.row ⟨.remove, text⟩) "index ".toList = false := rfl
  rw [newHeader?, hmark, hink, hindex]
  rfl

/-- An added line completes a file header exactly if its row begins as a new-file header does. -/
theorem newHeader?_add (text : String) (rest : List Line) :
    (newHeader? (HunkLine.row ⟨.add, text⟩ :: rest)).isSome =
      startsWith text.toList ['+', '+', ' '] := by
  have hmark : startsWith (HunkLine.row ⟨.add, text⟩) newMark =
      startsWith text.toList ['+', '+', ' '] := rfl
  have hink : allBlank (HunkLine.row ⟨.add, text⟩) = false := rfl
  have hindex : startsWith (HunkLine.row ⟨.add, text⟩) "index ".toList = false := rfl
  rw [newHeader?, hmark, hink, hindex]
  cases startsWith text.toList ['+', '+', ' '] <;> rfl

theorem startsFile_row (l : HunkLine) (rest : List Line) : startsFile l.row rest =
    (decide (l.kind = .remove) && startsWith l.text.toList ['-', '-', ' '] &&
      (newHeader? rest).isSome) := by
  obtain ⟨kind, text⟩ := l
  cases kind <;> rfl

theorem roleOf_row {expecting : Bool} {l : HunkLine} {rest : List Line}
    (h : startsFile l.row rest = false) : roleOf expecting l.row rest = .body l := by
  obtain ⟨kind, text⟩ := l
  unfold roleOf
  rw [h]
  cases kind <;> simp [HunkLine.row, LineKind.marker, startsWith, hunkMark]

theorem readLine_row {p : Progress} {number : Int} {l : HunkLine} {rest : List Line}
    (hopen : p.expected ≠ none) (h : startsFile l.row rest = false) :
    readLine p number l.row rest = .ok (p.addLine l, 0) := by
  obtain ⟨e, he⟩ := Option.ne_none_iff_exists'.1 hopen
  rw [readLine, he]
  simp only [roleOf_row h]

theorem add_length_cons {α : Type} (number : Int) (a : α) (as : List α) :
    number + (a :: as).length = number + 1 + as.length := by
  rw [List.length_cons]
  omega

/-- None of the lines of a hunk is taken for the start of the next file. -/
def NoneStartsFile (rest : List Line) : List HunkLine → Prop
  | [] => True
  | l :: ls => startsFile l.row (ls.map HunkLine.row ++ rest) = false ∧ NoneStartsFile rest ls

/-- **The rows of an open hunk** are added to it one after the other. -/
theorem readLines_rows {p : Progress} {number : Int} {ls : List HunkLine} {rest : List Line}
    (hopen : p.expected ≠ none) (h : NoneStartsFile rest ls) :
    readLines p number 0 (ls.map HunkLine.row ++ rest) =
      readLines (ls.foldl Progress.addLine p) (number + ls.length) 0 rest := by
  induction ls generalizing p number with
  | nil => simp
  | cons l ls ih =>
    obtain ⟨hl, hls⟩ := h
    have hopen' : (p.addLine l).expected ≠ none := by
      simpa [Progress.addLine] using hopen
    rw [List.map_cons, List.cons_append, readLines, readLine_row hopen hl]
    dsimp only
    rw [ih hopen' hls, List.foldl_cons, add_length_cons]

/-- Lines that are added to the open hunk stand behind those that it has. -/
theorem foldl_addLine {p : Progress} {file oldPath newPath : String} {h : Hunk} {hs : List Hunk}
    {ps : List FilePatch} (hp : p.patches = ⟨file, oldPath, newPath, h :: hs⟩ :: ps)
    (ls : List HunkLine) : (ls.foldl Progress.addLine p).patches =
      ⟨file, oldPath, newPath, { h with lines := ls.reverse ++ h.lines } :: hs⟩ :: ps := by
  induction ls generalizing p h with
  | nil => exact hp
  | cons l ls ih =>
    have hadd : (p.addLine l).patches =
        ⟨file, oldPath, newPath, { h with lines := l :: h.lines } :: hs⟩ :: ps := by
      rw [Progress.addLine, hp]
    rw [List.foldl_cons, ih hadd, List.reverse_cons, List.append_assoc, List.singleton_append]

/-! ## Headers -/

/-- A pair of file headers starts the next file, whether or not a hunk is open. -/
theorem readLine_fileRows (p : Progress) (number : Int) (old new : Line) (rest : List Line) :
    readLine p number (oldMark ++ old) ((newMark ++ new) :: rest) =
      .ok (p.addFile (headerPath old) (headerPath new), 1) := by
  have hnew : newHeader? ((newMark ++ new) :: rest) = some (headerPath new, 0) := rfl
  have hold : startsWith (oldMark ++ old) oldMark = true := rfl
  have houtside : ∀ q : Progress, readOutside q number (oldMark ++ old) ((newMark ++ new) :: rest) =
      .ok (q.addFile (headerPath old) (headerPath new), 1) := by
    intro q
    rw [readOutside, hold, hnew]
    rfl
  have hstarts : startsFile (oldMark ++ old) ((newMark ++ new) :: rest) = true := by
    rw [startsFile, hold, hnew]
    rfl
  have hremark : startsWith (oldMark ++ old) ['\\'] = false := rfl
  have hrole : ∀ expecting,
      roleOf expecting (oldMark ++ old) ((newMark ++ new) :: rest) = .closing := by
    simp [roleOf, hremark, hstarts]
  unfold readLine
  split
  · exact houtside p
  · rw [hrole]
    exact houtside p.close

/-- A hunk header starts the next hunk of the current file. -/
theorem readLine_hunkRow {p : Progress} {f : FilePatch} {ps : List FilePatch} {number : Int}
    {line : Line} {rest : List Line} {h : Hunk} (hp : p.patches = f :: ps)
    (hmark : startsWith line hunkMark = true) (hh : hunkOfHeader line number = .ok h) :
    readLine p number line rest =
      .ok ({ patches := { f with hunks := h :: f.hunks } :: ps
             expected := some { old := h.oldCount, new := h.newCount } }, 0) := by
  have houtside : ∀ q : Progress, q.patches = f :: ps → readOutside q number line rest =
      .ok ({ patches := { f with hunks := h :: f.hunks } :: ps
             expected := some { old := h.oldCount, new := h.newCount } }, 0) := by
    intro q hq
    rw [readOutside, not_oldMark_of_hunkMark hmark, hmark, hh]
    simp [Progress.addHunk?, hq]
  unfold readLine
  split
  · exact houtside p hp
  · rw [roleOf_hunkMark hmark]
    exact houtside p.close hp

/-- The rows of a file header, then what follows them. -/
theorem readLines_file (p : Progress) (number : Int) (old new : Line) (rest : List Line) :
    readLines p number 0 ((oldMark ++ old) :: (newMark ++ new) :: rest) =
      readLines (p.addFile (headerPath old) (headerPath new)) (number + 1 + 1) 0 rest := by
  rw [readLines, readLine_fileRows]
  dsimp only
  rw [readLines]

/-- **The rows of a hunk** become its lines, then what follows them. -/
theorem readLines_hunk {p : Progress} {f : FilePatch} {ps : List FilePatch} {header : Line}
    {h : Hunk} {ls : List HunkLine} {rest : List Line} (number : Int) (hp : p.patches = f :: ps)
    (hmark : startsWith header hunkMark = true)
    (hh : ∀ number, hunkOfHeader header number = .ok h) (hnone : NoneStartsFile rest ls) :
    ∃ q : Progress,
      q.patches = { f with hunks := { h with lines := ls.reverse ++ h.lines } :: f.hunks } :: ps ∧
      readLines p number 0 (header :: (ls.map HunkLine.row ++ rest)) =
        readLines q (number + 1 + ls.length) 0 rest := by
  have hopen := @readLine_hunkRow p f ps number header (ls.map HunkLine.row ++ rest) h hp hmark
    (hh number)
  let opened : Progress :=
    { patches := { f with hunks := h :: f.hunks } :: ps
      expected := some { old := h.oldCount, new := h.newCount } }
  refine ⟨_, foldl_addLine (p := opened) rfl ls, ?_⟩
  rw [readLines, hopen]
  exact readLines_rows (Option.some_ne_none _) hnone

/-! ## The end of a diff -/

theorem dropBlankEnd_eq {ls : List Line} (h : ∀ l ∈ ls.getLast?, allBlank l = false) :
    dropBlankEnd ls = ls := by
  rw [List.getLast?_eq_head?_reverse] at h
  rw [dropBlankEnd]
  cases hls : ls.reverse with
  | nil => exact (List.reverse_eq_nil_iff.1 hls).symm
  | cons l rest =>
    rw [hls] at h
    have hl : allBlank l = false := h l rfl
    rw [List.dropWhile_cons_of_neg (by simp [hl]), ← hls, List.reverse_reverse]

theorem dropBlankEnd_concat {ls : List Line} {l : Line} (h : allBlank l = true) :
    dropBlankEnd (ls ++ [l]) = dropBlankEnd ls := by
  rw [dropBlankEnd, List.reverse_append, List.reverse_singleton, List.singleton_append,
    List.dropWhile_cons_of_pos h, dropBlankEnd]

theorem allBlank_getLast?_dropBlankEnd (ls : List Line) :
    ∀ l ∈ (dropBlankEnd ls).getLast?, allBlank l = false := by
  intro l hl
  rw [dropBlankEnd, List.getLast?_reverse] at hl
  have hhead := List.head?_dropWhile_not allBlank ls.reverse
  rwa [hl] at hhead

/-- Only blank lines are left out. -/
theorem exists_dropBlankEnd_append (ls : List Line) :
    ∃ blank, ls = dropBlankEnd ls ++ blank ∧ ∀ l ∈ blank, allBlank l = true := by
  refine ⟨(ls.reverse.takeWhile allBlank).reverse, ?_, ?_⟩
  · rw [dropBlankEnd, ← List.reverse_append, List.takeWhile_append_dropWhile, List.reverse_reverse]
  · intro l hl
    exact List.mem_takeWhile_imp (List.mem_reverse.1 hl)

/-- Lines behind one that is not blank end where they do by themselves. -/
theorem dropBlankEnd_append {ls : List Line} (h : ∀ l ∈ ls.getLast?, allBlank l = false)
    (rest : List Line) : dropBlankEnd (ls ++ rest) = ls ++ dropBlankEnd rest := by
  have hend := dropBlankEnd_eq h
  rw [dropBlankEnd] at hend
  have hreverse : ls.reverse.dropWhile allBlank = ls.reverse := by
    rw [← List.reverse_inj, hend, List.reverse_reverse]
  rw [dropBlankEnd, dropBlankEnd, List.reverse_append, List.dropWhile_append, hreverse]
  split
  · rename_i hempty
    rw [List.isEmpty_iff.1 hempty]
    simp
  · rw [List.reverse_append, List.reverse_reverse]

/-! ## Paths -/

/-- A path that a file header gives back: it names a file, and no part of it is left out. -/
structure PlainPath (path : String) : Prop where
  nonempty : path ≠ ""
  file : path ≠ noFile
  tab : '\t' ∉ path.toList
  lineFeed : '\n' ∉ path.toList
  trimmed : trim path.toList = path.toList

theorem PlainPath.trimEnd_eq {path : String} (h : PlainPath path) :
    trimEnd path.toList = path.toList := trimEnd_of_trim h.trimmed

theorem PlainPath.getLast?_ne {path : String} (h : PlainPath path) :
    path.toList.getLast? ≠ some '\r' := getLast?_ne_of_trimEnd h.trimEnd_eq

/-- A plain path is found in a header behind the folder of its side. -/
theorem PlainPath.headerPath_eq {path : String} (h : PlainPath path) {side : Char}
    (hside : side = 'a' ∨ side = 'b') : headerPath (side :: '/' :: path.toList) = path := by
  have htake : (side :: '/' :: path.toList).takeWhile (· != '\t') = side :: '/' :: path.toList := by
    rw [List.takeWhile_eq_self_iff]
    intro c hc
    rw [bne_iff_ne]
    rintro rfl
    rcases hside with rfl | rfl <;> simp [h.tab] at hc
  have hend : trimEnd (side :: '/' :: path.toList) = side :: '/' :: path.toList := by
    have h' := trimEnd_append_cons [side] path.toList (c := '/') (by decide)
    rwa [h.trimEnd_eq] at h'
  have htrim : trim (side :: '/' :: path.toList) = side :: '/' :: path.toList := by
    have hink : isBlank side = false := by rcases hside with rfl | rfl <;> decide
    rw [trim, trimStart, List.dropWhile_cons_of_neg (by simp [hink]), hend]
  rw [headerPath, htake, htrim]
  rcases hside with rfl | rfl <;> simp [noFile, startsWith]

end Diff

end EvidenceLock
