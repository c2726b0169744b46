import EvidenceLock.Proofs.Outline

/-!
# Where patches come from

Every part of the patches that a text is read as stands in the text: the two headers of a file, the
header of a hunk and each of its lines have a row of their own, in the order of the text
(`Diff.Origin`). The other way around, each row that starts a pair of file headers is a file, and
each row that begins as a hunk header is a hunk of the file before it (`Diff.parse_origin`).
-/

namespace EvidenceLock

open EvidenceLock.Text EvidenceLock.Diff

/-! ## Places -/

/-- The rows of a hunk, counted from zero. -/
structure HunkPlaces where
  /-- Its header. -/
  header : Nat
  /-- Its lines. -/
  lines : List Nat

/-- The rows of a patch. -/
structure FilePlaces where
  /-- The old-file header. -/
  old : Nat
  /-- The new-file header. -/
  new : Nat
  /-- The hunks. -/
  hunks : List HunkPlaces

def HunkPlaces.all (place : HunkPlaces) : List Nat := place.header :: place.lines

def FilePlaces.headers (place : FilePlaces) : List Nat := place.hunks.map HunkPlaces.header

def FilePlaces.all (place : FilePlaces) : List Nat :=
  place.old :: place.new :: place.hunks.flatMap HunkPlaces.all

section
variable (rows : List Line)

/-- The row is the line as it is written, or is empty and the line is an empty context line. -/
def HunkLine.StandsAt (l : HunkLine) (n : Nat) : Prop :=
  rows[n]? = some l.row ∨ (rows[n]? = some [] ∧ l = ⟨.context, ""⟩)

/-- The hunk is read from rows in this order; only remarks stand between them. -/
structure Hunk.StandsAt (h : Hunk) (place : HunkPlaces) : Prop where
  header : ∃ row, rows[place.header]? = some row ∧ startsWith row hunkMark = true ∧
    hunkOfHeader row none = .ok { h with lines := [] }
  lines : List.Forall₂ (HunkLine.StandsAt rows) h.lines place.lines
  ascending : place.all.Pairwise (· < ·)
  gaps : ∀ n, place.header < n → (∃ m ∈ place.lines, n < m) → n ∉ place.lines →
    ∃ row, rows[n]? = some row ∧ startsWith row ['\\'] = true

/-- The paths of the patch are those of its headers, between which only blank and index lines stand,
and its hunks are read from the rows. -/
structure FilePatch.StandsAt (f : FilePatch) (place : FilePlaces) : Prop where
  old : ∃ row, rows[place.old]? = some row ∧ startsWith row oldMark = true ∧
    f.oldPath = headerPath (row.drop 4)
  new : ∃ row, rows[place.new]? = some row ∧ startsWith row newMark = true ∧
    f.newPath = headerPath (row.drop 4)
  between : place.old < place.new ∧ ∀ n, place.old < n → n < place.new →
    ∃ row, rows[n]? = some row ∧ Skipped row
  file : f.file = if f.newPath = noFile then f.oldPath else f.newPath
  hunks : List.Forall₂ (Hunk.StandsAt rows) f.hunks place.hunks

namespace Diff

/-- A pair of file headers starts with the row. -/
def StartsPair (n : Nat) : Prop :=
  ∃ line rest, rows.drop n = line :: rest ∧ startsFile line rest = true

/-- The row begins as a hunk header. -/
def StartsHunk (n : Nat) : Prop :=
  ∃ row, rows[n]? = some row ∧ startsWith row hunkMark = true

/-- **The rows that patches come from.** No row is used twice and none is out of order; all pairs of
file headers and all hunk headers are used, and a hunk belongs to the last pair before it. -/
structure Origin (ps : List FilePatch) (places : List FilePlaces) : Prop where
  files : List.Forall₂ (FilePatch.StandsAt rows) ps places
  ascending : (places.flatMap FilePlaces.all).Pairwise (· < ·)
  pairs : ∀ n, n ∈ places.map FilePlaces.old ↔ StartsPair rows n
  headers : ∀ n, n ∈ places.flatMap FilePlaces.headers ↔ StartsHunk rows n
  nearest : ∀ place ∈ places, ∀ n ∈ place.headers,
    place.old < n ∧ ∀ m, StartsPair rows m → m < n → m ≤ place.old

end Diff

end

namespace Diff

/-! ## Rows that start nothing -/

section
variable {rows : List Line} {n : Nat}

theorem getElem?_of_drop {line : Line} {rest : List Line} (h : rows.drop n = line :: rest) :
    rows[n]? = some line ∧ rows.drop (n + 1) = rest := by
  refine ⟨?_, ?_⟩
  · rw [← List.head?_drop, h, List.head?_cons]
  · rw [← List.tail_drop, h, List.tail_cons]

/-- The row starts neither a file nor a hunk. -/
structure Neutral (rows : List Line) (n : Nat) : Prop where
  noPair : ¬ StartsPair rows n
  noHunk : ¬ StartsHunk rows n

theorem Neutral.of_row {line : Line} {rest : List Line} (hrows : rows.drop n = line :: rest)
    (hfile : startsFile line rest = false) (hhunk : startsWith line hunkMark = false) :
    Neutral rows n := by
  constructor
  · rintro ⟨line', rest', hrows', hfile'⟩
    rw [hrows] at hrows'
    cases hrows'
    rw [hfile] at hfile'
    cases hfile'
  · rintro ⟨row, hrow, hhunk'⟩
    rw [(getElem?_of_drop hrows).1] at hrow
    cases hrow
    rw [hhunk] at hhunk'
    cases hhunk'

theorem Neutral.of_end (hrows : rows.drop n = []) : Neutral rows n := by
  constructor
  · rintro ⟨line, rest, hrows', -⟩
    rw [hrows] at hrows'
    cases hrows'
  · rintro ⟨row, hrow, -⟩
    rw [← List.head?_drop, hrows] at hrow
    cases hrow

theorem Neutral.of_talk {line : Line} {rest : List Line} (hrows : rows.drop n = line :: rest)
    (h : Talk line) : Neutral rows n :=
  .of_row hrows h.startsFile_eq h.noHunk

/-- Blank rows at the end start nothing. -/
theorem Neutral.of_blank {blank : List Line} (hblank : ∀ l ∈ blank, allBlank l = true)
    (hrows : rows.drop n = blank) {m : Nat} (hm : n ≤ m) : Neutral rows m := by
  have hsub : rows.drop m ⊆ blank := by
    rw [← hrows]
    exact (List.drop_suffix_drop_left rows hm).subset
  cases hdrop : rows.drop m with
  | nil => exact .of_end hdrop
  | cons line rest =>
    rw [hdrop] at hsub
    exact .of_talk hdrop (.of_allBlank (hblank line (hsub List.mem_cons_self)))

theorem exists_drop_between {between after : List Line} (hrows : rows.drop n = between ++ after)
    {m : Nat} (hn : n ≤ m) (hm : m < n + between.length) :
    ∃ row ∈ between, ∃ rest, rows.drop m = row :: rest := by
  obtain ⟨i, rfl⟩ : ∃ i, m = n + i := ⟨m - n, by omega⟩
  have hi : i < between.length := by omega
  refine ⟨between[i], List.getElem_mem hi, between.drop (i + 1) ++ after, ?_⟩
  rw [← List.drop_drop, hrows, List.drop_append_of_le_length hi.le, List.drop_eq_getElem_cons hi,
    List.cons_append]

end

/-! ## Hunks -/

/-- Where the lines of an open hunk stand. -/
theorem Body.places {rows blank : List Line} (hblank : ∀ l ∈ blank, allBlank l = true)
    {expected : Option Expected} {body rest : List Line} {ls : List HunkLine}
    (h : Body expected body rest ls) {n : Nat} (hrows : rows.drop n = body ++ rest ++ blank) :
    ∃ places, List.Forall₂ (HunkLine.StandsAt rows) ls places ∧ places.Pairwise (· < ·) ∧
      (∀ m ∈ places, n ≤ m ∧ m < n + body.length) ∧
      ∀ m, n ≤ m → m < n + body.length → Neutral rows m ∧
        (m ∈ places ∨ ∃ row, rows[m]? = some row ∧ startsWith row ['\\'] = true) := by
  induction h generalizing n with
  | done =>
    refine ⟨[], .nil, .nil, by simp, fun m hn hm => ?_⟩
    rw [List.length_nil] at hm
    omega
  | @line e row body rest l ls hrole _ ih =>
    obtain ⟨hfile, hhunk, hl⟩ := of_roleOf_body hrole
    obtain ⟨hrow, htail⟩ := getElem?_of_drop hrows
    rw [List.length_cons]
    obtain ⟨places, hstand, hasc, hin, hgaps⟩ := ih htail
    refine ⟨n :: places, .cons ?_ hstand, List.pairwise_cons.2 ⟨fun m hm => (hin m hm).1, hasc⟩, ?_,
      ?_⟩
    · rcases hl with rfl | ⟨rfl, hl⟩
      · exact .inl hrow
      · exact .inr ⟨hrow, hl⟩
    · rw [List.forall_mem_cons]
      refine ⟨by omega, fun m hm => ?_⟩
      have hm := hin m hm
      omega
    · intro m hn hm
      rcases Nat.eq_or_lt_of_le hn with rfl | hn
      · rw [← startsFile_append_of_none (newHeader?_blank hblank)] at hfile
        exact ⟨.of_row hrows hfile hhunk, .inl List.mem_cons_self⟩
      · obtain ⟨hneutral, hm⟩ := hgaps m hn (by omega)
        exact ⟨hneutral, hm.imp_left (List.mem_cons_of_mem n)⟩
  | @remark e row body rest ls hrole _ ih =>
    have hremark := of_roleOf_remark hrole
    obtain ⟨hrow, htail⟩ := getElem?_of_drop hrows
    rw [List.length_cons]
    obtain ⟨places, hstand, hasc, hin, hgaps⟩ := ih htail
    refine ⟨places, hstand, hasc, fun m hm => ?_, fun m hn hm => ?_⟩
    · have hm := hin m hm
      omega
    · rcases Nat.eq_or_lt_of_le hn with rfl | hn
      · exact ⟨.of_talk hrows (.of_remark hremark), .inr ⟨row, hrow, hremark⟩⟩
      · exact hgaps m hn (by omega)

/-! ## The whole outline -/

/-- Where the hunks and files stand that the rows from the `n`-th on hold. -/
structure Placed (rows : List Line) (n : Nat) (hs : List Hunk) (fs : List FilePatch)
    (hunks : List HunkPlaces) (files : List FilePlaces) : Prop where
  hunksStand : List.Forall₂ (Hunk.StandsAt rows) hs hunks
  filesStand : List.Forall₂ (FilePatch.StandsAt rows) fs files
  ascending : (hunks.flatMap HunkPlaces.all ++ files.flatMap FilePlaces.all).Pairwise (· < ·)
  behind : ∀ m ∈ hunks.flatMap HunkPlaces.all ++ files.flatMap FilePlaces.all, n ≤ m
  pairs : ∀ m, m ∈ files.map FilePlaces.old ↔ n ≤ m ∧ StartsPair rows m
  headers : ∀ m, m ∈ hunks.map HunkPlaces.header ++ files.flatMap FilePlaces.headers ↔
    n ≤ m ∧ StartsHunk rows m

namespace Placed

variable {rows : List Line} {n k : Nat} {hs : List Hunk} {fs : List FilePatch}
  {hunks : List HunkPlaces} {files : List FilePlaces}

/-- Rows in between that have a property make the difference where one looks from. -/
theorem from_iff {P : Nat → Prop} (hnk : n ≤ k) (hbetween : ∀ m, n ≤ m → m < k → ¬ P m) (m : Nat) :
    n ≤ m ∧ P m ↔ k ≤ m ∧ P m := by
  refine and_congr_left fun hm => ⟨fun hn => ?_, hnk.trans⟩
  by_contra hlt
  exact hbetween m hn (by omega) hm

theorem start_iff {P : Nat → Prop} (hn : P n) (hk : n < k) (hbetween : ∀ m, n < m → m < k → ¬ P m)
    (m : Nat) : m = n ∨ (k ≤ m ∧ P m) ↔ n ≤ m ∧ P m := by
  rw [← from_iff hk hbetween]
  constructor
  · rintro (rfl | ⟨hm, hP⟩)
    · exact ⟨le_rfl, hn⟩
    · exact ⟨Nat.le_of_succ_le hm, hP⟩
  · rintro ⟨hm, hP⟩
    rcases Nat.eq_or_lt_of_le hm with rfl | hm
    · exact .inl rfl
    · exact .inr ⟨hm, hP⟩

/-- Rows before that start nothing add nothing. -/
theorem skip (h : Placed rows k hs fs hunks files) (hnk : n ≤ k)
    (hneutral : ∀ m, n ≤ m → m < k → Neutral rows m) : Placed rows n hs fs hunks files := by
  refine ⟨h.hunksStand, h.filesStand, h.ascending, fun m hm => hnk.trans (h.behind m hm),
    fun m => ?_, fun m => ?_⟩
  · rw [from_iff hnk fun m hm hmk => (hneutral m hm hmk).noPair]
    exact h.pairs m
  · rw [from_iff hnk fun m hm hmk => (hneutral m hm hmk).noHunk]
    exact h.headers m

/-- A hunk before. -/
theorem hunk (hrest : Placed rows k hs fs hunks files) {h : Hunk} (place : HunkPlaces)
    (hstand : h.StandsAt rows place) (hk : ∀ m ∈ place.all, m < k)
    (hneutral : ∀ m, place.header < m → m < k → Neutral rows m)
    (hpair : ¬ StartsPair rows place.header) :
    Placed rows place.header (h :: hs) fs (place :: hunks) files := by
  obtain ⟨row, hrow, hmark, -⟩ := hstand.header
  have hheader : place.header < k := hk _ List.mem_cons_self
  have hall : ∀ m ∈ place.all, place.header ≤ m := by
    intro m hm
    rcases List.mem_cons.1 hm with rfl | hm
    · exact le_rfl
    · exact le_of_lt ((List.pairwise_cons.1 hstand.ascending).1 m hm)
  refine ⟨.cons hstand hrest.hunksStand, hrest.filesStand, ?_, ?_, fun m => ?_, fun m => ?_⟩
  · rw [List.flatMap_cons, List.append_assoc]
    refine List.pairwise_append.2 ⟨hstand.ascending, hrest.ascending, fun m hm m' hm' => ?_⟩
    exact (hk m hm).trans_le (hrest.behind m' hm')
  · intro m hm
    rw [List.flatMap_cons, List.append_assoc, List.mem_append] at hm
    rcases hm with hm | hm
    · exact hall m hm
    · exact hheader.le.trans (hrest.behind m hm)
  · rw [hrest.pairs, from_iff hheader.le]
    intro m hm hmk
    rcases Nat.eq_or_lt_of_le hm with rfl | hm
    · exact hpair
    · exact (hneutral m hm hmk).noPair
  · rw [← start_iff ⟨row, hrow, hmark⟩ hheader fun m hm hmk => (hneutral m hm hmk).noHunk,
      ← hrest.headers, List.map_cons, List.cons_append, List.mem_cons]

/-- A file before, to which the hunks belong. -/
theorem file (hrest : Placed rows k hs fs hunks files) {f : FilePatch} (place : FilePlaces)
    (hstand : f.StandsAt rows place) (hplace : place.hunks = hunks) (hk : place.new < k)
    (hpair : StartsPair rows place.old)
    (hneutral : ∀ m, place.old < m → m < k → Neutral rows m)
    (hhunk : ¬ StartsHunk rows place.old) :
    Placed rows place.old [] (f :: fs) [] (place :: files) := by
  subst hplace
  have hnew := hstand.between.1
  refine ⟨.nil, .cons hstand hrest.filesStand, ?_, ?_, fun m => ?_, fun m => ?_⟩
  · have hbehind := hrest.behind
    simp only [List.flatMap_nil, List.nil_append, List.flatMap_cons, FilePlaces.all,
      List.cons_append, List.pairwise_cons, List.forall_mem_cons]
    exact ⟨⟨hnew, fun m hm => (hnew.trans hk).trans_le (hbehind m hm)⟩,
      fun m hm => hk.trans_le (hbehind m hm), hrest.ascending⟩
  · have hbehind := hrest.behind
    simp only [List.flatMap_nil, List.nil_append, List.flatMap_cons, FilePlaces.all,
      List.cons_append, List.forall_mem_cons]
    exact ⟨le_rfl, hnew.le, fun m hm => (hnew.trans hk).le.trans (hbehind m hm)⟩
  · rw [← start_iff hpair (hnew.trans hk) fun m hm hmk => (hneutral m hm hmk).noPair,
      ← hrest.pairs, List.map_cons, List.mem_cons]
  · rw [from_iff (hnew.trans hk).le]
    · exact hrest.headers m
    · intro m hm hmk
      rcases Nat.eq_or_lt_of_le hm with rfl | hm
      · exact hhunk
      · exact (hneutral m hm hmk).noHunk

end Placed

/-- **An outline stands in the rows**, before blank ones at the end. -/
theorem Outlined.placed {rows blank tail : List Line} {hs : List Hunk} {fs : List FilePatch}
    (h : Outlined tail hs fs) (hblank : ∀ l ∈ blank, allBlank l = true) {n : Nat}
    (hrows : rows.drop n = tail ++ blank) :
    ∃ hunks files, Placed rows n hs fs hunks files := by
  induction h generalizing n with
  | nil =>
    refine ⟨[], [], .nil, .nil, .nil, by simp, fun m => ?_, fun m => ?_⟩
    · refine iff_of_false List.not_mem_nil fun hm => ?_
      exact (Neutral.of_blank hblank hrows hm.1).noPair hm.2
    · refine iff_of_false List.not_mem_nil fun hm => ?_
      exact (Neutral.of_blank hblank hrows hm.1).noHunk hm.2
  | talk htalk _ ih =>
    obtain ⟨hrow, htail⟩ := getElem?_of_drop hrows
    obtain ⟨hunks, files, hrest⟩ := ih htail
    refine ⟨hunks, files, hrest.skip n.le_succ fun m hn hm => ?_⟩
    obtain rfl : m = n := by omega
    exact .of_talk hrows htalk
  | @hunk header body rest h ls hs fs hmark hheader hbody _ ih =>
    rw [List.cons_append] at hrows
    obtain ⟨hrow, htail⟩ := getElem?_of_drop hrows
    obtain ⟨places, hstand, hasc, hin, hgaps⟩ := hbody.places hblank htail
    have hbehind : rows.drop (n + 1 + body.length) = rest ++ blank := by
      rw [← List.drop_drop, htail, List.append_assoc, List.drop_left]
    obtain ⟨hunks, files, hrest⟩ := ih hbehind
    refine ⟨⟨n, places⟩ :: hunks, files, hrest.hunk ⟨n, places⟩ ?_ ?_ ?_ ?_⟩
    · refine ⟨⟨header, hrow, hmark, ?_⟩, hstand, ?_, ?_⟩
      · rw [hheader, ← (hunkOfHeader_ok hheader).2]
      · exact List.pairwise_cons.2 ⟨fun m hm => (hin m hm).1, hasc⟩
      · rintro m hm ⟨m', hm', hlt⟩ hnot
        have hm' := hin m' hm'
        exact (hgaps m hm (by omega)).2.resolve_left hnot
    · refine List.forall_mem_cons.2 ⟨?_, fun m hm => (hin m hm).2⟩
      show n < _
      omega
    · exact fun m hm hk => (hgaps m hm hk).1
    · -- A row with the mark of a hunk has not that of a file.
      rintro ⟨line, rest', hrows', hfile⟩
      rw [hrows] at hrows'
      cases hrows'
      rw [startsFile, not_oldMark_of_hunkMark hmark] at hfile
      cases hfile
  | @file old new between rest hs fs hold hbetween hnew _ ih =>
    rw [List.cons_append, List.append_assoc, List.cons_append] at hrows
    obtain ⟨hrow, htail⟩ := getElem?_of_drop hrows
    have hnewRows : rows.drop (n + 1 + between.length) = new :: (rest ++ blank) := by
      rw [← List.drop_drop, htail, List.drop_left]
    obtain ⟨hnewRow, hbehind⟩ := getElem?_of_drop hnewRows
    obtain ⟨hunks, files, hrest⟩ := ih hbehind
    refine ⟨[], ⟨n, n + 1 + between.length, hunks⟩ :: files,
      hrest.file ⟨n, n + 1 + between.length, hunks⟩ ?_ rfl (Nat.lt_succ_self _) ?_ ?_ ?_⟩
    · refine ⟨⟨old, hrow, hold, rfl⟩, ⟨new, hnewRow, hnew, rfl⟩, ⟨?_, fun m hn hm => ?_⟩, rfl,
        hrest.hunksStand⟩
      · show n < n + 1 + between.length
        omega
      · obtain ⟨row, hrow, _, hdrop⟩ := exists_drop_between htail hn hm
        exact ⟨row, (getElem?_of_drop hdrop).1, hbetween row hrow⟩
    · refine ⟨old, _, hrows, ?_⟩
      rw [startsFile, hold, newHeader?_between hbetween hnew]
      rfl
    · intro m hn hm
      rcases Nat.lt_or_ge m (n + 1 + between.length) with hlt | hge
      · obtain ⟨row, hrow, _, hdrop⟩ := exists_drop_between htail hn hlt
        exact .of_talk hdrop (.of_skipped (hbetween row hrow))
      · obtain rfl : m = n + 1 + between.length := by omega
        exact .of_talk hnewRows (.of_newMark hnew)
    · rintro ⟨row, hrow', hhunk⟩
      rw [hrow] at hrow'
      cases hrow'
      rw [not_oldMark_of_hunkMark hhunk] at hold
      cases hold

/-- Where all rows are in order, a hunk belongs to the last file that starts before it. -/
theorem nearest_of_ascending {places : List FilePlaces}
    (hasc : (places.flatMap FilePlaces.all).Pairwise (· < ·)) {place : FilePlaces}
    (hplace : place ∈ places) {n : Nat} (hn : n ∈ place.headers) :
    place.old < n ∧ ∀ m ∈ places.map FilePlaces.old, m < n → m ≤ place.old := by
  have hheader : n ∈ place.hunks.flatMap HunkPlaces.all := by
    obtain ⟨hunk, hhunk, rfl⟩ := List.mem_map.1 hn
    exact List.mem_flatMap.2 ⟨hunk, hhunk, List.mem_cons_self⟩
  obtain ⟨before, after, rfl⟩ := List.append_of_mem hplace
  obtain ⟨hinner, houter⟩ := List.pairwise_flatMap.1 hasc
  have hown := List.pairwise_cons.1 (hinner place hplace)
  obtain ⟨-, hafter, hbefore⟩ := List.pairwise_append.1 houter
  refine ⟨hown.1 n (List.mem_cons_of_mem _ hheader), fun m hm hlt => ?_⟩
  obtain ⟨other, hother, rfl⟩ := List.mem_map.1 hm
  rcases List.mem_append.1 hother with hother | hother
  · exact (hbefore other hother place List.mem_cons_self other.old List.mem_cons_self place.old
      List.mem_cons_self).le
  rcases List.mem_cons.1 hother with rfl | hother
  · exact le_rfl
  · -- The header of a hunk stands before the next pair.
    have hlast := (List.pairwise_cons.1 hafter).1 other hother n
      (List.mem_cons_of_mem _ (List.mem_cons_of_mem _ hheader)) other.old List.mem_cons_self
    omega

/-- **Every part of the patches comes from the text**, and every header in the text is used. -/
theorem parse_origin {text : String} {ps : List FilePatch} (h : parse text = .ok ps) :
    ∃ places, Origin (splitLines text.toList) ps places := by
  obtain ⟨blank, hsplit, hblank⟩ := exists_dropBlankEnd_append (splitLines text.toList)
  have hrows : (splitLines text.toList).drop 0 = linesOf text ++ blank := hsplit
  obtain ⟨hunks, places, hplaced⟩ := (parse_ok_iff.1 h).1.placed hblank hrows
  obtain rfl : hunks = [] := List.forall₂_nil_left_iff.1 hplaced.hunksStand
  have hpairs : ∀ m, m ∈ places.map FilePlaces.old ↔ StartsPair (splitLines text.toList) m :=
    fun m => (hplaced.pairs m).trans (and_iff_right (Nat.zero_le m))
  refine ⟨places, hplaced.filesStand, hplaced.ascending, hpairs,
    fun m => (hplaced.headers m).trans (and_iff_right (Nat.zero_le m)), ?_⟩
  intro place hplace n hn
  obtain ⟨hown, hlast⟩ := nearest_of_ascending hplaced.ascending hplace hn
  exact ⟨hown, fun m hm => hlast m ((hpairs m).2 hm)⟩

/-- A diff with rows between its headers and between the lines of its hunk. -/
def remarkDiff : String :=
  "The fix:\n--- a/a.py\nindex 1..2\n\n+++ b/a.py\n@@ -1,2 +1,2 @@\n-x = 1\n" ++
    "\\ No newline\n+x = 2\n\nDone.\n"

def remarkPatch : FilePatch :=
  { file := "a.py", oldPath := "a.py", newPath := "a.py"
    hunks := [
      { oldStart := 1, oldCount := 2, newStart := 1, newCount := 2
        lines := [⟨.remove, "x = 1"⟩, ⟨.add, "x = 2"⟩, ⟨.context, ""⟩] }] }

theorem parse_origin_remarkDiff : parse remarkDiff = .ok [remarkPatch] ∧
    ∃ places, Origin (splitLines remarkDiff.toList) [remarkPatch] places := by
  have hparse : parse remarkDiff = .ok [remarkPatch] :=
    Outcome.eq_ok_of_toOption (by decide +kernel)
  exact ⟨hparse, parse_origin hparse⟩

end Diff

end EvidenceLock
