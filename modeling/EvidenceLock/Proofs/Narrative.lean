import EvidenceLock.Proofs.Reading
import Mathlib.Data.List.Forall2

/-!
# Talk around a diff

Text before and after a diff is passed over as long as no hunk is open. A hunk stays open until a
row ends it, even when all lines that its header announced have been read, and then it takes every
row that begins with the marker of a line (`Diff.Continues`). So talk changes nothing exactly when
it neither goes on with the last hunk nor completes a header (`Diff.parse_among_talk`).
-/

namespace EvidenceLock.Diff

open EvidenceLock.Text

/-- A row that begins neither as an old-file header nor as a hunk header. -/
structure Talk (line : Line) : Prop where
  noFile : startsWith line oldMark = false
  noHunk : startsWith line hunkMark = false

namespace Talk

theorem of_beginning {line other : Line} (h : Talk other) (hp : line <+: other) : Talk line := by
  have hmark : ∀ mark, startsWith other mark = false → startsWith line mark = false := by
    intro mark hother
    cases hline : startsWith line mark with
    | false => rfl
    | true =>
      have hfrom : mark <+: other := (List.isPrefixOf_iff_prefix.1 hline).trans hp
      rw [startsWith, List.isPrefixOf_iff_prefix.2 hfrom] at hother
      cases hother
  exact ⟨hmark oldMark h.noFile, hmark hunkMark h.noHunk⟩

theorem of_allBlank {line : Line} (h : allBlank line = true) : Talk line := by
  refine ⟨not_oldMark (.inr (.inl h)), ?_⟩
  cases hmark : startsWith line hunkMark with
  | false => rfl
  | true =>
    obtain ⟨tail, rfl⟩ := List.isPrefixOf_iff_prefix.1 hmark
    exact absurd h (by simp [allBlank, hunkMark, isBlank])

theorem readOutside_eq {line : Line} (h : Talk line) (p : Progress) (number : Int)
    (rest : List Line) : readOutside p number line rest = .ok (p, 0) := by
  rw [readOutside, h.noFile, h.noHunk]
  rfl

theorem startsFile_eq {line : Line} (h : Talk line) {rest : List Line} :
    startsFile line rest = false := by
  rw [startsFile, h.noFile, Bool.false_and]

end Talk

/-- Outside of hunks talk is passed over. -/
theorem readLines_closed {p : Progress} {number : Int} {rows : List Line}
    (hclosed : p.expected = none) (htalk : ∀ l ∈ rows, Talk l) (rest : List Line) :
    readLines p number 0 (rows ++ rest) = readLines p (number + rows.length) 0 rest := by
  induction rows generalizing number with
  | nil => simp
  | cons line rows ih =>
    rw [List.forall_mem_cons] at htalk
    have hline : readLine p number line (rows ++ rest) = .ok (p, 0) := by
      rw [readLine, hclosed]
      exact htalk.1.readOutside_eq p number _
    rw [List.cons_append, readLines, hline, add_length_cons]
    exact ih htalk.2

/-- The first row that is no remark begins with the marker of a line. -/
def Continues : List Line → Prop
  | [] => False
  | line :: rest =>
    if startsWith line ['\\'] then Continues rest
    else line.head? ∈ [some ' ', some '-', some '+']

instance decidableContinues : DecidablePred Continues
  | [] => .isFalse id
  | line :: rest =>
    have := decidableContinues rest
    inferInstanceAs (Decidable (if startsWith line ['\\'] then Continues rest
      else line.head? ∈ [some ' ', some '-', some '+']))

section
variable {line : Line} {rest : List Line} (htalk : Talk line)
  (hremark : startsWith line ['\\'] = false)
include htalk hremark

/-- In an open hunk talk with the marker of a line is one. -/
theorem roleOf_marked (hhead : line.head? ∈ [some ' ', some '-', some '+']) (expecting : Bool) :
    ∃ l, roleOf expecting line rest = .body l := by
  have hfile : startsFile line rest = false := htalk.startsFile_eq
  cases line with
  | nil => simp at hhead
  | cons c text =>
    simp only [List.head?_cons, List.mem_cons, Option.some.injEq, List.not_mem_nil, or_false]
      at hhead
    rcases hhead with rfl | rfl | rfl
    · exact ⟨⟨.context, String.ofList text⟩, by simp [roleOf, hremark, hfile, htalk.noHunk]⟩
    · exact ⟨⟨.remove, String.ofList text⟩, by simp [roleOf, hremark, hfile, htalk.noHunk]⟩
    · exact ⟨⟨.add, String.ofList text⟩, by simp [roleOf, hremark, hfile, htalk.noHunk]⟩

/-- Other talk ends a hunk that expects no more lines. -/
theorem roleOf_unmarked (hhead : line.head? ∉ [some ' ', some '-', some '+']) :
    roleOf false line rest = .closing := by
  have hfile : startsFile line rest = false := htalk.startsFile_eq
  unfold roleOf
  rw [hremark, hfile, htalk.noHunk]
  simp only [Bool.false_eq_true, if_false]
  split
  · simp at hhead
  · simp at hhead
  · simp at hhead
  · rfl
  · rfl

end

/-- Talk that does not go on with an open hunk changes nothing when the hunk expects no more
lines. -/
theorem readLines_ended {p : Progress} {number : Int} {rows : List Line} {e : Expected}
    (hopen : p.expected = some e) (he : e.any = false) (htalk : ∀ l ∈ rows, Talk l)
    (hnot : ¬ Continues rows) :
    ∃ q, readLines p number 0 rows = .ok q ∧ q.result = p.result := by
  induction rows generalizing number with
  | nil => exact ⟨p, rfl, rfl⟩
  | cons line rows ih =>
    rw [List.forall_mem_cons] at htalk
    rw [Continues] at hnot
    by_cases hremark : startsWith line ['\\'] = true
    · have hline : readLine p number line rows = .ok (p, 0) := by
        rw [readLine, hopen]
        simp [roleOf, hremark]
      rw [if_pos hremark] at hnot
      rw [readLines, hline]
      exact ih htalk.2 hnot
    · -- The first row that is no remark closes the hunk, and the others stand outside.
      rw [if_neg hremark] at hnot
      have hline : readLine p number line rows = .ok (p.close, 0) := by
        rw [readLine, hopen]
        simp only [he, roleOf_unmarked htalk.1 (by simpa using hremark) hnot]
        exact htalk.1.readOutside_eq p.close number rows
      have hrest := @readLines_closed p.close (number + 1) rows rfl htalk.2 []
      rw [List.append_nil] at hrest
      rw [readLines, hline]
      exact ⟨p.close, hrest, rfl⟩

/-- Talk that goes on with an open hunk adds a line to it. -/
theorem readLines_continued {p q : Progress} {number : Int} {rows : List Line}
    (hopen : p.expected ≠ none) (hp : p.Counted) (htalk : ∀ l ∈ rows, Talk l)
    (hcontinues : Continues rows) (h : readLines p number 0 rows = .ok q) :
    lineTotal p.patches < lineTotal q.patches := by
  induction rows generalizing number with
  | nil => exact hcontinues.elim
  | cons line rows ih =>
    rw [List.forall_mem_cons] at htalk
    rw [Continues] at hcontinues
    obtain ⟨e, he⟩ := Option.ne_none_iff_exists'.1 hopen
    by_cases hremark : startsWith line ['\\'] = true
    · have hline : readLine p number line rows = .ok (p, 0) := by
        rw [readLine, he]
        simp [roleOf, hremark]
      rw [if_pos hremark] at hcontinues
      rw [readLines, hline] at h
      exact ih htalk.2 hcontinues h
    · rw [if_neg hremark] at hcontinues
      obtain ⟨l, hl⟩ :=
        @roleOf_marked line rows htalk.1 (by simpa using hremark) hcontinues e.any
      have hline : readLine p number line rows = .ok (p.addLine l, 0) := by
        rw [readLine, he]
        simp only [hl]
      rw [readLines, hline] at h
      have hadds := lineTotal_addLine hopen hp l
      have hle := readLines_lineTotal h
      omega

/-- The open hunk is the last one, and if it has the lines that its header announces it expects no
more. -/
theorem Progress.Counted.any_eq_false {p : Progress} (hp : p.Counted) {e : Expected}
    (he : p.expected = some e)
    (hmet : ∀ h ∈ (p.result.flatMap FilePatch.hunks).getLast?,
      h.oldCount = h.oldLines ∧ h.newCount = h.newLines) : e.any = false := by
  obtain ⟨file, oldPath, newPath, h, hs, fs, hpatches, hold, hnew⟩ := hp e he
  have hlast : (p.result.flatMap FilePatch.hunks).getLast? =
      some { h with lines := h.lines.reverse } := by
    simp [Progress.result, hpatches, List.flatMap_append]
  obtain ⟨hold', hnew'⟩ := hmet _ hlast
  simp only [Hunk.oldLines, Hunk.newLines, List.countP_reverse] at hold hnew hold' hnew'
  simp only [Expected.any, Bool.or_eq_false_iff, decide_eq_false_iff_not]
  omega

/-- A hunk is open after the rows. -/
def EndsOpen (rows : List Line) : Prop :=
  ∃ p, readLines {} 1 0 rows = .ok p ∧ p.expected ≠ none

theorem checked_result {p q : Progress} {ps : List FilePatch} (h : checked p.result = .ok ps) :
    checked q.result = .ok ps ↔ q.result = p.result := by
  constructor
  · intro hq
    rw [← (checked_ok h).1, ← (checked_ok hq).1]
  · intro hq
    rw [hq]
    exact h

/-- **Rows of talk around those of a diff** change nothing exactly when those behind neither
complete a header nor go on with the last hunk. -/
theorem readLines_among_talk {first rows after : List Line} {p : Progress} {ps : List FilePatch}
    (hread : readLines {} 1 0 rows = .ok p) (hchecked : checked p.result = .ok ps)
    (hmet : ∀ h ∈ (ps.flatMap FilePatch.hunks).getLast?,
      h.oldCount = h.oldLines ∧ h.newCount = h.newLines)
    (hfirst : ∀ l ∈ first, Talk l) (hafter : ∀ l ∈ after, Talk l) :
    (readLines {} 1 0 (first ++ rows ++ after) >>= fun q => checked q.result) = .ok ps ↔
      ¬ CompletesHeader after rows ∧ ¬ (EndsOpen rows ∧ Continues after) := by
  obtain ⟨rfl, -⟩ := checked_ok hchecked
  have hstart := readLines_number hread (1 + first.length)
  have hcounted : p.Counted :=
    readLines_preserves hread (fun _ _ _ _ hmove ha => hmove.counted ha) fun e he => by cases he
  have hopen : EndsOpen rows ↔ p.expected ≠ none := by
    constructor
    · rintro ⟨p', hp', hne⟩
      rw [hread] at hp'
      cases hp'
      exact hne
    · intro hne
      exact ⟨p, hread, hne⟩
  rw [List.append_assoc, readLines_closed rfl hfirst]
  by_cases hlook : CompletesHeader after rows
  · -- One file more than without the talk.
    refine iff_of_false (fun h => ?_) fun h => h.1 hlook
    obtain ⟨q, hq, hsame⟩ := Outcome.bind_eq_ok.1 h
    have hmore := readLines_completed hstart (fun l hl => absurd hl List.not_mem_nil) hlook hq
    have hlength := congrArg List.length ((checked_result hchecked).1 hsame)
    simp only [Progress.result, List.length_map, List.length_reverse] at hlength
    omega
  · rw [readLines_append hstart (Nat.zero_le _) hlook]
    simp only [hlook, not_false_eq_true, true_and, hopen]
    cases hexpected : p.expected with
    | none =>
      have hrest := @readLines_closed p (1 + first.length + rows.length) after hexpected hafter []
      rw [List.append_nil] at hrest
      rw [hrest]
      exact iff_of_true hchecked fun h => h.1 rfl
    | some e =>
      have hne : p.expected ≠ none := by simp [hexpected]
      by_cases hcontinues : Continues after
      · -- At least one line more, and later rows take none away.
        refine iff_of_false (fun h => ?_) fun h => h ⟨Option.some_ne_none e, hcontinues⟩
        obtain ⟨q, hq, hsame⟩ := Outcome.bind_eq_ok.1 h
        have hmore := readLines_continued hne hcounted hafter hcontinues hq
        have htotal := congrArg lineTotal ((checked_result hchecked).1 hsame)
        rw [lineTotal_result, lineTotal_result] at htotal
        omega
      · have hany := hcounted.any_eq_false hexpected hmet
        obtain ⟨q, hq, hsame⟩ := @readLines_ended p (1 + first.length + rows.length) after e
          hexpected hany hafter hcontinues
        rw [hq]
        exact iff_of_true ((checked_result hchecked).2 hsame) fun h => hcontinues h.2

theorem talk_of_readAs {written read : List Line} (h : List.Forall₂ ReadAs written read)
    (htalk : ∀ l ∈ written, Talk l) : ∀ l ∈ read, Talk l := by
  induction h with
  | nil => exact htalk
  | cons hread _ ih =>
    rw [List.forall_mem_cons] at htalk ⊢
    exact ⟨htalk.1.of_beginning hread.prefix_of, ih htalk.2⟩

/-- The rows of a text are those of the talk, those of the diff and what follows them. -/
theorem linesOf_among_talk {before behind : List String} {diff : String}
    (hne : linesOf diff ≠ []) (hlf : ∀ l ∈ before ++ behind, '\n' ∉ l.toList)
    (htalk : ∀ l ∈ before ++ behind, Talk l.toList)
    (hend : behind = [] ∨ diff.toList.getLast? ≠ some '\r') :
    ∃ first after, first.length = before.length ∧
      (∀ l ∈ first, Talk l) ∧ (∀ l ∈ after, Talk l) ∧
      linesOf (joinLines (before ++ diff :: behind)) = first ++ linesOf diff ++ after := by
  obtain ⟨first, last, hfirst, hlast, hsplit⟩ := splitLines_joinLines_append hlf hend
  -- Blank rows at the end of the diff are dropped there, but kept when talk follows.
  obtain ⟨blank, hblank, hallBlank⟩ := exists_dropBlankEnd_append (splitLines diff.toList)
  have hbefore : ∀ l ∈ before.map String.toList, Talk l := by
    intro l hl
    obtain ⟨s, hs, rfl⟩ := List.mem_map.1 hl
    exact htalk s (List.mem_append_left behind hs)
  have hbehind : ∀ l ∈ behind.map String.toList, Talk l := by
    intro l hl
    obtain ⟨s, hs, rfl⟩ := List.mem_map.1 hl
    exact htalk s (List.mem_append_right before hs)
  refine ⟨first, dropBlankEnd (blank ++ last), ?_, talk_of_readAs hfirst hbefore, ?_, ?_⟩
  · rw [← hfirst.length_eq, List.length_map]
  · intro l hl
    obtain ⟨end_, hend_, -⟩ := exists_dropBlankEnd_append (blank ++ last)
    have hmem : l ∈ blank ++ last := by
      rw [hend_]
      exact List.mem_append_left end_ hl
    rcases List.mem_append.1 hmem with hl | hl
    · exact .of_allBlank (hallBlank l hl)
    · exact talk_of_readAs hlast hbehind l hl
  · have hink : ∀ l ∈ (first ++ linesOf diff).getLast?, allBlank l = false := by
      rw [List.getLast?_append_of_ne_nil _ hne]
      exact allBlank_getLast?_dropBlankEnd _
    rw [← dropBlankEnd_append hink, linesOf, hsplit]
    conv_lhs => rw [hblank]
    simp only [linesOf, List.append_assoc]

/-- **Talk around a diff.** When the last hunk of a diff has the lines that its header announces,
lines of talk around the diff change nothing exactly when what follows neither completes a header
nor goes on with a hunk that is still open. -/
theorem parse_among_talk {before behind : List String} {diff : String} {ps : List FilePatch}
    (hparse : parse diff = .ok ps)
    (hmet : ∀ h ∈ (ps.flatMap FilePatch.hunks).getLast?,
      h.oldCount = h.oldLines ∧ h.newCount = h.newLines)
    (hlf : ∀ l ∈ before ++ behind, '\n' ∉ l.toList)
    (htalk : ∀ l ∈ before ++ behind, Talk l.toList)
    (hend : behind = [] ∨ diff.toList.getLast? ≠ some '\r') :
    ∃ first after, first.length = before.length ∧
      linesOf (joinLines (before ++ diff :: behind)) = first ++ linesOf diff ++ after ∧
      (parse (joinLines (before ++ diff :: behind)) = .ok ps ↔
        ¬ CompletesHeader after (linesOf diff) ∧
          ¬ (EndsOpen (linesOf diff) ∧ Continues after)) := by
  obtain ⟨p, hread, hchecked⟩ := Outcome.bind_eq_ok.1 hparse
  have hne : linesOf diff ≠ [] := by
    intro hnil
    rw [hnil] at hread
    cases hread
    exact (checked_ok hchecked).2 rfl
  obtain ⟨first, after, hlength, hfirst, hafter, hrows⟩ :=
    linesOf_among_talk hne hlf htalk hend
  refine ⟨first, after, hlength, hrows, ?_⟩
  rw [parse, hrows]
  exact readLines_among_talk hread hchecked hmet hfirst hafter

/-- A diff of one hunk, with all the lines that its header announces. -/
def fixDiff : String := "--- a/a.py\n+++ b/a.py\n@@ -1,1 +1,1 @@\n-x = 1\n+x = 2"

def fixHunk : Hunk :=
  { oldStart := 1, oldCount := 1, newStart := 1, newCount := 1,
    lines := [⟨.remove, "x = 1"⟩, ⟨.add, "x = 2"⟩] }

def fixPatch : FilePatch := { FilePatch.ofHeaders "a.py" "a.py" with hunks := [fixHunk] }

/-- Between fences the explanation is passed over, bullets and all. -/
theorem parse_among_talk_fenced :
    parse (joinLines (["Here is the fix:", "```diff"] ++ fixDiff :: ["```", "- shorter"])) =
      .ok [fixPatch] := by
  let before := ["Here is the fix:", "```diff"]
  let behind := ["```", "- shorter"]
  have hparse : parse fixDiff = .ok [fixPatch] := Outcome.eq_ok_of_toOption (by decide +kernel)
  have htalk : ∀ l ∈ before ++ behind, Talk l.toList := by
    intro l hl
    have hmarks : startsWith l.toList oldMark = false ∧ startsWith l.toList hunkMark = false := by
      revert l
      decide
    exact ⟨hmarks.1, hmarks.2⟩
  obtain ⟨first, after, hlength, hrows, hiff⟩ :=
    parse_among_talk hparse (by decide) (by decide) htalk (.inr (by decide))
  have htext : linesOf (joinLines (before ++ fixDiff :: behind)) =
      before.map String.toList ++ linesOf fixDiff ++ behind.map String.toList := by
    decide +kernel
  have hafter : after = behind.map String.toList := by
    refine (List.append_inj (hrows.symm.trans htext) ?_).2
    rw [List.length_append, List.length_append, hlength, List.length_map]
  refine hiff.2 ⟨?_, fun h => ?_⟩
  · rw [hafter]
    decide +kernel
  · rw [hafter] at h
    exact absurd h.2 (by decide)

/-- **A list right behind a diff** is read as lines of its last hunk, which expects none. -/
theorem parse_bullet :
    parse fixDiff = .ok [fixPatch] ∧
      (fixHunk.oldCount = fixHunk.oldLines ∧ fixHunk.newCount = fixHunk.newLines) ∧
      Talk "- shortens the function".toList ∧
      parse (joinLines ([] ++ fixDiff :: ["- shortens the function"])) =
        .ok [{ fixPatch with
          hunks := [{ fixHunk with
            lines := fixHunk.lines ++ [⟨.remove, " shortens the function"⟩] }] }] ∧
      parse (joinLines ([] ++ fixDiff :: ["- shortens the function"])) ≠ .ok [fixPatch] := by
  have hbullet : parse (joinLines ([] ++ fixDiff :: ["- shortens the function"])) =
      .ok [{ fixPatch with
        hunks := [{ fixHunk with
          lines := fixHunk.lines ++ [⟨.remove, " shortens the function"⟩] }] }] :=
    Outcome.eq_ok_of_toOption (by decide +kernel)
  refine ⟨Outcome.eq_ok_of_toOption (by decide +kernel), by decide, ⟨by decide, by decide⟩, hbullet,
    ?_⟩
  rw [hbullet]
  intro h
  exact absurd (Except.ok.inj h) (by decide)

end EvidenceLock.Diff
