import EvidenceLock.Proofs.LineBreaks
import EvidenceLock.Proofs.Outline

/-!
# One diff behind another

The rows of a diff are outlined the same way when those of another diff follow: its last hunk ends
there, even when it announces more lines, and nothing behind the seam completes a header before it
(`Diff.Outlined.append`). So two texts with a line feed between them are read as the patches of the
first and those of the second (`Diff.parse_append`). A carriage return at the end of the first text
goes with the line feed; without it the text is read as before, but for the text of its last line
(`Diff.Outlined.chopped`).
-/

namespace EvidenceLock

open EvidenceLock.Text

namespace Diff

/-! ## Rows behind others -/

section
variable {after : List Line} (hnone : newHeader? after = none)
include hnone

theorem roleOf_append_of_none (expecting : Bool) (line : Line) (rest : List Line) :
    roleOf expecting line (rest ++ after) = roleOf expecting line rest := by
  unfold roleOf
  rw [startsFile_append_of_none hnone]

theorem Body.append (hclose : ∀ expected, Closes expected after) {expected : Option Expected}
    {body rest : List Line} {ls : List HunkLine} (h : Body expected body rest ls) :
    Body expected body (rest ++ after) ls := by
  induction h with
  | @done expected rest h =>
    refine .done ?_
    cases rest with
    | nil => exact hclose expected
    | cons line rest =>
      intro e he line' rest' hrows
      rw [List.cons_append] at hrows
      cases hrows
      rw [roleOf_append_of_none hnone]
      exact h e he line rest rfl
  | line hrole _ ih =>
    refine .line ?_ ih
    rw [← List.append_assoc, roleOf_append_of_none hnone]
    exact hrole
  | remark hrole _ ih =>
    refine .remark ?_ ih
    rw [← List.append_assoc, roleOf_append_of_none hnone]
    exact hrole

/-- **Rows and those of the next diff** are outlined one after the other. -/
theorem Outlined.append (hclose : ∀ expected, Closes expected after) {gs : List FilePatch}
    (hafter : Outlined after [] gs) {rows : List Line} {hs : List Hunk} {fs : List FilePatch}
    (h : Outlined rows hs fs) : Outlined (rows ++ after) hs (fs ++ gs) := by
  induction h with
  | nil => exact hafter
  | talk htalk _ ih => exact .talk htalk ih
  | hunk hmark hheader hbody _ ih =>
    rw [List.cons_append, List.append_assoc]
    exact .hunk hmark hheader (hbody.append hnone hclose) ih
  | file hold hbetween hnew _ ih =>
    rw [List.cons_append, List.append_assoc, List.cons_append]
    exact .file hold hbetween hnew ih

end

/-- A diff that begins with an old-file header ends any hunk before it, and completes no header. -/
theorem Outlined.ends {row : Line} {rest : List Line} {hs : List Hunk} {fs : List FilePatch}
    (h : Outlined (row :: rest) hs fs) (hold : startsWith row oldMark = true) :
    newHeader? (row :: rest) = none ∧ ∀ expected, Closes expected (row :: rest) := by
  have hremark : startsWith row ['\\'] = false ∧ newHeader? (row :: rest) = none := by
    obtain ⟨tail, rfl⟩ := List.isPrefixOf_iff_prefix.1 hold
    exact ⟨rfl, rfl⟩
  cases h with
  | talk htalk =>
    rw [htalk.noFile] at hold
    cases hold
  | hunk hmark =>
    rw [not_oldMark_of_hunkMark hmark] at hold
    cases hold
  | file _ hbetween hnew =>
    -- The pair is complete, so that the row is no removed line of a hunk that is open.
    refine ⟨hremark.2, ?_⟩
    rintro expected e - _ _ ⟨⟩
    simp [roleOf, hremark.1, startsFile, hold, newHeader?_between hbetween hnew]

/-! ## Rows without a carriage return -/

/-- A row may lose a carriage return at its end if something besides white space is left. -/
def Chopped (row chopped : Line) : Prop :=
  chopped = row ∨ (row = chopped ++ ['\r'] ∧ allBlank chopped = false)

namespace Chopped

variable {row chopped : Line} (h : Chopped row chopped)
include h

theorem startsWith_eq (mark : Line) (hmark : '\r' ∉ mark) :
    startsWith chopped mark = startsWith row mark := by
  rcases h with rfl | ⟨rfl, -⟩
  · rfl
  · rw [Bool.eq_iff_iff]
    simp only [startsWith, List.isPrefixOf_iff_prefix, List.prefix_concat_iff]
    refine (or_iff_right ?_).symm
    rintro rfl
    simp at hmark

theorem allBlank_eq : allBlank chopped = allBlank row := by
  rcases h with rfl | ⟨rfl, hne⟩
  · rfl
  · rw [hne, allBlank, List.all_append, ← allBlank, hne, Bool.false_and]

theorem headerPath_eq {mark : Line} (hlength : mark.length = 4)
    (hrow : startsWith chopped mark = true) :
    headerPath (chopped.drop 4) = headerPath (row.drop 4) := by
  rcases h with rfl | ⟨rfl, -⟩
  · rfl
  · have hle : 4 ≤ chopped.length := by
      rw [← hlength]
      exact (List.isPrefixOf_iff_prefix.1 hrow).length_le
    have hclean : ∀ cs : Line, trim ((cs ++ ['\r']).takeWhile (· != '\t')) =
        trim (cs.takeWhile (· != '\t')) := by
      intro cs
      rw [List.takeWhile_append]
      split
      · rename_i hall
        have hself : cs.takeWhile (· != '\t') = cs := (List.takeWhile_prefix _).eq_of_length hall
        have hreturn : ['\r'].takeWhile (· != '\t') = ['\r'] := rfl
        rw [hreturn, hself, trim_concat (by decide)]
      · rfl
    rw [List.drop_append_of_le_length hle, headerPath, headerPath, hclean]

theorem hunkOfHeader_eq {k : Hunk} (hrow : hunkOfHeader row none = .ok k) :
    hunkOfHeader chopped none = .ok k := by
  rcases h with rfl | ⟨rfl, -⟩
  · exact hrow
  · unfold hunkOfHeader at hrow ⊢
    rw [trimEnd_concat _ (by decide)] at hrow
    split at hrow
    · cases hrow
    · exact hrow

end Chopped

theorem forall_skipped_chopped {rows chopped : List Line} (h : List.Forall₂ Chopped rows chopped)
    (hrows : ∀ l ∈ rows, Skipped l) : ∀ l ∈ chopped, Skipped l := by
  induction h with
  | nil => exact hrows
  | cons hrow _ ih =>
    rw [List.forall_mem_cons] at hrows ⊢
    refine ⟨?_, ih hrows.2⟩
    rw [Skipped, hrow.allBlank_eq, hrow.startsWith_eq _ (by decide)]
    exact hrows.1

theorem exists_forall₂_append {as bs rows : List Line}
    (h : List.Forall₂ Chopped (as ++ bs) rows) : ∃ as' bs', rows = as' ++ bs' ∧
      List.Forall₂ Chopped as as' ∧ List.Forall₂ Chopped bs bs' := by
  induction as generalizing rows with
  | nil => exact ⟨[], rows, rfl, .nil, h⟩
  | cons a as ih =>
    cases h with
    | cons ha h =>
      obtain ⟨as', bs', rfl, has, hbs⟩ := ih h
      exact ⟨_ :: as', bs', rfl, .cons ha has, hbs⟩

theorem newHeader?_chopped {rows chopped : List Line} (h : List.Forall₂ Chopped rows chopped) :
    newHeader? chopped = newHeader? rows := by
  induction h with
  | nil => rfl
  | cons hrow _ ih =>
    have hmark := hrow.startsWith_eq newMark (by decide)
    have hindex := hrow.startsWith_eq "index ".toList (by decide)
    rw [newHeader?, newHeader?, ih, hmark, hindex, hrow.allBlank_eq]
    split
    · rename_i hnew
      rw [← hmark] at hnew
      rw [hrow.headerPath_eq rfl hnew]
    · rfl

theorem startsFile_chopped {row row' : Line} (hrow : Chopped row row') {rest rest' : List Line}
    (h : List.Forall₂ Chopped rest rest') : startsFile row' rest' = startsFile row rest := by
  rw [startsFile, startsFile, newHeader?_chopped h, hrow.startsWith_eq _ (by decide)]

/-- What a line is to an open hunk, up to its text. -/
def Role.withoutText : Role → Role
  | .body l => .body { l with text := "" }
  | .remark => .remark
  | .closing => .closing

namespace Role

variable {r : Role}

theorem eq_closing (h : r.withoutText = closing) : r = closing := by
  cases r <;> first | rfl | cases h

theorem eq_remark (h : r.withoutText = remark) : r = remark := by
  cases r <;> first | rfl | cases h

theorem exists_eq_body {l : HunkLine} (h : r.withoutText = (body l).withoutText) :
    ∃ l', r = body l' ∧ l'.kind = l.kind := by
  cases r with
  | body l' => exact ⟨l', rfl, by injection h with h; injection h⟩
  | remark => cases h
  | closing => cases h

end Role

theorem roleOf_chopped {row row' : Line} (hrow : Chopped row row') {rest rest' : List Line}
    (h : List.Forall₂ Chopped rest rest') (expecting : Bool) :
    (roleOf expecting row' rest').withoutText = (roleOf expecting row rest).withoutText := by
  have hremark := hrow.startsWith_eq ['\\'] (by decide)
  have hhunk := hrow.startsWith_eq hunkMark (by decide)
  have hfile := startsFile_chopped hrow h
  unfold roleOf
  rw [hremark, hhunk, hfile]
  rcases hrow with rfl | ⟨rfl, hne⟩
  · rfl
  · -- The row keeps its marker, as it is not blank.
    cases row' with
    | nil => cases hne
    | cons c text =>
      split
      · rfl
      split
      · rfl
      split
      · rfl
      by_cases hc : c = ' ' ∨ c = '-' ∨ c = '+'
      · rcases hc with rfl | rfl | rfl <;> rfl
      · simp only [not_or] at hc
        simp [hc]

/-- A hunk keeps the kinds of its lines. -/
theorem Body.chopped {expected : Option Expected} {body rest : List Line} {ls : List HunkLine}
    (h : Body expected body rest ls) {body' rest' : List Line}
    (hbody : List.Forall₂ Chopped body body') (hrest : List.Forall₂ Chopped rest rest') :
    ∃ ls', Body expected body' rest' ls' ∧ ls'.map HunkLine.kind = ls.map HunkLine.kind := by
  induction h generalizing body' with
  | @done expected rest hclose =>
    cases hbody
    refine ⟨[], .done ?_, rfl⟩
    rintro e he row' tail' rfl
    cases hrest with
    | cons hrow htail =>
      refine Role.eq_closing ((roleOf_chopped hrow htail e.any).trans ?_)
      rw [hclose e he _ _ rfl]
      rfl
  | @line e _ _ _ _ _ hrole _ ih =>
    cases hbody with
    | cons hrow hbody =>
      obtain ⟨ls', hls', hkinds⟩ := ih hbody hrest
      have hsame := roleOf_chopped hrow (List.rel_append hbody hrest) e.any
      rw [hrole] at hsame
      obtain ⟨l', hrole', hkind⟩ := Role.exists_eq_body hsame
      rw [← hkind] at hls'
      exact ⟨l' :: ls', .line hrole' hls', by rw [List.map_cons, List.map_cons, hkind, hkinds]⟩
  | @remark e _ _ _ _ hrole _ ih =>
    cases hbody with
    | cons hrow hbody =>
      obtain ⟨ls', hls', hkinds⟩ := ih hbody hrest
      have hsame := roleOf_chopped hrow (List.rel_append hbody hrest) e.any
      rw [hrole] at hsame
      exact ⟨ls', .remark (Role.eq_remark hsame) hls', hkinds⟩

theorem changes_of_kinds {h k : Hunk}
    (hkinds : h.lines.map HunkLine.kind = k.lines.map HunkLine.kind) : h.changes = k.changes := by
  have hany : ∀ h : Hunk, h.changes = (h.lines.map HunkLine.kind).any (· != .context) := by
    intro h
    rw [Hunk.changes, List.any_map]
    rfl
  rw [hany, hany, hkinds]

/-- **Rows without a carriage return** are outlined as files that change something where the others
do. -/
theorem Outlined.chopped {rows : List Line} {hs : List Hunk} {fs : List FilePatch}
    (h : Outlined rows hs fs) {rows' : List Line} (hrows : List.Forall₂ Chopped rows rows') :
    ∃ hs' fs', Outlined rows' hs' fs' ∧ hs'.map Hunk.changes = hs.map Hunk.changes ∧
      fs'.map (fun f => f.hunks.map Hunk.changes) = fs.map fun f => f.hunks.map Hunk.changes := by
  induction h generalizing rows' with
  | nil =>
    cases hrows
    exact ⟨[], [], .nil, rfl, rfl⟩
  | talk htalk _ ih =>
    cases hrows with
    | cons hrow hrows =>
      obtain ⟨hs', fs', hrest, hchanges⟩ := ih hrows
      refine ⟨hs', fs', .talk ⟨?_, ?_⟩ hrest, hchanges⟩
      · rw [hrow.startsWith_eq _ (by decide), htalk.noFile]
      · rw [hrow.startsWith_eq _ (by decide), htalk.noHunk]
  | @hunk header body rest h ls hs fs hmark hheader hbody _ ih =>
    cases hrows with
    | cons hrow hrows =>
      obtain ⟨body', rest', rfl, hbody', hrest'⟩ := exists_forall₂_append hrows
      obtain ⟨ls', hls', hkinds⟩ := hbody.chopped hbody' hrest'
      obtain ⟨hs', fs', hrest, hhunks, hfiles⟩ := ih hrest'
      have hmark' := (hrow.startsWith_eq hunkMark (by decide)).trans hmark
      have hsame : Hunk.changes { h with lines := ls' } = Hunk.changes { h with lines := ls } :=
        changes_of_kinds hkinds
      refine ⟨{ h with lines := ls' } :: hs', fs',
        .hunk hmark' (hrow.hunkOfHeader_eq hheader) hls' hrest, ?_, hfiles⟩
      rw [List.map_cons, List.map_cons, hhunks, hsame]
  | @file old new between rest hs fs hold hbetween hnew _ ih =>
    cases hrows with
    | cons hrow hrows =>
      obtain ⟨between', tail, rfl, hbetween', htail⟩ := exists_forall₂_append hrows
      cases htail with
      | @cons _ new' _ rest' hnewRow hrest' =>
        obtain ⟨hs', fs', hrest, hhunks, hfiles⟩ := ih hrest'
        have hold' := (hrow.startsWith_eq oldMark (by decide)).trans hold
        have hnew' := (hnewRow.startsWith_eq newMark (by decide)).trans hnew
        refine ⟨[], _, .file hold' ?_ hnew' hrest, rfl, ?_⟩
        · exact forall_skipped_chopped hbetween' hbetween
        · rw [List.map_cons, List.map_cons, hhunks, hfiles]

/-! ## The seam -/

/-- The text without a carriage return at its very end. -/
def withoutReturn (text : String) : String :=
  if text.toList.getLast? = some '\r' then String.ofList text.toList.dropLast else text

/-- A carriage return at the end belongs to the last line. -/
theorem splitLines_go_concat_return (line cs : List Char) :
    ∃ init last, splitLines.go line cs = init ++ [last] ∧
      splitLines.go line (cs ++ ['\r']) = init ++ [last ++ ['\r']] := by
  fun_induction splitLines.go line cs with
  | case1 line => exact ⟨[], line.reverse, rfl, by simp [splitLines.go]⟩
  | case2 line r ih =>
    obtain ⟨init, last, hgo, hreturn⟩ := ih
    refine ⟨line.reverse :: init, last, by rw [hgo, List.cons_append], ?_⟩
    rw [List.cons_append, splitLines.go, hreturn, List.cons_append]
  | case3 line r ih =>
    obtain ⟨init, last, hgo, hreturn⟩ := ih
    refine ⟨line.reverse :: init, last, by rw [hgo, List.cons_append], ?_⟩
    rw [List.cons_append, List.cons_append, splitLines.go, hreturn, List.cons_append]
  | case4 line c r hlf hcrlf ih =>
    obtain ⟨init, last, hgo, hreturn⟩ := ih
    refine ⟨init, last, hgo, ?_⟩
    rw [List.cons_append, splitLines_go_cons_append hlf hcrlf (fun _ _ => by decide), hreturn]

/-- Together with a line feed it ends that line. -/
theorem splitLines_go_concat_crlf (line cs : List Char) :
    splitLines.go line (cs ++ ['\r', '\n']) = splitLines.go line cs ++ [[]] := by
  fun_induction splitLines.go line cs with
  | case1 line => rfl
  | case2 line r ih => rw [List.cons_append, splitLines.go, ih, List.cons_append]
  | case3 line r ih => rw [List.cons_append, List.cons_append, splitLines.go, ih, List.cons_append]
  | case4 line c r hlf hcrlf ih =>
    rw [List.cons_append, splitLines_go_cons_append hlf hcrlf (fun _ _ => by decide), ih]

/-- The last line is not blank without a carriage return either, and a line feed behind the text
ends it. -/
theorem splitLines_withoutReturn {text : String}
    (hlast : ∀ row ∈ (splitLines text.toList).getLast?, allBlank row = false) :
    List.Forall₂ Chopped (splitLines text.toList) (splitLines (withoutReturn text).toList) ∧
      (∀ row ∈ (splitLines (withoutReturn text).toList).getLast?, allBlank row = false) ∧
      splitLines (text.toList ++ ['\n']) = splitLines (withoutReturn text).toList ++ [[]] := by
  have hsame : ∀ rows : List Line, List.Forall₂ Chopped rows rows := fun rows =>
    List.forall₂_same.2 fun row _ => .inl rfl
  by_cases hreturn : text.toList.getLast? = some '\r'
  · obtain ⟨cs, hcs⟩ := List.getLast?_eq_some_iff.1 hreturn
    have htext : (withoutReturn text).toList = cs := by
      rw [withoutReturn, if_pos hreturn, hcs, List.dropLast_concat, String.toList_ofList]
    obtain ⟨init, last, hgo, hgoReturn⟩ := splitLines_go_concat_return [] cs
    have hinit : splitLines cs = init ++ [last] := hgo
    have hinitReturn : splitLines text.toList = init ++ [last ++ ['\r']] := by
      rw [hcs]
      exact hgoReturn
    have hink : allBlank last = false := by
      have hink := hlast (last ++ ['\r']) (by simp [hinitReturn])
      rw [allBlank, List.all_append, Bool.and_eq_false_iff] at hink
      exact hink.resolve_right (by decide)
    rw [htext, hinit, hinitReturn]
    refine ⟨List.rel_append (hsame init) (.cons (.inr ⟨rfl, hink⟩) .nil), ?_, ?_⟩
    · simpa using hink
    · rw [hcs, List.append_assoc, splitLines]
      exact (splitLines_go_concat_crlf [] cs).trans (by rw [hgo])
  · rw [withoutReturn, if_neg hreturn]
    exact ⟨hsame _, hlast, splitLines_go_concat_lf hreturn⟩

theorem linesOf_append {first second : String}
    (hlast : ∀ row ∈ (splitLines first.toList).getLast?, allBlank row = false) :
    linesOf (first ++ "\n" ++ second) =
      splitLines (withoutReturn first).toList ++ linesOf second := by
  obtain ⟨-, hink, hfeed⟩ := splitLines_withoutReturn hlast
  have hsplit : splitLines (first ++ "\n" ++ second).toList =
      splitLines (withoutReturn first).toList ++ splitLines second.toList := by
    have htext : (first ++ "\n" ++ second).toList = first.toList ++ '\n' :: second.toList := by simp
    rw [htext, splitLines, splitLines_go_append_lf, ← splitLines, hfeed, List.dropLast_concat]
    rfl
  rw [linesOf, hsplit, dropBlankEnd_append hink, ← linesOf]

theorem linesOf_of_oldMark {text : String} (h : startsWith text.toList oldMark = true) :
    ∃ row rest, linesOf text = row :: rest ∧ startsWith row oldMark = true := by
  have hgo : ∀ line cs, ∃ row rest, splitLines.go line cs = row :: rest ∧ line.reverse <+: row := by
    intro line cs
    fun_induction splitLines.go line cs with
    | case1 line => exact ⟨_, _, rfl, List.prefix_rfl⟩
    | case2 line => exact ⟨_, _, rfl, List.prefix_rfl⟩
    | case3 line => exact ⟨_, _, rfl, List.prefix_rfl⟩
    | case4 line c r _ _ ih =>
      obtain ⟨row, rest, hgo, hrow⟩ := ih
      rw [List.reverse_cons] at hrow
      exact ⟨row, rest, hgo, (List.prefix_append _ _).trans hrow⟩
  obtain ⟨tail, htail⟩ := List.isPrefixOf_iff_prefix.1 h
  obtain ⟨row, rest, hsplit, hrow⟩ := hgo oldMark.reverse tail
  rw [List.reverse_reverse] at hrow
  have hrows : splitLines text.toList = [row] ++ rest := by
    rw [← htail, splitLines]
    exact hsplit
  have hink : ∀ l ∈ [row].getLast?, allBlank l = false := by
    rintro l ⟨⟩
    obtain ⟨end_, rfl⟩ := hrow
    rfl
  refine ⟨row, dropBlankEnd rest, ?_, List.isPrefixOf_iff_prefix.2 hrow⟩
  rw [linesOf, hrows, dropBlankEnd_append hink, List.singleton_append]

theorem checked_eq_ok_iff {ps : List FilePatch} :
    checked ps = .ok ps ↔ (ps.map fun f => f.hunks.map Hunk.changes).any (·.any id) = true := by
  have hany : (ps.map fun f => f.hunks.map Hunk.changes).any (·.any id) =
      ps.any fun f => f.hunks.any Hunk.changes := by
    simp [List.any_map, Function.comp_def]
  rw [hany]
  constructor
  · intro h
    by_contra hnot
    rw [checked, if_neg hnot] at h
    split at h <;> cases h
  · intro h
    have hne : ¬ ps.isEmpty = true := by
      cases ps with
      | nil => cases h
      | cons f ps => simp
    rw [checked, if_neg hne, if_pos h]

/-- **One diff behind another.** Two diffs with a line feed between them are read as the patches of
both, even when the last hunk of the first announces more lines than it has. A carriage return at
the end of the first goes with the line feed. -/
theorem parse_append {first second : String} {ps qs : List FilePatch}
    (hfirst : parse first = .ok ps) (hsecond : parse second = .ok qs)
    (hlast : ∀ row ∈ (splitLines first.toList).getLast?, allBlank row = false)
    (hhead : startsWith second.toList oldMark = true) :
    ∃ ps', parse (withoutReturn first) = .ok ps' ∧
      parse (first ++ "\n" ++ second) = .ok (ps' ++ qs) ∧
      (first.toList.getLast? ≠ some '\r' → ps' = ps) := by
  obtain ⟨hrows, hchecked⟩ := parse_ok_iff.1 hfirst
  obtain ⟨hrows', hchecked'⟩ := parse_ok_iff.1 hsecond
  obtain ⟨hchopped, hink, -⟩ := splitLines_withoutReturn hlast
  rw [linesOf, dropBlankEnd_eq hlast] at hrows
  obtain ⟨hs, ps', hleft, hhunks, hfiles⟩ := hrows.chopped hchopped
  obtain rfl : hs = [] := List.map_eq_nil_iff.1 hhunks
  have hparse : parse (withoutReturn first) = .ok ps' := by
    refine parse_ok_iff.2 ⟨?_, ?_⟩
    · rwa [linesOf, dropBlankEnd_eq hink]
    · rwa [checked_eq_ok_iff, hfiles, ← checked_eq_ok_iff]
  refine ⟨ps', hparse, parse_ok_iff.2 ⟨?_, ?_⟩, fun hreturn => ?_⟩
  · obtain ⟨row, rest, hlines, hold⟩ := linesOf_of_oldMark hhead
    rw [linesOf_append hlast, hlines]
    rw [hlines] at hrows'
    obtain ⟨hnone, hclose⟩ := hrows'.ends hold
    exact .append hnone hclose hrows' hleft
  · rw [checked_eq_ok_iff] at hchecked' ⊢
    rw [List.map_append, List.any_append, hchecked', Bool.or_true]
  · rw [withoutReturn, if_neg hreturn, hfirst] at hparse
    exact (Except.ok.inj hparse).symm

/-- The hunk announces more lines than it has, and its last line ends in a carriage return. -/
def returnDiff : String := "--- a/a.py\n+++ b/a.py\n@@ -1,5 +1,5 @@\n-x\n+y\r"

/-- The patch of one file with a hunk of one line removed and one added. -/
def swapPatch (path : String) (count : Int) (old new : String) : FilePatch :=
  { FilePatch.ofHeaders path path with
    hunks := [
      { oldStart := 1, oldCount := count, newStart := 1, newCount := count
        lines := [⟨.remove, old⟩, ⟨.add, new⟩] }] }

def nextDiff : String := "--- a/b.py\n+++ b/b.py\n@@ -1 +1 @@\n-x\n+y\n"

theorem parse_append_overstated :
    parse (withoutReturn returnDiff) = .ok [swapPatch "a.py" 5 "x" "y"] ∧
      parse nextDiff = .ok [swapPatch "b.py" 1 "x" "y"] ∧
      parse (withoutReturn returnDiff ++ "\n" ++ nextDiff) =
        .ok [swapPatch "a.py" 5 "x" "y", swapPatch "b.py" 1 "x" "y"] := by
  have hfirst : parse (withoutReturn returnDiff) = .ok [swapPatch "a.py" 5 "x" "y"] :=
    Outcome.eq_ok_of_toOption (by decide +kernel)
  have hsecond : parse nextDiff = .ok [swapPatch "b.py" 1 "x" "y"] :=
    Outcome.eq_ok_of_toOption (by decide +kernel)
  obtain ⟨ps, -, hparse, hsame⟩ :=
    parse_append hfirst hsecond (by decide +kernel) (by decide +kernel)
  rw [hsame (by decide +kernel)] at hparse
  exact ⟨hfirst, hsecond, hparse⟩

/-- **A carriage return at the seam** is no longer part of the last line. -/
theorem parse_returnDiff :
    parse returnDiff = .ok [swapPatch "a.py" 5 "x" "y\r"] ∧
      parse nextDiff = .ok [swapPatch "b.py" 1 "x" "y"] ∧
      (∀ row ∈ (splitLines returnDiff.toList).getLast?, allBlank row = false) ∧
      startsWith nextDiff.toList oldMark = true ∧
      parse (returnDiff ++ "\n" ++ nextDiff) =
        .ok [swapPatch "a.py" 5 "x" "y", swapPatch "b.py" 1 "x" "y"] ∧
      parse (returnDiff ++ "\n" ++ nextDiff) ≠
        .ok ([swapPatch "a.py" 5 "x" "y\r"] ++ [swapPatch "b.py" 1 "x" "y"]) := by
  have hseam : parse (returnDiff ++ "\n" ++ nextDiff) =
      .ok [swapPatch "a.py" 5 "x" "y", swapPatch "b.py" 1 "x" "y"] :=
    Outcome.eq_ok_of_toOption (by decide +kernel)
  refine ⟨Outcome.eq_ok_of_toOption (by decide +kernel),
    Outcome.eq_ok_of_toOption (by decide +kernel), by decide +kernel, by decide +kernel, hseam, ?_⟩
  rw [hseam]
  intro h
  exact absurd (Except.ok.inj h) (by decide)

end Diff

end EvidenceLock
