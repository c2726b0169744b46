import EvidenceLock.Proofs.Outline

/-!
# Unfinished hunks

A hunk can have fewer lines than its header announces (`Hunk.Unfinished`). The rows behind its
header, up to those that start the next hunk or file, are then its lines, all of its edits among
them, and what stands behind them (`Hunk.ReadFrom`). Edits among the latter are passed over, but
only when a row comes before them that can be no part of a hunk (`Diff.parse_readFrom`).
-/

namespace EvidenceLock

open EvidenceLock.Text EvidenceLock.Diff

/-- The hunk has fewer old or new lines than its header announces. -/
def Hunk.Unfinished (h : Hunk) : Prop := h.oldLines < h.oldCount ∨ h.newLines < h.newCount

/-- The row begins as an added or a removed line. -/
def Diff.isEdit (row : Line) : Bool := row.head? = some '+' || row.head? = some '-'

/-- The row is empty or begins with the marker of a line or of a remark. -/
def Diff.Fitting (row : Line) : Prop :=
  row = [] ∨ row.head? ∈ [some ' ', some '+', some '-', some '\\']

/-- The hunk has this header, and the rows behind it hold the edits of the hunk in order. Where
edits are passed over and the hunk is unfinished, that is behind a row that does not fit. -/
def Hunk.ReadFrom (h : Hunk) : Line × List Line → Prop
  | (header, rows) =>
    hunkOfHeader header none = .ok { h with lines := [] } ∧ ∃ body behind, rows = body ++ behind ∧
      body.filter isEdit = (h.lines.filter fun l => l.kind != .context).map HunkLine.row ∧
      (∀ row ∈ body, Fitting row ∨ allBlank row = true) ∧
      (h.Unfinished → (∀ row ∈ behind, isEdit row = false) ∨
        ∃ row rest, behind = row :: rest ∧ ¬ Fitting row)

namespace Diff

/-- The rows before the first one that starts a hunk or a file. -/
def untilStart : List Line → List Line
  | [] => []
  | row :: rest =>
    if startsWith row hunkMark || startsFile row rest then [] else row :: untilStart rest

/-- Each hunk header with the rows behind it, up to the next start of a hunk or a file. -/
def hunkSections : List Line → List (Line × List Line)
  | [] => []
  | row :: rest =>
    if startsWith row hunkMark then (row, untilStart rest) :: hunkSections rest
    else hunkSections rest

theorem hunkSections_skip {rows : List Line} (h : ∀ row ∈ rows, startsWith row hunkMark = false)
    (rest : List Line) : hunkSections (rows ++ rest) = hunkSections rest := by
  induction rows with
  | nil => rfl
  | cons row rows ih =>
    rw [List.forall_mem_cons] at h
    rw [List.cons_append, hunkSections, h.1]
    exact ih h.2

theorem untilStart_isPrefix (rows : List Line) : untilStart rows <+: rows := by
  induction rows with
  | nil => exact List.prefix_rfl
  | cons row rows ih =>
    rw [untilStart]
    split
    · exact List.nil_prefix
    · exact List.cons_prefix_cons.2 ⟨rfl, ih⟩

/-! ## Rows of a hunk -/

theorem not_isEdit_of_allBlank {row : Line} (h : allBlank row = true) : isEdit row = false := by
  cases row with
  | nil => rfl
  | cons c text =>
    have hc : isBlank c = true := by
      rw [allBlank, List.all_cons, Bool.and_eq_true] at h
      exact h.1
    have hsign : c ≠ '+' ∧ c ≠ '-' := by
      refine ⟨?_, ?_⟩ <;> rintro rfl <;> cases hc
    simp [isEdit, hsign]

theorem not_hunkMark_of_oldMark {row : Line} (h : startsWith row oldMark = true) :
    startsWith row hunkMark = false := by
  obtain ⟨tail, rfl⟩ := List.isPrefixOf_iff_prefix.1 h
  rfl

theorem fitting_row (l : HunkLine) : Fitting l.row := by
  obtain ⟨kind, text⟩ := l
  cases kind <;> simp [Fitting, HunkLine.row, LineKind.marker]

theorem isEdit_row (l : HunkLine) : isEdit l.row = (l.kind != .context) := by
  obtain ⟨kind, text⟩ := l
  cases kind <;> rfl

/-- A row that fits does not end a hunk that expects more lines. -/
theorem not_fitting_of_closing {row : Line} {rest : List Line}
    (hhunk : startsWith row hunkMark = false) (hfile : startsFile row rest = false)
    (h : roleOf true row rest = .closing) : ¬ Fitting row := by
  intro hfit
  unfold roleOf at h
  rw [hhunk, hfile] at h
  rcases hfit with rfl | hfit
  · cases h
  · cases row with
    | nil => simp at hfit
    | cons c text =>
      simp only [List.head?_cons, List.mem_cons, Option.some.injEq, List.not_mem_nil, or_false]
        at hfit
      rcases hfit with rfl | rfl | rfl | rfl <;> simp [startsWith] at h

/-- The rows of a hunk hold its edits, fit, and start no hunk. -/
theorem Body.edits {expected : Option Expected} {body rest : List Line} {ls : List HunkLine}
    (h : Body expected body rest ls) :
    body.filter isEdit = (ls.filter fun l => l.kind != .context).map HunkLine.row ∧
      ∀ row ∈ body, Fitting row ∧ startsWith row hunkMark = false := by
  induction h with
  | done => exact ⟨rfl, by simp⟩
  | @line e row body rest l ls hrole _ ih =>
    obtain ⟨hedits, hrows⟩ := ih
    obtain ⟨-, hhunk, hrow⟩ := of_roleOf_body hrole
    have hedit : isEdit row = (l.kind != .context) ∧ (isEdit row = true → row = l.row) ∧
        Fitting row := by
      rcases hrow with rfl | ⟨rfl, rfl⟩
      · exact ⟨isEdit_row l, fun _ => rfl, fitting_row l⟩
      · exact ⟨rfl, fun hedit => absurd hedit (by decide), .inl rfl⟩
    refine ⟨?_, List.forall_mem_cons.2 ⟨⟨hedit.2.2, hhunk⟩, hrows⟩⟩
    rw [List.filter_cons, List.filter_cons, ← hedit.1, hedits]
    split
    · rename_i hrow
      rw [List.map_cons, ← hedit.2.1 hrow]
    · rfl
  | @remark e row body rest ls hrole _ ih =>
    obtain ⟨hedits, hrows⟩ := ih
    have hremark := of_roleOf_remark hrole
    obtain ⟨text, rfl⟩ := List.isPrefixOf_iff_prefix.1 hremark
    exact ⟨hedits, List.forall_mem_cons.2 ⟨⟨.inr (by simp), rfl⟩, hrows⟩⟩

/-- The rows of a hunk all stand before the next start. -/
theorem Body.untilStart_append {blank : List Line} (hblank : ∀ l ∈ blank, allBlank l = true)
    {expected : Option Expected} {body rest : List Line} {ls : List HunkLine}
    (h : Body expected body rest ls) :
    untilStart (body ++ (rest ++ blank)) = body ++ untilStart (rest ++ blank) := by
  have hcons : ∀ (row : Line) (body rest : List Line), startsFile row (body ++ rest) = false →
      startsWith row hunkMark = false → untilStart (body ++ (rest ++ blank)) =
        body ++ untilStart (rest ++ blank) →
      untilStart (row :: body ++ (rest ++ blank)) = row :: body ++ untilStart (rest ++ blank) := by
    intro row body rest hfile hhunk ih
    rw [← startsFile_append_of_none (newHeader?_blank hblank), List.append_assoc] at hfile
    rw [List.cons_append, untilStart, hhunk, hfile, ih]
    rfl
  induction h with
  | done => rfl
  | line hrole _ ih =>
    obtain ⟨hfile, hhunk, -⟩ := of_roleOf_body hrole
    exact hcons _ _ _ hfile hhunk ih
  | remark hrole _ ih =>
    have htalk := Talk.of_remark (of_roleOf_remark hrole)
    exact hcons _ _ _ htalk.startsFile_eq htalk.noHunk ih

/-- What is expected behind lines. -/
def Expected.behind (e : Expected) (ls : List HunkLine) : Expected :=
  { old := e.old - (ls.countP fun l => l.kind != .add : Nat)
    new := e.new - (ls.countP fun l => l.kind != .remove : Nat) }

theorem Expected.behind_nil (e : Expected) : e.behind [] = e := by
  simp [behind]

theorem Expected.behind_cons (e : Expected) (l : HunkLine) (ls : List HunkLine) :
    e.behind (l :: ls) = (e.after l.kind).behind ls := by
  cases hkind : l.kind <;> simp [behind, after, hkind] <;> omega

/-- Behind the lines of a hunk a row comes that ends it, if any does. -/
theorem Body.closes {expected : Option Expected} {body rest : List Line} {ls : List HunkLine}
    (h : Body expected body rest ls) : Closes (expected.map fun e => e.behind ls) rest := by
  induction h with
  | @done expected rest hclose =>
    cases expected with
    | none => exact hclose
    | some e => rwa [Option.map_some, Expected.behind_nil]
  | line _ _ ih => rwa [Option.map_some, Expected.behind_cons]
  | remark _ _ ih => exact ih

/-- An unfinished hunk expects more behind its lines. -/
theorem any_of_unfinished {h : Hunk} (hunfinished : h.Unfinished) :
    (Expected.behind ⟨h.oldCount, h.newCount⟩ h.lines).any = true := by
  rw [Hunk.Unfinished, Hunk.oldLines, Hunk.newLines] at hunfinished
  rw [Expected.any, Bool.or_eq_true, decide_eq_true_eq, decide_eq_true_eq]
  exact hunfinished.imp Int.sub_pos_of_lt Int.sub_pos_of_lt

/-! ## All hunks -/

/-- **The rows behind a hunk header.** -/
theorem Body.readFrom {blank : List Line} (hblank : ∀ l ∈ blank, allBlank l = true) {header : Line}
    {h : Hunk} (hheader : hunkOfHeader header none = .ok h) {body rest : List Line}
    {ls : List HunkLine} (hbody : Body (some ⟨h.oldCount, h.newCount⟩) body rest ls) :
    Hunk.ReadFrom { h with lines := ls } (header, untilStart (body ++ (rest ++ blank))) := by
  obtain ⟨hedits, hrows⟩ := hbody.edits
  refine ⟨?_, body, untilStart (rest ++ blank), hbody.untilStart_append hblank, hedits,
    fun row hrow => .inl (hrows row hrow).1, fun hunfinished => ?_⟩
  · rw [hheader, ← (hunkOfHeader_ok hheader).2]
  -- Behind the last row that was read only blank ones are left.
  cases rest with
  | nil =>
    refine .inl fun row hrow => ?_
    have hmem : row ∈ blank := (untilStart_isPrefix blank).subset hrow
    exact not_isEdit_of_allBlank (hblank row hmem)
  | cons row rest =>
    rw [List.cons_append, untilStart]
    split
    · exact .inl (by simp)
    · rename_i hstart
      rw [Bool.not_eq_true, Bool.or_eq_false_iff,
        startsFile_append_of_none (newHeader?_blank hblank)] at hstart
      have hclosing := hbody.closes _ rfl row rest rfl
      rw [any_of_unfinished hunfinished] at hclosing
      exact .inr ⟨row, _, rfl, not_fitting_of_closing hstart.1 hstart.2 hclosing⟩

/-- **The hunks of an outline**, each with the rows behind its header. -/
theorem Outlined.readFrom {blank rows : List Line} (hblank : ∀ l ∈ blank, allBlank l = true)
    {hs : List Hunk} {fs : List FilePatch} (h : Outlined rows hs fs) :
    List.Forall₂ Hunk.ReadFrom (hs ++ fs.flatMap FilePatch.hunks)
      (hunkSections (rows ++ blank)) := by
  induction h with
  | nil =>
    have hnone := hunkSections_skip (fun row hrow => (Talk.of_allBlank (hblank row hrow)).noHunk) []
    rw [List.append_nil] at hnone
    rw [List.nil_append blank, hnone]
    exact .nil
  | talk htalk _ ih =>
    have hskip := hunkSections_skip (List.forall_mem_singleton.2 htalk.noHunk)
    rw [← List.singleton_append, List.append_assoc, hskip]
    exact ih
  | @hunk header body rest h ls hs fs hmark hheader hbody _ ih =>
    have hskip := hunkSections_skip (fun row hrow => (hbody.edits.2 row hrow).2) (rest ++ blank)
    have hsections : hunkSections (header :: (body ++ rest) ++ blank) =
        (header, untilStart (body ++ (rest ++ blank))) :: hunkSections (rest ++ blank) := by
      rw [List.cons_append, hunkSections, if_pos hmark, List.append_assoc, hskip]
    rw [hsections]
    exact .cons (hbody.readFrom hblank hheader) ih
  | @file old new between rest hs fs hold hbetween hnew _ ih =>
    have hskip : ∀ row ∈ old :: (between ++ [new]), startsWith row hunkMark = false := by
      rw [List.forall_mem_cons, List.forall_mem_append, List.forall_mem_singleton]
      exact ⟨not_hunkMark_of_oldMark hold,
        fun row hrow => (Talk.of_skipped (hbetween row hrow)).noHunk, (Talk.of_newMark hnew).noHunk⟩
    have hrows : old :: (between ++ new :: rest) ++ blank =
        old :: (between ++ [new]) ++ (rest ++ blank) := by simp
    rw [hrows, hunkSections_skip hskip]
    exact ih

/-- **No edit of an unfinished hunk is passed over**, except behind a row that fits in no hunk. -/
theorem parse_readFrom {text : String} {ps : List FilePatch} (h : parse text = .ok ps) :
    List.Forall₂ Hunk.ReadFrom (ps.flatMap FilePatch.hunks)
      (hunkSections (splitLines text.toList)) := by
  obtain ⟨blank, hsplit, hblank⟩ := exists_dropBlankEnd_append (splitLines text.toList)
  rw [hsplit]
  exact (parse_ok_iff.1 h).1.readFrom hblank

/-- The header of a hunk announces more lines than there are before the end of the fence. -/
def fencedDiff : String :=
  "--- a/a.py\n+++ b/a.py\n@@ -1,3 +1,3 @@\n-x = 1\n+x = 2\n```\n- shorter"

def fencedHunk : Hunk :=
  { oldStart := 1, oldCount := 3, newStart := 1, newCount := 3
    lines := [⟨.remove, "x = 1"⟩, ⟨.add, "x = 2"⟩] }

def fencedPatch : FilePatch := { FilePatch.ofHeaders "a.py" "a.py" with hunks := [fencedHunk] }

/-- **Behind the end of a fence** a removed line of an unfinished hunk is passed over. -/
theorem parse_fencedDiff : parse fencedDiff = .ok [fencedPatch] ∧ fencedHunk.Unfinished ∧
    hunkSections (splitLines fencedDiff.toList) =
      [("@@ -1,3 +1,3 @@".toList,
        ["-x = 1", "+x = 2", "```", "- shorter"].map String.toList)] ∧
    isEdit "- shorter".toList = true ∧ ⟨.remove, " shorter"⟩ ∉ fencedHunk.lines := by
  exact ⟨Outcome.eq_ok_of_toOption (by decide +kernel), .inl (by decide), by decide +kernel, rfl,
    by decide⟩

theorem parse_readFrom_fencedDiff : parse fencedDiff = .ok [fencedPatch] ∧
    List.Forall₂ Hunk.ReadFrom ([fencedPatch].flatMap FilePatch.hunks)
      (hunkSections (splitLines fencedDiff.toList)) := by
  have hparse : parse fencedDiff = .ok [fencedPatch] :=
    Outcome.eq_ok_of_toOption (by decide +kernel)
  exact ⟨hparse, parse_readFrom hparse⟩

end Diff

end EvidenceLock
