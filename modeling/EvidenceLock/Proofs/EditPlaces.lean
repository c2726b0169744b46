import EvidenceLock.Proofs.HunkLines
import EvidenceLock.Proofs.Scope

/-!
# Where a patch edits its file

`Hunk.edits` lists what a hunk does where the application of patches does it, in the numbers that
lines have in the old text: lines that go, and lines that are put before an old one. For hunks that
count their old lines right, the scope check sees the same places with its own cursor
(`Hunk.checkLines_iff`); so a patch that can be applied is in scope exactly when all its edits are
made inside the ranges (`checkScope_iff_edits`). A hunk without old lines is judged by
the line behind which it stands; at the top of a file this is line `0`.
-/

namespace EvidenceLock

open EvidenceLock.Text

inductive Change where
  | delete (n : Int)
  /-- The text is put before line `n`. -/
  | insert (n : Int) (text : String)
  deriving DecidableEq, Repr

namespace Change

def line : Change → Int
  | delete n => n
  | insert n _ => n

/-- The number of the next old line after the change. -/
def next : Change → Int
  | delete n => n + 1
  | insert n _ => n

def shift (k : Int) : Change → Change
  | delete n => delete (n + k)
  | insert n t => insert (n + k) t

end Change

namespace Edit

/-- What an edit changes when `n` is the number of the next old line. -/
def changes : Int → Edit → List Change
  | _, [] => []
  | n, .keep :: e => changes (n + 1) e
  | n, .drop :: e => .delete n :: changes (n + 1) e
  | n, .put t :: e => .insert n t :: changes n e

theorem changes_append {n : Int} {e s : Edit} :
    changes n (e ++ s) = changes n e ++ changes (n + reach e) s := by
  induction e generalizing n with
  | nil => simp [changes, reach]
  | cons step e ih =>
    have hn : n + 1 + (reach e : Int) = n + ((reach e + 1 : Nat) : Int) := by omega
    cases step with
    | put t => simp [changes, reach, ih]
    | keep => simp [changes, reach, ih, hn]
    | drop => simp [changes, reach, ih, hn]

theorem changes_replicate_keep {n : Int} {m : Nat} :
    changes n (List.replicate m .keep) = [] := by
  induction m generalizing n with
  | zero => rfl
  | succ m ih => exact ih

theorem changes_add {n k : Int} {e : Edit} :
    changes (n + k) e = (changes n e).map (Change.shift k) := by
  induction e generalizing n with
  | nil => rfl
  | cons step e ih =>
    have hn : n + k + 1 = n + 1 + k := by omega
    cases step with
    | keep => rw [changes, changes, hn, ih]
    | drop => rw [changes, changes, hn, ih, List.map_cons, Change.shift]
    | put t => rw [changes, changes, ih, List.map_cons, Change.shift]

/-- Changes are made where the edit is. -/
theorem bounds_of_mem_changes {n : Int} {e : Edit} {c : Change} (h : c ∈ changes n e) :
    n ≤ c.line ∧ c.next ≤ n + reach e := by
  induction e generalizing n with
  | nil => cases h
  | cons step e ih =>
    cases step with
    | keep =>
      have hc := ih h
      simp only [reach]
      omega
    | drop =>
      simp only [reach]
      rcases List.mem_cons.1 h with rfl | h
      · simp only [Change.line, Change.next]
        omega
      · have hc := ih h
        omega
    | put t =>
      simp only [reach]
      rcases List.mem_cons.1 h with rfl | h
      · simp only [Change.line, Change.next]
        omega
      · exact ih h

end Edit

namespace Hunk

/-- What the hunk changes, at the place where it is applied. -/
def edits (h : Hunk) : List Change := h.steps.changes (h.offset + 1)

/-- The edits are made inside the ranges: removed lines lie in them, and so does the line before
which a line is put, or the one behind which it is put when the header announces no old line. -/
structure EditsInside (ranges : List (Int × Int)) (h : Hunk) : Prop where
  delete : ∀ n, .delete n ∈ h.edits → inRanges n ranges = true
  insert_before : 0 < h.oldCount → ∀ n t, .insert n t ∈ h.edits → inRanges n ranges = true
  insert_after : h.oldCount = 0 → ∀ n t, .insert n t ∈ h.edits → inRanges (n - 1) ranges = true

theorem reach_steps (h : Hunk) : h.steps.reach = h.oldLines := by
  rw [steps, oldLines]
  induction h.lines with
  | nil => rfl
  | cons l ls ih =>
    obtain ⟨kind, text⟩ := l
    cases kind with
    | context => simp [HunkLine.step, Edit.reach, ih]
    | add => simp [HunkLine.step, Edit.reach, ih]
    | remove => simp [HunkLine.step, Edit.reach, ih]

end Hunk

/-- The edits of ascending hunks are those of each hunk at its own place. -/
theorem changes_hunksEdit {passed : Nat} {hs : List Hunk} (hasc : Ascending passed hs) :
    (hunksEdit passed hs).changes (passed + 1) = hs.flatMap Hunk.edits := by
  induction hs generalizing passed with
  | nil => rfl
  | cons h hs ih =>
    obtain ⟨hle, hrest⟩ := hasc
    have hplace : (passed : Int) + 1 + ((h.offset.toNat - passed : Nat) : Int) = h.offset + 1 := by
      omega
    have hnext : h.offset + 1 + (h.steps.reach : Int) =
        ((h.offset.toNat + h.steps.reach : Nat) : Int) + 1 := by
      omega
    rw [hunksEdit, List.append_assoc, Edit.changes_append, Edit.changes_append,
      Edit.changes_replicate_keep, List.nil_append, Edit.reach_replicate_keep, hplace, hnext,
      ih hrest, List.flatMap_cons]
    rfl

/-- The cursor of the scope check is the number of the next old line. -/
theorem checkLines_iff {file : String} {ranges : List (Int × Int)} {n : Int} {ls : List HunkLine} :
    checkLines file ranges n ls = .ok () ↔
      ∀ c ∈ Edit.changes n (ls.map HunkLine.step), inRanges c.line ranges = true := by
  induction ls generalizing n with
  | nil => simp [checkLines, Edit.changes]
  | cons l ls ih =>
    have hrefuse : ∀ message, refuseEdit file n message ≠ .ok () := by
      intro message h
      obtain ⟨_, -, h⟩ := Outcome.bind_eq_ok.1 h
      cases h
    obtain ⟨kind, text⟩ := l
    unfold checkLines
    cases kind with
    | context => exact ih
    | remove =>
      simp only [List.map_cons, HunkLine.step, Edit.changes, List.forall_mem_cons]
      by_cases hn : inRanges n ranges = true
      · rw [if_pos hn, ih]
        exact (and_iff_right hn).symm
      · rw [if_neg hn]
        exact iff_of_false (hrefuse _) fun h => hn h.1
    | add =>
      simp only [List.map_cons, HunkLine.step, Edit.changes, List.forall_mem_cons]
      by_cases hn : inRanges n ranges = true
      · rw [if_pos hn, ih]
        exact (and_iff_right hn).symm
      · rw [if_neg hn]
        exact iff_of_false (hrefuse _) fun h => hn h.1

/-- **A hunk in scope** is one whose edits are made inside the ranges, when its header counts its old
lines right. -/
theorem Hunk.checkLines_iff {file : String} {ranges : List (Int × Int)} {h : Hunk}
    (hcount : h.oldCount = h.oldLines) :
    checkLines file ranges h.oldStart h.lines = .ok () ↔ h.EditsInside ranges := by
  rw [EvidenceLock.checkLines_iff]
  -- A header that announces old lines names the first of them, any other the line above.
  by_cases hpos : 0 < h.oldCount
  · have hedits : h.edits = Edit.changes h.oldStart (h.lines.map HunkLine.step) := by
      rw [Hunk.edits, Hunk.offset, if_pos hpos, Int.sub_add_cancel, Hunk.steps]
    rw [← hedits]
    constructor
    · intro hall
      refine ⟨fun n hn => hall _ hn, fun _ n t hn => hall _ hn, fun h0 => ?_⟩
      omega
    · intro hin c hc
      cases c with
      | delete n => exact hin.delete n hc
      | insert n t => exact hin.insert_before hpos n t hc
  · -- Without old lines nothing is removed, and the check sees each line one place early.
    have hzero : h.oldCount = 0 := by omega
    have hreach : h.steps.reach = 0 := by
      rw [Hunk.reach_steps]
      omega
    have hedits : h.edits =
        (Edit.changes h.oldStart (h.lines.map HunkLine.step)).map (Change.shift 1) := by
      rw [Hunk.edits, Hunk.offset, if_neg hpos, Edit.changes_add, Hunk.steps]
    have hdelete : ∀ n, .delete n ∉ h.edits := by
      intro n hn
      have hbounds := Edit.bounds_of_mem_changes hn
      simp only [Change.line, Change.next] at hbounds
      omega
    constructor
    · intro hall
      refine ⟨fun n hn => absurd hn (hdelete n), fun h0 => absurd h0 hpos, fun _ n t hn => ?_⟩
      rw [hedits, List.mem_map] at hn
      obtain ⟨c, hc, heq⟩ := hn
      cases c with
      | delete m => cases heq
      | insert m s =>
        cases heq
        rw [Int.add_sub_cancel]
        exact hall _ hc
    · intro hin c hc
      have hshift : c.shift 1 ∈ h.edits := by
        rw [hedits]
        exact List.mem_map_of_mem hc
      cases c with
      | delete m => exact absurd hshift (hdelete _)
      | insert m s =>
        have hm := hin.insert_after hzero _ s hshift
        rwa [Int.add_sub_cancel] at hm

theorem checkScope_singleton_iff {allowed : AllowedRanges} {p : FilePatch}
    {ranges : List (Int × Int)} (hranges : allowed.find? p.file = some ranges)
    (hne : ranges ≠ []) :
    checkScope allowed [p] = .ok () ↔
      ∀ h ∈ p.hunks, checkLines p.file ranges h.oldStart h.lines = .ok () := by
  have hcheck : p.checkScope allowed = checkHunks p.file ranges p.hunks := by
    cases ranges with
    | nil => exact absurd rfl hne
    | cons r ranges => rw [FilePatch.checkScope, hranges]
  rw [checkScope_ok, List.forall_mem_singleton, hcheck, checkHunks_ok]

/-- **The scope check judges the real edits.** When a patch whose hunks count their old lines right
can be applied, it is in scope exactly when all that it changes lies inside the ranges of its
file. -/
theorem checkScope_iff_edits {content new : String} {p : FilePatch}
    {allowed : AllowedRanges} {ranges : List (Int × Int)}
    (hcount : ∀ h ∈ p.hunks, h.oldCount = h.oldLines) (happly : p.apply content = .ok new)
    (hranges : allowed.find? p.file = some ranges) (hne : ranges ≠ []) :
    (new = joinLines (p.edit.apply (linesOf content)) ∧
      p.edit.changes 1 = p.hunks.flatMap Hunk.edits ∧
      (∀ n, .delete n ∈ p.edit.changes 1 → 1 ≤ n ∧ n ≤ (linesOf content).length) ∧
      ∀ n t, .insert n t ∈ p.edit.changes 1 → 1 ≤ n ∧ n ≤ (linesOf content).length + 1) ∧
      (checkScope allowed [p] = .ok () ↔ ∀ h ∈ p.hunks, h.EditsInside ranges) := by
  obtain ⟨hasc, hreach, hnew⟩ := FilePatch.apply_ok happly
  refine ⟨⟨hnew, changes_hunksEdit hasc, ?_, ?_⟩, ?_⟩
  · intro n hn
    have hbounds := Edit.bounds_of_mem_changes hn
    simp only [Change.line, Change.next] at hbounds
    omega
  · intro n t hn
    have hbounds := Edit.bounds_of_mem_changes hn
    simp only [Change.line, Change.next] at hbounds
    omega
  · rw [checkScope_singleton_iff hranges hne]
    exact forall₂_congr fun h hh => Hunk.checkLines_iff (hcount h hh)

/-- A patch with a hunk of each kind: the first line is replaced, and a line is put behind the
second. -/
def samplePlaces : FilePatch :=
  { FilePatch.ofHeaders "a.py" "a.py" with
    hunks :=
      [{ oldStart := 1, oldCount := 1, newStart := 1, newCount := 1,
         lines := [⟨.remove, "x = 1"⟩, ⟨.add, "x = 2"⟩] },
       { oldStart := 2, oldCount := 0, newStart := 3, newCount := 1, lines := [⟨.add, "z = 3"⟩] }] }

def sampleRanges : AllowedRanges := [("a.py", [(1, 2)])]

theorem checkScope_iff_edits_samplePlaces :
    (∀ h ∈ samplePlaces.hunks, h.oldCount = h.oldLines) ∧
      samplePlaces.apply "x = 1\ny = 2" = .ok "x = 2\ny = 2\nz = 3" ∧
      sampleRanges.find? samplePlaces.file = some [(1, 2)] ∧
      samplePlaces.edit.changes 1 = [.delete 1, .insert 2 "x = 2", .insert 3 "z = 3"] ∧
      ∀ h ∈ samplePlaces.hunks, h.EditsInside [(1, 2)] := by
  have hcount : ∀ h ∈ samplePlaces.hunks, h.oldCount = h.oldLines := by decide
  have happly : samplePlaces.apply "x = 1\ny = 2" = .ok "x = 2\ny = 2\nz = 3" :=
    Outcome.eq_ok_of_toOption (by decide +kernel)
  have hranges : sampleRanges.find? samplePlaces.file = some [(1, 2)] := by decide
  have hscope : checkScope sampleRanges [samplePlaces] = .ok () :=
    Outcome.eq_ok_of_toOption (by decide +kernel)
  have hiff := checkScope_iff_edits hcount happly hranges (List.cons_ne_nil _ _)
  exact ⟨hcount, happly, hranges, by decide, hiff.2.1 hscope⟩

/-- A line is put at the top of a file. -/
def topInsertion : FilePatch :=
  { FilePatch.ofHeaders "a.py" "a.py" with
    hunks := [{ oldStart := 0, oldCount := 0, newStart := 1, newCount := 1,
                lines := [⟨.add, "x = 1"⟩] }] }

def topRanges : AllowedRanges := [("a.py", [(0, 3)])]

/-- A range with the number `0` lets lines in at the top of a file, where no old line is above
them. -/
theorem checkScope_topInsertion :
    (∀ h ∈ topInsertion.hunks, h.oldCount = h.oldLines) ∧
      topInsertion.apply "y = 2" = .ok "x = 1\ny = 2" ∧
      topRanges.find? topInsertion.file = some [(0, 3)] ∧
      checkScope topRanges [topInsertion] = .ok () ∧
      ¬ ∀ h ∈ topInsertion.hunks, h.oldCount = 0 → ∀ n t, .insert n t ∈ h.edits →
        (1 ≤ n - 1 ∧ n - 1 ≤ (linesOf "y = 2").length) ∧ inRanges (n - 1) [(0, 3)] = true := by
  refine ⟨by decide, Outcome.eq_ok_of_toOption (by decide +kernel), by decide,
    Outcome.eq_ok_of_toOption (by decide +kernel), fun hall => ?_⟩
  have htop := (hall _ (List.mem_singleton.2 rfl) rfl 1 "x = 1" (by decide)).1.1
  omega

end EvidenceLock
