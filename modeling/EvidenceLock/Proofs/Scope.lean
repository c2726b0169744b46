import EvidenceLock.Patch.Scope
import EvidenceLock.Proofs.Keyed
import EvidenceLock.Proofs.PatchEdit

/-!
# What the scope check sees

The scope check walks the lines of a hunk with a cursor that starts at the old line of the header.
The application of the hunk starts at `Hunk.offset`, and the two are the same place only when the
header announces an old line. `Hunk.Announced` is what is left to ask of a hunk in scope so that its
edit stays within the evidence where it is made (`FilePatch.within_edit_iff`).
-/

namespace EvidenceLock

/-! ## Cited lines -/

/-- A citation of the file covers line `n`. -/
def Cited (cs : List Citation) (file : String) (n : Int) : Prop :=
  ∃ c ∈ cs, c.file = file ∧ c.first ≤ n ∧ n ≤ c.last

instance (cs : List Citation) (file : String) : DecidablePred (Cited cs file) :=
  fun n => inferInstanceAs (Decidable (∃ c ∈ cs, c.file = file ∧ c.first ≤ n ∧ n ≤ c.last))

/-- The ranges of a file are those of its citations, in order. -/
theorem find?_allowedRanges (cs : List Citation) (file : String) :
    ((allowedRanges cs).find? file).getD [] =
      (cs.filter fun c => file == c.file).map fun c => (c.first, c.last) := by
  have hgrouped : allowedRanges cs =
      Keyed.grouped (cs.map fun c => (c.file, (c.first, c.last))) := by
    rw [allowedRanges, Keyed.grouped, List.foldl_map]
  rw [hgrouped, Keyed.find?_grouped, List.filter_map, List.map_map]
  rfl

theorem inRanges_allowed {cs : List Citation} {file : String} {n : Int} :
    inRanges n (((allowedRanges cs).find? file).getD []) = true ↔ Cited cs file n := by
  rw [find?_allowedRanges]
  simp only [inRanges, List.any_map, List.any_eq_true, List.mem_filter, beq_iff_eq,
    Function.comp_apply, Bool.and_eq_true, decide_eq_true_eq, Cited]
  constructor
  · rintro ⟨c, ⟨hc, hfile⟩, hn⟩
    exact ⟨c, hc, hfile.symm, hn⟩
  · rintro ⟨c, hc, hfile, hn⟩
    exact ⟨c, ⟨hc, hfile.symm⟩, hn⟩

/-! ## The check, part by part -/

theorem checkHunks_ok {file : String} {ranges : List (Int × Int)} {hs : List Hunk} :
    checkHunks file ranges hs = .ok () ↔
      ∀ h ∈ hs, checkLines file ranges h.oldStart h.lines = .ok () := by
  induction hs with
  | nil => simp [checkHunks]
  | cons h hs ih =>
    rw [checkHunks, Outcome.bind_eq_ok, List.forall_mem_cons, ← ih]
    exact ⟨fun ⟨_, hh, hhs⟩ => ⟨hh, hhs⟩, fun ⟨hh, hhs⟩ => ⟨(), hh, hhs⟩⟩

theorem checkScope_ok {allowed : AllowedRanges} {ps : List FilePatch} :
    checkScope allowed ps = .ok () ↔ ∀ p ∈ ps, p.checkScope allowed = .ok () := by
  induction ps with
  | nil => simp [checkScope]
  | cons p ps ih =>
    rw [checkScope, Outcome.bind_eq_ok, List.forall_mem_cons, ← ih]
    exact ⟨fun ⟨_, hp, hps⟩ => ⟨hp, hps⟩, fun ⟨hp, hps⟩ => ⟨(), hp, hps⟩⟩

/-- The file of a patch in scope is cited, and its hunks pass the check. -/
theorem FilePatch.checkScope_ok {allowed : AllowedRanges} {p : FilePatch}
    (h : p.checkScope allowed = .ok ()) :
    (allowed.find? p.file).getD [] ≠ [] ∧
      ∀ k ∈ p.hunks,
        checkLines p.file ((allowed.find? p.file).getD []) k.oldStart k.lines = .ok () := by
  unfold FilePatch.checkScope at h
  cases hr : allowed.find? p.file with
  | none =>
    rw [hr] at h
    cases h
  | some ranges =>
    rw [hr] at h
    cases ranges with
    | nil => cases h
    | cons r ranges => exact ⟨List.cons_ne_nil r ranges, checkHunks_ok.1 h⟩

theorem FilePatch.cited_of_checkScope {cs : List Citation} {p : FilePatch}
    (h : p.checkScope (allowedRanges cs) = .ok ()) : ∃ c ∈ cs, c.file = p.file := by
  have hne := (FilePatch.checkScope_ok h).1
  rw [find?_allowedRanges] at hne
  obtain ⟨r, hr⟩ := List.exists_mem_of_ne_nil _ hne
  obtain ⟨c, hc, -⟩ := List.mem_map.1 hr
  obtain ⟨hcs, hfile⟩ := List.mem_filter.1 hc
  exact ⟨c, hcs, (eq_of_beq hfile).symm⟩

/-! ## Where the check refuses -/

inductive Refusal where
  | file
  | line (n : Int)
  deriving DecidableEq, Repr

/-- The first line outside of the ranges at which lines of a hunk are edited, when `cursor` is the
number of the next old line. -/
def outsideEdit? (ranges : List (Int × Int)) (cursor : Int) : List HunkLine → Option Int
  | [] => none
  | l :: ls =>
    match l.kind with
    | .context => outsideEdit? ranges (cursor + 1) ls
    | .remove =>
      if inRanges cursor ranges then outsideEdit? ranges (cursor + 1) ls else some cursor
    | .add => if inRanges cursor ranges then outsideEdit? ranges cursor ls else some cursor

/-- What the scope check refuses of a patch. -/
def FilePatch.refusal? (allowed : AllowedRanges) (p : FilePatch) : Option Refusal :=
  match (allowed.find? p.file).getD [] with
  | [] => some .file
  | r :: ranges =>
    (p.hunks.findSome? fun h => outsideEdit? (r :: ranges) h.oldStart h.lines).map .line

/-- What the scope check refuses first. -/
def refusal? (allowed : AllowedRanges) (ps : List FilePatch) : Option Refusal :=
  ps.findSome? (FilePatch.refusal? allowed)

/-- How a check ends that refuses this. -/
def refuse (file : String) (message : String → String) (reason : Failure) :
    Option Refusal → Outcome Unit
  | none => .ok ()
  | some .file => fail reason
  | some (.line n) => refuseEdit file n message

theorem refuseEdit_bind {file : String} {n : Int} {message : String → String} {x : Outcome Unit} :
    (refuseEdit file n message >>= fun _ => x) = refuseEdit file n message := by
  unfold refuseEdit
  cases written n <;> rfl

theorem checkLines_eq (file : String) (ranges : List (Int × Int)) (cursor : Int)
    (ls : List HunkLine) : ∃ message, ∀ reason, checkLines file ranges cursor ls =
      refuse file message reason ((outsideEdit? ranges cursor ls).map .line) := by
  induction ls generalizing cursor with
  | nil => exact ⟨id, fun _ => rfl⟩
  | cons l ls ih =>
    obtain ⟨kind, text⟩ := l
    unfold checkLines outsideEdit?
    cases kind with
    | context => exact ih _
    | remove =>
      dsimp only
      split
      · exact ih _
      · exact ⟨_, fun _ => rfl⟩
    | add =>
      dsimp only
      split
      · exact ih _
      · exact ⟨_, fun _ => rfl⟩

theorem checkHunks_eq (file : String) (ranges : List (Int × Int)) (hs : List Hunk) :
    ∃ message, ∀ reason, checkHunks file ranges hs = refuse file message reason
      ((hs.findSome? fun h => outsideEdit? ranges h.oldStart h.lines).map .line) := by
  induction hs with
  | nil => exact ⟨id, fun _ => rfl⟩
  | cons h hs ih =>
    obtain ⟨message, hlines⟩ := checkLines_eq file ranges h.oldStart h.lines
    rw [checkHunks, List.findSome?_cons]
    cases hout : outsideEdit? ranges h.oldStart h.lines with
    | none =>
      obtain ⟨message', hrest⟩ := ih
      refine ⟨message', fun reason => ?_⟩
      rw [hlines reason, hout]
      exact hrest reason
    | some n =>
      refine ⟨message, fun reason => ?_⟩
      rw [hlines reason, hout]
      exact refuseEdit_bind

theorem FilePatch.checkScope_eq (allowed : AllowedRanges) (p : FilePatch) :
    ∃ message reason, p.checkScope allowed =
      refuse p.file message reason (p.refusal? allowed) := by
  unfold FilePatch.checkScope FilePatch.refusal?
  cases hr : allowed.find? p.file with
  | none => exact ⟨id, _, rfl⟩
  | some ranges =>
    cases ranges with
    | nil => exact ⟨id, _, rfl⟩
    | cons r ranges =>
      obtain ⟨message, hhunks⟩ := checkHunks_eq p.file (r :: ranges) p.hunks
      exact ⟨message, .emptyPatch, hhunks _⟩

/-- **The scope check** ends with what it refuses first. -/
theorem checkScope_eq (allowed : AllowedRanges) (ps : List FilePatch) :
    ∃ file message reason, checkScope allowed ps =
      refuse file message reason (refusal? allowed ps) := by
  induction ps with
  | nil => exact ⟨"", id, .emptyPatch, rfl⟩
  | cons p ps ih =>
    obtain ⟨message, reason, hp⟩ := FilePatch.checkScope_eq allowed p
    rw [checkScope, refusal?, List.findSome?_cons, hp]
    cases p.refusal? allowed with
    | none => exact ih
    | some r =>
      refine ⟨p.file, message, reason, ?_⟩
      cases r with
      | file => rfl
      | line n => exact refuseEdit_bind

/-! ## The check and the place of the edit -/

/-- The numbers that the scope check gives to the removed lines when `n` is that of the next old
line. -/
def removedFrom (n : Int) : List HunkLine → List Int
  | [] => []
  | l :: ls =>
    match l.kind with
    | .context => removedFrom (n + 1) ls
    | .remove => n :: removedFrom (n + 1) ls
    | .add => removedFrom n ls

/-- The hunk announces an old line; or else the line after each line that the scope check takes for
the removed one is inside as well. -/
def Hunk.Announced (inside : Int → Prop) (h : Hunk) : Prop :=
  0 < h.oldCount ∨ ∀ n ∈ removedFrom h.oldStart h.lines, inside (n + 1)

section
variable {inside : Int → Prop} {file : String} {ranges : List (Int × Int)}
  (hinside : ∀ n, inRanges n ranges = true ↔ inside n)

include hinside in
/-- At the place where the scope check has its cursor, lines in scope stay within. -/
theorem within_of_checkLines {n : Int} {ls : List HunkLine}
    (h : checkLines file ranges n ls = .ok ()) :
    Edit.Within inside n (ls.map HunkLine.step) := by
  induction ls generalizing n with
  | nil => trivial
  | cons l ls ih =>
    obtain ⟨kind, text⟩ := l
    unfold checkLines at h
    cases kind with
    | context => exact ih h
    | remove =>
      dsimp only at h
      split at h
      · rename_i hn
        exact ⟨(hinside n).1 hn, ih h⟩
      · obtain ⟨_, -, h⟩ := Outcome.bind_eq_ok.1 h
        cases h
    | add =>
      dsimp only at h
      split at h
      · rename_i hn
        exact ⟨.inr ((hinside n).1 hn), ih h⟩
      · obtain ⟨_, -, h⟩ := Outcome.bind_eq_ok.1 h
        cases h

include hinside in
/-- One line further on, added lines still are beside a line in scope, and the removed lines are the
next ones. -/
theorem within_succ_of_checkLines {n : Int} {ls : List HunkLine}
    (h : checkLines file ranges n ls = .ok ()) :
    Edit.Within inside (n + 1) (ls.map HunkLine.step) ↔ ∀ m ∈ removedFrom n ls, inside (m + 1) := by
  induction ls generalizing n with
  | nil => simp [Edit.Within, removedFrom]
  | cons l ls ih =>
    obtain ⟨kind, text⟩ := l
    unfold checkLines at h
    cases kind with
    | context => exact ih h
    | remove =>
      dsimp only at h
      split at h
      · simp only [List.map_cons, HunkLine.step, Edit.Within, removedFrom, List.forall_mem_cons,
          ih h]
      · obtain ⟨_, -, h⟩ := Outcome.bind_eq_ok.1 h
        cases h
    | add =>
      dsimp only at h
      split at h
      · rename_i hn
        -- The line is put one place late, right behind the line that was checked.
        have hbefore : inside (n + 1 - 1) := by
          rw [Int.add_sub_cancel]
          exact (hinside n).1 hn
        simp only [List.map_cons, HunkLine.step, Edit.Within, removedFrom, ih h, hbefore, true_or,
          true_and]
      · obtain ⟨_, -, h⟩ := Outcome.bind_eq_ok.1 h
        cases h

include hinside in
/-- The edit of a hunk in scope stays within exactly when it is announced. -/
theorem Hunk.within_steps_iff {h : Hunk}
    (hcheck : checkLines file ranges h.oldStart h.lines = .ok ()) :
    Edit.Within inside (h.offset + 1) h.steps ↔ h.Announced inside := by
  by_cases hcount : 0 < h.oldCount
  · have hplace : h.offset + 1 = h.oldStart := by
      rw [Hunk.offset, if_pos hcount]
      omega
    rw [hplace]
    exact ⟨fun _ => .inl hcount, fun _ => within_of_checkLines hinside hcheck⟩
  · have hplace : h.offset + 1 = h.oldStart + 1 := by
      rw [Hunk.offset, if_neg hcount]
    rw [hplace, Hunk.steps, within_succ_of_checkLines hinside hcheck]
    exact ⟨.inr, fun ha => ha.resolve_left hcount⟩

end

/-- The edit of ascending hunks stays within when each hunk does at its own place. -/
theorem within_hunksEdit {inside : Int → Prop} {passed : Nat} {hs : List Hunk}
    (hasc : Ascending passed hs) :
    Edit.Within inside (passed + 1) (hunksEdit passed hs) ↔
      ∀ h ∈ hs, Edit.Within inside (h.offset + 1) h.steps := by
  induction hs generalizing passed with
  | nil => simp [hunksEdit, Edit.Within]
  | cons h hs ih =>
    obtain ⟨hle, hrest⟩ := hasc
    have hplace : (passed : Int) + 1 + ((h.offset.toNat - passed : Nat) : Int) = h.offset + 1 := by
      omega
    have hnext : h.offset + 1 + (h.steps.reach : Int) =
        ((h.offset.toNat + h.steps.reach : Nat) : Int) + 1 := by
      omega
    rw [hunksEdit, List.append_assoc, Edit.within_append, Edit.within_append,
      Edit.reach_replicate_keep, hplace, hnext, ih hrest, List.forall_mem_cons]
    exact and_iff_right Edit.within_replicate_keep

/-- **The place of a patch**: the edit of a patch in scope whose hunks ascend stays within the
evidence exactly when all its hunks are announced. -/
theorem FilePatch.within_edit_iff {cs : List Citation} {p : FilePatch}
    (hscope : p.checkScope (allowedRanges cs) = .ok ()) (hasc : Ascending 0 p.hunks) :
    Edit.Within (Cited cs p.file) 1 p.edit ↔ ∀ h ∈ p.hunks, h.Announced (Cited cs p.file) := by
  have hchecked := (FilePatch.checkScope_ok hscope).2
  have hedit : Edit.Within (Cited cs p.file) 1 p.edit ↔
      ∀ h ∈ p.hunks, Edit.Within (Cited cs p.file) (h.offset + 1) h.steps :=
    within_hunksEdit hasc
  rw [hedit]
  exact forall₂_congr fun h hh => Hunk.within_steps_iff (fun _ => inRanges_allowed) (hchecked h hh)

end EvidenceLock
