import EvidenceLock.Patch.Apply
import EvidenceLock.Proofs.Edit
import EvidenceLock.Proofs.Outcome

/-!
# The edit that a patch makes

`FilePatch.edit` reads off a patch what it does to the lines of its file, with the places that the
application of hunks gives them and not with those of their headers. Where the application
succeeds, this edit is what it does (`FilePatch.applyLines_ok`). The proof follows the application
hunk by hunk: `Applying.Leads` says that some steps lead from one state to a later one.
-/

namespace EvidenceLock

open EvidenceLock.Text

def HunkLine.step (l : HunkLine) : EditStep :=
  match l.kind with
  | .context => .keep
  | .remove => .drop
  | .add => .put l.text

def Hunk.steps (h : Hunk) : Edit := h.lines.map HunkLine.step

/-- The edit of hunks after `passed` lines of the text. -/
def hunksEdit (passed : Nat) : List Hunk → Edit
  | [] => []
  | h :: hs =>
    List.replicate (h.offset.toNat - passed) .keep ++ h.steps ++
      hunksEdit (h.offset.toNat + h.steps.reach) hs

/-- The edit that a patch makes of the lines of its file. -/
def FilePatch.edit (p : FilePatch) : Edit := hunksEdit 0 p.hunks

/-- Hunks stand in ascending order after `passed` lines and do not overlap. -/
def Ascending (passed : Nat) : List Hunk → Prop
  | [] => True
  | h :: hs => (passed : Int) ≤ h.offset ∧ Ascending (h.offset.toNat + h.steps.reach) hs

namespace Applying

/-- Some steps lead from one state of an application to another: they step over lines that there
are, and whatever is done afterwards gives the same lines from both states. -/
structure Leads (a : Applying) (s : Edit) (b : Applying) : Prop where
  reach_le : s.reach ≤ a.rest.length
  passed : b.passed = a.passed + s.reach
  rest : b.rest.length + s.reach = a.rest.length
  lines : ∀ e : Edit, a.output.reverse ++ Edit.apply (s ++ e) a.rest =
    b.output.reverse ++ Edit.apply e b.rest

namespace Leads

theorem refl (a : Applying) : Leads a [] a :=
  ⟨Nat.zero_le _, rfl, rfl, fun _ => rfl⟩

theorem trans {a b c : Applying} {s t : Edit} (h : Leads a s b) (k : Leads b t c) :
    Leads a (s ++ t) c := by
  refine ⟨?_, ?_, ?_, fun e => ?_⟩
  · have h₁ := h.rest
    have h₂ := k.reach_le
    rw [Edit.reach_append]
    omega
  · rw [k.passed, h.passed, Edit.reach_append, Nat.add_assoc]
  · have h₁ := h.rest
    have h₂ := k.rest
    rw [Edit.reach_append]
    omega
  · rw [List.append_assoc, h.lines, k.lines]

theorem keep {a : Applying} {n : Nat} (hn : n ≤ a.rest.length) :
    Leads a (List.replicate n .keep) (a.keep n) := by
  obtain ⟨passed, rest, output⟩ := a
  refine ⟨by simpa using hn, by simp [Applying.keep], ?_, fun e => ?_⟩
  · simp only [Applying.keep, List.length_drop, Edit.reach_replicate_keep]
    simp only at hn
    omega
  · simp only [Applying.keep] at hn ⊢
    induction n generalizing rest output with
    | zero => simp
    | succ n ih =>
      cases rest with
      | nil => simp at hn
      | cons l rest =>
        have hrest := ih rest (l :: output) (by simpa using hn)
        simp only [List.reverse_cons, List.append_assoc, List.singleton_append] at hrest
        simpa [List.replicate_succ] using hrest

end Leads

theorem applyLines_ok {file : String} {start : Int} {a b : Applying} {ls : List HunkLine}
    (h : applyLines file start a ls = .ok b) : Leads a (ls.map HunkLine.step) b := by
  induction ls generalizing a with
  | nil =>
    cases h
    exact .refl _
  | cons l ls ih =>
    obtain ⟨kind, text⟩ := l
    obtain ⟨passed, rest, output⟩ := a
    cases kind with
    | add =>
      have step : Leads ⟨passed, rest, output⟩ [.put text] ⟨passed, rest, text :: output⟩ :=
        ⟨Nat.zero_le _, rfl, rfl, fun e => by simp⟩
      exact step.trans (ih h)
    | context =>
      cases rest with
      | nil => cases h
      | cons old rest =>
        simp only [applyLines] at h
        split at h
        · have step : Leads ⟨passed, old :: rest, output⟩ [.keep]
              ⟨passed + 1, rest, old :: output⟩ :=
            ⟨by simp [Edit.reach], rfl, rfl, fun e => by simp⟩
          exact step.trans (ih h)
        · cases h
    | remove =>
      cases rest with
      | nil => cases h
      | cons old rest =>
        simp only [applyLines] at h
        split at h
        · have step : Leads ⟨passed, old :: rest, output⟩ [.drop] ⟨passed + 1, rest, output⟩ :=
            ⟨by simp [Edit.reach], rfl, rfl, fun e => by simp⟩
          exact step.trans (ih h)
        · cases h

/-- A hunk keeps the lines up to its place and then does what its lines say. -/
theorem applyHunk_ok {file : String} {total : Nat} {a b : Applying} {h : Hunk}
    (hb : applyHunk file total a h = .ok b) (htotal : a.passed + a.rest.length = total) :
    (a.passed : Int) ≤ h.offset ∧
      Leads a (List.replicate (h.offset.toNat - a.passed) .keep ++ h.steps) b := by
  unfold applyHunk at hb
  by_cases hrange : h.offset < 0 ∨ (total : Int) < h.offset
  · rw [if_pos hrange] at hb
    obtain ⟨_, -, hb⟩ := Outcome.bind_eq_ok.1 hb
    cases hb
  · rw [if_neg hrange] at hb
    split at hb
    · cases hb
    · have hkeep : h.offset.toNat - a.passed ≤ a.rest.length := by omega
      exact ⟨by omega, (Leads.keep hkeep).trans (applyLines_ok hb)⟩

theorem foldlM_applyHunk_ok {file : String} {total : Nat} {a b : Applying} {hs : List Hunk}
    (hb : hs.foldlM (applyHunk file total) a = .ok b)
    (htotal : a.passed + a.rest.length = total) :
    Ascending a.passed hs ∧ Leads a (hunksEdit a.passed hs) b := by
  induction hs generalizing a with
  | nil =>
    cases hb
    exact ⟨trivial, .refl _⟩
  | cons h hs ih =>
    rw [List.foldlM_cons] at hb
    obtain ⟨c, hc, hb⟩ := Outcome.bind_eq_ok.1 hb
    obtain ⟨hle, hlead⟩ := applyHunk_ok hc htotal
    -- The next hunk starts from where this one has led.
    have hpassed : c.passed = h.offset.toNat + h.steps.reach := by
      rw [hlead.passed, Edit.reach_append, Edit.reach_replicate_keep]
      omega
    have hrest := hlead.rest
    have hp := hlead.passed
    obtain ⟨hasc, hlast⟩ := ih hb (by omega)
    rw [hpassed] at hasc hlast
    exact ⟨⟨hle, hasc⟩, hlead.trans hlast⟩

/-- The lines of a hunk are applied without faults. -/
theorem applyLines_faultless {file : String} {start : Int} {a : Applying} {ls : List HunkLine} :
    Faultless (applyLines file start a ls) := by
  induction ls generalizing a with
  | nil => exact .ok a
  | cons l ls ih =>
    rw [applyLines]
    split
    · exact ih
    · split
      · exact .fail _
      · split
        · exact ih
        · exact .fail _

end Applying

/-- **A patch does what its edit says.** Where a patch is applied, its hunks stand in order, its
edit steps over lines that there are, and the new lines are those that the edit makes. -/
theorem FilePatch.applyLines_ok {p : FilePatch} {lines new : List String}
    (h : p.applyLines lines = .ok new) :
    Ascending 0 p.hunks ∧ p.edit.reach ≤ lines.length ∧ new = p.edit.apply lines := by
  obtain ⟨done, hdone, hnew⟩ := Outcome.bind_eq_ok.1 h
  obtain ⟨hasc, hlead⟩ := Applying.foldlM_applyHunk_ok hdone (by simp)
  have hlines := hlead.lines []
  rw [List.append_nil] at hlines
  cases hnew
  refine ⟨hasc, hlead.reach_le, ?_⟩
  simpa [Applying.finish, Edit.apply, FilePatch.edit] using hlines.symm

/-- The text that a patch makes consists of the lines that its edit makes. -/
theorem FilePatch.apply_ok {p : FilePatch} {text new : String} (h : p.apply text = .ok new) :
    Ascending 0 p.hunks ∧ p.edit.reach ≤ (linesOf text).length ∧
      new = joinLines (p.edit.apply (linesOf text)) := by
  obtain ⟨lines, hlines, rfl⟩ := Outcome.map_eq_ok.1 h
  obtain ⟨hasc, hreach, rfl⟩ := FilePatch.applyLines_ok hlines
  exact ⟨hasc, hreach, rfl⟩

end EvidenceLock
