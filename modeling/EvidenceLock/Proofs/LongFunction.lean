import EvidenceLock.Proofs.Verified

/-!
# Long functions that only move

The verdict on a long function compares the longest function in the cited lines before and after.
The cited lines are the same numbers both times, but a patch may put lines above a function and so
move it. `MovedAway` says when this fools the verdict: no length in the file is another one, and yet
all functions as long as the longest cited one have left the cited lines. Apart from that, a
verified suggestion has changed a length (`longFunction_verdict`).
-/

namespace EvidenceLock

def longLengths (a : Analysis) (file : String) : List Int :=
  (a.signals.longFunctions.filter fun s => s.file == file).map FunctionSpan.length

/-- The lengths of the file's long functions are as before, but those that are at least as long as
the longest cited one all stand outside of the cited lines. -/
structure MovedAway (before after : Analysis) (c : Citation) : Prop where
  cited : 0 < maxInRange before.signals.longFunctions c.file c.first c.last
  same : (longLengths before c.file).Perm (longLengths after c.file)
  away : ∀ g ∈ after.signals.longFunctions, g.file = c.file →
    maxInRange before.signals.longFunctions c.file c.first c.last ≤ g.length →
      g.last < c.first ∨ c.last < g.first

theorem FunctionSpan.overlaps_iff {s : FunctionSpan} {file : String} {first last : Int} :
    s.overlaps file first last = true ↔ s.file = file ∧ s.first ≤ last ∧ first ≤ s.last := by
  simp only [FunctionSpan.overlaps, Bool.and_eq_true, beq_iff_eq, decide_eq_true_eq, and_assoc]

/-- A function that moved away is there: the longest cited one has a counterpart outside. -/
theorem MovedAway.exists_counterpart {before after : Analysis} {c : Citation}
    (h : MovedAway before after c) :
    ∃ g ∈ after.signals.longFunctions, g.file = c.file ∧
      g.length = maxInRange before.signals.longFunctions c.file c.first c.last ∧
      (g.last < c.first ∨ c.last < g.first) := by
  obtain ⟨s, hs, hover, hlen⟩ := exists_length_eq_maxInRange h.cited
  have hfile := (FunctionSpan.overlaps_iff.1 hover).1
  have hbefore : s.length ∈ longLengths before c.file :=
    List.mem_map_of_mem (List.mem_filter.2 ⟨hs, by rw [hfile]; exact beq_self_eq_true _⟩)
  obtain ⟨g, hg, hglen⟩ := List.mem_map.1 (h.same.subset hbefore)
  obtain ⟨hgafter, hgfile⟩ := List.mem_filter.1 hg
  have hgc := eq_of_beq hgfile
  rw [hlen] at hglen
  exact ⟨g, hgafter, hgc, hglen, h.away g hgafter hgc (Int.le_of_eq hglen.symm)⟩

/-- The verdict is favourable without a changed length exactly when the functions moved away. -/
theorem verifyLongFunction_moved {before after : Analysis} {c : Citation} {threshold : Number} :
    ((verifyLongFunction before after c threshold).ok = true ∧
      (longLengths before c.file).Perm (longLengths after c.file)) ↔ MovedAway before after c := by
  rw [verifyLongFunction_ok]
  constructor
  · rintro ⟨⟨hcited, hshorter⟩, hsame⟩
    refine ⟨hcited, hsame, fun g hg hfile hlen => ?_⟩
    -- In the cited lines every function is shorter now, so this one stands elsewhere.
    have hinside := (maxInRange_lt hcited).1 hshorter g hg
    by_contra hplace
    have hover : g.overlaps c.file c.first c.last = true :=
      FunctionSpan.overlaps_iff.2 ⟨hfile, by omega, by omega⟩
    have := hinside hover
    omega
  · intro h
    refine ⟨⟨h.cited, (maxInRange_lt h.cited).2 fun g hg hover => ?_⟩, h.same⟩
    obtain ⟨hfile, hfirst, hlast⟩ := FunctionSpan.overlaps_iff.1 hover
    by_contra hlen
    have := h.away g hg hfile (by omega)
    omega

/-- **The verdict on a long function.** A verified suggestion for one cites a place and got as far
as a second analysis. For an attempt that got there, being verified implies that a length in the
cited file has changed, except when the functions only moved away; then the longest cited one has a
counterpart of its length outside of the cited lines. -/
theorem longFunction_verdict {scene : FixScene} {cap : Number} {issues : List GuardedIssue}
    {script : List Answer} {run : FixRun}
    (h : (runFixes scene cap issues script).result = .ok run) :
    ∃ (chosen : List GuardedIssue) (as : List Attempt),
      fixCandidates issues cap = .ok chosen ∧ as.length = chosen.length ∧
      run.result.suggestions = as.map Attempt.suggestion ∧
      ∀ (k : Nat) (i : GuardedIssue) (a : Attempt), chosen[k]? = some i → as[k]? = some a →
        i.signal = longFunctionSignal →
        (a.suggestion.verified = true → ∃ c rest after,
          citationsOf i.evidence = .ok (c :: rest) ∧ a.after = some after) ∧
        ∀ c rest after, citationsOf i.evidence = .ok (c :: rest) → a.after = some after →
          ((a.suggestion.verified = true →
              ¬ (longLengths scene.before c.file).Perm (longLengths after c.file)) ↔
            ¬ MovedAway scene.before after c) ∧
          (MovedAway scene.before after c → ∃ g ∈ after.signals.longFunctions, g.file = c.file ∧
            g.length = maxInRange scene.before.signals.longFunctions c.file c.first c.last ∧
            (g.last < c.first ∨ c.last < g.first)) := by
  obtain ⟨chosen, as, hchosen, has, rfl⟩ := runFixes_ok.1 h
  refine ⟨chosen, as, hchosen, has.length_eq, rfl, fun k i a hi ha hsignal => ?_⟩
  obtain ⟨j, own, hj, hown⟩ := has.getElem? ha
  rw [hi] at hj
  cases hj
  obtain ⟨cited, shown, hcited, hshown, hend⟩ := GuardedIssue.attempt_ok.1 hown
  have hverified := hend.verified_iff hcited hshown
  constructor
  · intro hv
    obtain ⟨after, hsucceeds, himproved⟩ := hverified.1 hv
    rw [GuardedIssue.Improved, if_pos hsignal] at himproved
    obtain ⟨c, rest, rfl, -⟩ := himproved
    exact ⟨c, rest, after, hcited, hend.after_iff.2 hsucceeds⟩
  · intro c rest after hc hafter
    rw [hcited] at hc
    cases hc
    have hshorter : a.suggestion.verified = true ↔
        (verifyLongFunction scene.before after c scene.limits.longFunction).ok = true := by
      rw [hend.verified_iff_improved hcited hshown hafter, GuardedIssue.Improved, if_pos hsignal,
        verifyLongFunction_ok]
      constructor
      · rintro ⟨c', rest', hc, himproved⟩
        cases hc
        exact himproved
      · intro himproved
        exact ⟨c, rest, rfl, himproved⟩
    rw [hshorter, ← not_and]
    exact ⟨not_congr verifyLongFunction_moved, MovedAway.exists_counterpart⟩

/-- A verdict at work: the function loses a line in its place, and the verified suggestion has a
second analysis to show for it. -/
theorem longFunction_verdict_shorter : ∃ (run : FixRun) (a : Attempt) (after : Analysis),
    (runFixes shortScene 1 [shortIssue] [.ok announcedDiff]).result = .ok run ∧
    run.result.suggestions = [a.suggestion] ∧ a.suggestion.verified = true ∧
    a.after = some after := by
  obtain ⟨run, hok, hverified⟩ := exists_shorterRun
  obtain ⟨chosen, as, hchosen, -, hsuggestions, heach⟩ := longFunction_verdict hok
  cases hchosen
  rw [hsuggestions] at hverified
  cases as with
  | nil => cases hverified
  | cons a as =>
    rw [List.map_cons, List.map_cons] at hverified
    obtain ⟨ha, has⟩ := List.cons.inj hverified
    rw [List.map_eq_nil_iff, List.map_eq_nil_iff] at has
    subst has
    obtain ⟨_, _, after, -, hafter⟩ := (heach 0 shortIssue a rfl rfl rfl).1 ha
    exact ⟨run, a, after, hok, hsuggestions, ha, hafter⟩

/-! ### A function that only moves -/

/-- Three lines are put above the long function, before its first line. -/
def movingDiff : String :=
  "--- a/a.py\n+++ b/a.py\n@@ -1,1 +1,4 @@\n+a = 1\n+b = 2\n+c = 3\n def f():\n"

/-- **A function that only moves** is reported as shorter: it has three lines before and after. -/
theorem longFunction_moved :
    ∃ first run after,
      analyze shortScene.limits shortScene.read shortScene.visit shortScene.records = .ok first ∧
      first.analysis = shortScene.before ∧
      (runFixes shortScene 1 [shortIssue] [.ok movingDiff]).result = .ok run ∧
      run.result.suggestions.map (fun s => (s.verified, s.message)) =
        [(true, "Long function length reduced.")] ∧
      shortScene.reanalyze (allowedRanges functionCited) (Diff.parse movingDiff) = .ok after ∧
      (longLengths shortScene.before "a.py").Perm (longLengths after "a.py") := by
  have hrun : ((runFixes shortScene 1 [shortIssue] [.ok movingDiff]).result.toOption.map fun run =>
      run.result.suggestions.map fun s => (s.verified, s.message)) =
        some [(true, "Long function length reduced.")] := by decide +kernel
  have hafter : ((shortScene.reanalyze (allowedRanges functionCited)
      (Diff.parse movingDiff)).toOption.map fun after => longLengths after "a.py") =
        some (longLengths shortScene.before "a.py") := by decide +kernel
  obtain ⟨first, hfirst, hbefore⟩ := exists_shortAnalysis
  obtain ⟨run, hrun, hsuggestions⟩ := Option.map_eq_some_iff.1 hrun
  obtain ⟨after, hafter, hlengths⟩ := Option.map_eq_some_iff.1 hafter
  exact ⟨first, run, after, hfirst, hbefore, Outcome.eq_ok_of_toOption hrun, hsuggestions,
    Outcome.eq_ok_of_toOption hafter, by rw [hlengths]⟩

end EvidenceLock
