import EvidenceLock.Proofs.LineBreaks
import EvidenceLock.Proofs.Verified

/-!
# Patches without net effect

A patched text never is the text that was read byte by byte: its lines are written again. When they
are the same lines, and the structure of a text does not depend on how its lines end, the second
analysis is the first one (`analyze_through`), and no suggestion is verified by it
(`runFixes_unchanged`).
-/

namespace EvidenceLock

open EvidenceLock.Text

/-- The new text has the lines of the old one, or consists of these lines written again. -/
def SameLines (old new : String) : Prop :=
  linesOf new = linesOf old ∨ new = joinLines (linesOf old)

/-- What does not change when a text is written again is the same for texts of the same lines. -/
theorem SameLines.congr {α : Type} {f : String → α}
    (hf : ∀ content, f (joinLines (linesOf content)) = f content) {old new : String}
    (h : SameLines old new) : f new = f old := by
  rcases h with h | rfl
  · rw [← hf new, h, hf old]
  · exact hf old

/-- Every text of the overlay has the lines of the text that is read. -/
def KeepsLines (read : Reader) (overlay : Overlay) : Prop :=
  ∀ file new, overlay.find? file = some new → ∃ old, read file = .ok old ∧ SameLines old new

/-- The structure of a text is that of its lines. -/
def ReadsLines (visit : Visitors) : Prop :=
  ∀ l content path, visit l (joinLines (linesOf content)) path = visit l content path

section
variable {read : Reader} {visit : Visitors} {overlay : Overlay}

theorem indexFile_through (hvisit : ReadsLines visit) (hsame : KeepsLines read overlay)
    (r : FileRecord) : indexFile (read.through overlay) visit r = indexFile read visit r := by
  unfold indexFile Reader.through
  cases hnew : overlay.find? r.path with
  | none => rfl
  | some new =>
    obtain ⟨old, hread, hlines⟩ := hsame r.path new hnew
    cases Language.ofExtension? r.extension with
    | none => rfl
    | some l =>
      have hfacts : visit l new r.path = visit l old r.path :=
        hlines.congr (f := fun content => visit l content r.path) fun content =>
          hvisit l content r.path
      have hnormal : normalizedLines l new = normalizedLines l old :=
        hlines.congr (normalizedLines_joinLines l)
      simp only [hread, Outcome.ok_bind, hfacts, hnormal]

/-- **An analysis through an overlay** of the same lines is the analysis without it. -/
theorem analyze_through (hvisit : ReadsLines visit) (hsame : KeepsLines read overlay)
    (limits : SignalLimits) (rs : List FileRecord) :
    analyze limits (read.through overlay) visit rs = analyze limits read visit rs := by
  have hindex : indexOrSkip (read.through overlay) visit = indexOrSkip read visit := by
    funext r
    rw [indexOrSkip, indexOrSkip, indexFile_through hvisit hsame]
  rw [analyze, analyze, indexAll, indexAll, hindex]

end

/-- Nothing is strictly better than itself. -/
theorem GuardedIssue.not_improved_self {i : GuardedIssue} {cited : List Citation} {a : Analysis} :
    ¬ i.Improved cited a a := by
  intro h
  unfold GuardedIssue.Improved at h
  split at h
  · obtain ⟨c, rest, -, -, hlt⟩ := h
    omega
  · omega

/-- Whatever patches of the last answer are in scope and can be applied, the files keep their
lines. -/
def Attempt.KeepsLines (a : Attempt) (scene : FixScene) (cited : List Citation) : Prop :=
  ∀ e text ps overlay, a.exchanges.getLast? = some e → e.answer = .ok text →
    Diff.parse text = .ok ps → checkScope (allowedRanges cited) ps = .ok () →
    buildOverlay scene.read ps = .ok overlay → EvidenceLock.KeepsLines scene.read overlay

/-- **A patch that changes nothing** is not verified: in a run after an analysis of the current
files, an attempt whose patches keep the lines of all files has no second analysis other than the
first one, and its suggestion is rejected. -/
theorem runFixes_unchanged {scene : FixScene} {cap : Number} {issues : List GuardedIssue}
    {script : List Answer} {run : FixRun} {first : AnalysisRun} (hvisit : ReadsLines scene.visit)
    (hfirst : analyze scene.limits scene.read scene.visit scene.records = .ok first)
    (hbefore : first.analysis = scene.before)
    (h : (runFixes scene cap issues script).result = .ok run) :
    ∃ (chosen : List GuardedIssue) (as : List Attempt),
      fixCandidates issues cap = .ok chosen ∧ as.length = chosen.length ∧
      run.result.suggestions = as.map Attempt.suggestion ∧
      run.exchanges = as.flatMap Attempt.exchanges ∧
      ∀ k i a, chosen[k]? = some i → as[k]? = some a → a.suggestion.id = k + 1 ∧
        ∃ cited, citationsOf i.evidence = .ok cited ∧
          (a.KeepsLines scene cited → a.suggestion.verified = false ∧
            ∀ after, a.after = some after → after = scene.before) := by
  obtain ⟨chosen, as, hchosen, has, rfl⟩ := runFixes_ok.1 h
  refine ⟨chosen, as, hchosen, has.length_eq, rfl, rfl, fun k i a hi ha => ?_⟩
  obtain ⟨j, own, hj, hown⟩ := has.getElem? ha
  rw [hi] at hj
  cases hj
  obtain ⟨cited, shown, hcited, hshown, hend⟩ := GuardedIssue.attempt_ok.1 hown
  refine ⟨hend.id_eq.trans (Nat.add_comm 1 k), cited, hcited, fun hkeeps => ?_⟩
  have hsame : ∀ after, a.Succeeds scene cited after → after = scene.before := by
    rintro after ⟨e, text, hlast, htext, -, ps, overlay, run, hps, hscope, hoverlay, hrun, rfl⟩
    -- The analysis through the overlay is the one before the patch.
    have hlines := hkeeps e text ps overlay hlast htext hps hscope hoverlay
    rw [analyze_through hvisit hlines, hfirst] at hrun
    cases hrun
    exact hbefore
  constructor
  · rw [← Bool.not_eq_true, hend.verified_iff hcited hshown]
    rintro ⟨after, hsucceeds, himproved⟩
    rw [hsame after hsucceeds] at himproved
    exact GuardedIssue.not_improved_self himproved
  · intro after hafter
    exact hsame after (hend.after_iff.1 hafter)

/-! ### A line removed and put back -/

/-- The structure of texts with their carriage returns left out. -/
def Visitors.withoutReturns (visit : Visitors) : Visitors := fun l content path =>
  visit l (String.ofList (content.toList.filter (· != '\r'))) path

theorem readsLines_withoutReturns (visit : Visitors) : ReadsLines visit.withoutReturns := by
  have hfilter : ∀ {as bs : List Char}, FewerReturns as bs →
      as.filter (· != '\r') = bs.filter (· != '\r') := by
    intro as bs h
    induction h with
    | nil => rfl
    | cons c _ ih => rw [List.filter_cons, List.filter_cons, ih]
    | drop _ ih => simpa using ih
  intro l content path
  rw [Visitors.withoutReturns, Visitors.withoutReturns, hfilter (fewerReturns_joinLines content)]

/-- The short module as a file whose lines end in carriage returns and line feeds. -/
def returnsModule : String := "def f():\r\n    x = 1\r\n    return x\r\ny = 2\r\nz = 3\r\n"

/-- The second line is removed and put back. -/
def rewritingDiff : String := "--- a/a.py\n+++ b/a.py\n@@ -2,1 +2,1 @@\n-    x = 1\n+    x = 1\n"

/-- The scene of that file before any patch. -/
def returnsScene : FixScene :=
  let read : Reader := fun _ => .ok returnsModule
  let visit := Syntax.visitors.withoutReturns
  { read, visit, records := shortRecords, limits := shortLimits
    before :=
      match analyze shortLimits read visit shortRecords with
      | .ok run => run.analysis
      | .error _ => default }

/-- The carriage returns do not matter to the structure of that file. -/
theorem visit_returnsModule : returnsScene.visit .python returnsModule "a.py" =
    Syntax.visitors .python returnsModule "a.py" := by
  let facts : FileFacts := { functions := [{ file := "a.py", name := "f", first := 1, last := 3 }] }
  have hfeeds : String.ofList (returnsModule.toList.filter (· != '\r')) = shortModule := by
    decide +kernel
  have hshort : Syntax.factsOf .python shortModule "a.py" = facts := by decide +kernel
  have hreturns : Syntax.factsOf .python returnsModule "a.py" = facts := by decide +kernel
  have hvisit : returnsScene.visit .python returnsModule "a.py" =
      .ok (Syntax.factsOf .python
        (String.ofList (returnsModule.toList.filter (· != '\r'))) "a.py") := rfl
  rw [hvisit, hfeeds, hshort, Syntax.visitors, hreturns]

/-- The text of the overlay is not the one that was read, and has its lines. -/
theorem keepsLines_rewritingDiff {ps : List FilePatch} {overlay : Overlay}
    (hps : Diff.parse rewritingDiff = .ok ps)
    (hoverlay : buildOverlay returnsScene.read ps = .ok overlay) :
    KeepsLines returnsScene.read overlay := by
  have hpatches : ((Diff.parse rewritingDiff).toOption.bind fun ps =>
      (buildOverlay returnsScene.read ps).toOption) = some [("a.py", shortModule)] := by
    decide +kernel
  rw [hps] at hpatches
  have htexts : overlay = [("a.py", shortModule)] := by
    simpa [Except.toOption, hoverlay] using hpatches
  intro file new hnew
  obtain ⟨-, rfl⟩ : ("a.py" = file) ∧ shortModule = new := by
    rw [htexts] at hnew
    rw [Keyed.find?_cons, Keyed.find?_nil] at hnew
    split at hnew
    · rename_i hfile
      exact ⟨(eq_of_beq hfile).symm, Option.some.inj hnew⟩
    · cases hnew
  exact ⟨returnsModule, rfl, .inr (by decide +kernel)⟩

/-- A line that is removed and put back is not verified, although the text is a new one. -/
theorem runFixes_unchanged_rewritten : ∃ first run,
    returnsScene.visit .python returnsModule "a.py" =
      Syntax.visitors .python returnsModule "a.py" ∧
    analyze returnsScene.limits returnsScene.read returnsScene.visit returnsScene.records =
      .ok first ∧
    first.analysis = returnsScene.before ∧
    (runFixes returnsScene 1 [shortIssue] [.ok rewritingDiff]).result = .ok run ∧
    run.result.suggestions.map Suggestion.verified = [false] := by
  have hsome : (analyze returnsScene.limits returnsScene.read returnsScene.visit
      returnsScene.records).toOption.isSome = true := by decide +kernel
  have hrun : ((runFixes returnsScene 1 [shortIssue] [.ok rewritingDiff]).result.toOption.map
      fun run => run.exchanges.map fun e => e.answer.toOption) = some [some rewritingDiff] := by
    decide +kernel
  obtain ⟨first, hfirst⟩ := Option.isSome_iff_exists.1 hsome
  have hfirst := Outcome.eq_ok_of_toOption hfirst
  have hbefore : first.analysis = returnsScene.before := by
    have hscene : returnsScene.before =
        match analyze returnsScene.limits returnsScene.read returnsScene.visit
          returnsScene.records with
        | .ok run => run.analysis
        | .error _ => default := rfl
    rw [hscene, hfirst]
  obtain ⟨run, hrun, hanswers⟩ := Option.map_eq_some_iff.1 hrun
  have hok := Outcome.eq_ok_of_toOption hrun
  refine ⟨first, run, visit_returnsModule, hfirst, hbefore, hok, ?_⟩
  obtain ⟨chosen, as, hchosen, hlength, hsuggestions, hexchanges, heach⟩ :=
    runFixes_unchanged (readsLines_withoutReturns Syntax.visitors) hfirst hbefore hok
  cases hchosen
  obtain ⟨a, rfl⟩ := List.length_eq_one_iff.1 hlength
  obtain ⟨-, cited, -, hkeeps⟩ := heach 0 shortIssue a rfl rfl
  rw [hsuggestions, List.map_singleton, List.map_singleton, (hkeeps ?_).1]
  intro e text ps overlay hlast htext hps _ hoverlay
  have hmem : e.answer.toOption ∈ run.exchanges.map fun e => e.answer.toOption := by
    rw [hexchanges, List.flatMap_singleton]
    exact List.mem_map_of_mem (List.mem_of_getLast? hlast)
  rw [hanswers, List.mem_singleton, htext] at hmem
  cases hmem
  exact keepsLines_rewritingDiff hps hoverlay

end EvidenceLock
