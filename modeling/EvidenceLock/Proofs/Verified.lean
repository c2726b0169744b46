import EvidenceLock.Proofs.Attempt
import EvidenceLock.Proofs.Diff
import EvidenceLock.Proofs.Lock
import EvidenceLock.Proofs.Verdict
import EvidenceLock.Syntax.Visitor

/-!
# What a verified suggestion promises

A suggestion is verified exactly when the last answer of its attempt went through all stages and the
second analysis is strictly better by the measure of the issue (`Ends.verified_iff`). The preview of
a run belongs to the first verified suggestion.
-/

namespace EvidenceLock

/-- The second analysis is strictly better than the first, by the measure of the issue. -/
def GuardedIssue.Improved (i : GuardedIssue) (cited : List Citation) (before after : Analysis) :
    Prop :=
  if i.signal = longFunctionSignal then
    ∃ c rest, cited = c :: rest ∧
      0 < maxInRange before.signals.longFunctions c.file c.first c.last ∧
      maxInRange after.signals.longFunctions c.file c.first c.last <
        maxInRange before.signals.longFunctions c.file c.first c.last
  else after.metrics.duplicateBlocks < before.metrics.duplicateBlocks

/-- A text is a diff in scope, applies to the current files, and what it makes of them can be
analysed. -/
def FixScene.Reaches (scene : FixScene) (cited : List Citation) (text : String)
    (after : Analysis) : Prop :=
  ∃ ps overlay run, Diff.parse text = .ok ps ∧ checkScope (allowedRanges cited) ps = .ok () ∧
    buildOverlay scene.read ps = .ok overlay ∧
    analyze scene.limits (scene.read.through overlay) scene.visit scene.records = .ok run ∧
    run.analysis = after

/-- What reaches a second analysis touches a cited file, so that there is a citation. -/
theorem FixScene.Reaches.cited_ne_nil {scene : FixScene} {cited : List Citation} {text : String}
    {after : Analysis} (h : scene.Reaches cited text after) : cited ≠ [] := by
  obtain ⟨ps, -, -, hps, hscope, -⟩ := h
  obtain ⟨p, hp⟩ := List.exists_mem_of_ne_nil _ (Diff.parse_ne_nil hps)
  obtain ⟨c, hc, -⟩ := FilePatch.cited_of_checkScope (checkScope_ok.1 hscope p hp)
  exact List.ne_nil_of_mem hc

/-- The last answer of an attempt is a text that reaches a second analysis. -/
def Attempt.Succeeds (a : Attempt) (scene : FixScene) (cited : List Citation) (after : Analysis) :
    Prop :=
  ∃ e text, a.exchanges.getLast? = some e ∧ e.answer = .ok text ∧
    a.suggestion.patch = Text.trimmed text ∧ scene.Reaches cited text after

section
variable {i : GuardedIssue} {scene : FixScene} {id : Nat} {script : List Answer}
  {cited shown : List Citation} {a : Attempt}

/-- The patches of a conversation lead to a second analysis when its last answer does. -/
theorem reanalyze_converse {prompt : String} {allowed : AllowedRanges} {after : Analysis} :
    scene.reanalyze allowed (converse prompt script).patches = .ok after ↔
      ∃ e text ps overlay run, (converse prompt script).exchanges.getLast? = some e ∧
        e.answer = .ok text ∧ Diff.parse text = .ok ps ∧ checkScope allowed ps = .ok () ∧
        buildOverlay scene.read ps = .ok overlay ∧
        analyze scene.limits (scene.read.through overlay) scene.visit scene.records = .ok run ∧
        run.analysis = after := by
  obtain ⟨e, hlast, hpatches⟩ := converse_last prompt script
  rw [FixScene.reanalyze_ok]
  constructor
  · rintro ⟨ps, overlay, run, hps, h⟩
    rw [hpatches] at hps
    obtain ⟨text, htext, hparse⟩ := patchesOf_ok.1 hps
    exact ⟨e, text, ps, overlay, run, hlast, htext, hparse, h⟩
  · rintro ⟨e', text, ps, overlay, run, hlast', htext, hparse, h⟩
    rw [hlast] at hlast'
    cases hlast'
    exact ⟨ps, overlay, run, by rw [hpatches, htext]; exact hparse, h⟩

/-- **The second analysis** of an attempt is the one that its last answer reaches. -/
theorem Ends.after_iff (h : Ends i scene id script cited shown a) {after : Analysis} :
    a.after = some after ↔ a.Succeeds scene cited after := by
  cases h with
  | unread _ =>
    refine iff_of_false (fun h => by cases h) ?_
    rintro ⟨e, text, hlast, -⟩
    cases hlast
  | @refused snippets f hs hf =>
    refine iff_of_false (fun h => by cases h) ?_
    rintro ⟨e, text, hlast, htext, -, ps, overlay, run, h⟩
    have hok : scene.reanalyze (allowedRanges cited) (i.conversation script snippets).patches =
        .ok after := reanalyze_converse.2 ⟨e, text, ps, overlay, run, hlast, htext, h⟩
    rw [hf] at hok
    cases hok
  | @judged snippets after' hs hafter =>
    constructor
    · intro h
      cases h
      obtain ⟨e, text, ps, overlay, run, hlast, htext, h⟩ := reanalyze_converse.1 hafter
      refine ⟨e, text, hlast, htext, ?_, ps, overlay, run, h⟩
      exact congrArg Text.trimmed (lastText_of_getLast? hlast htext)
    · rintro ⟨e, text, hlast, htext, -, ps, overlay, run, h⟩
      have hok : scene.reanalyze (allowedRanges cited) (i.conversation script snippets).patches =
          .ok after := reanalyze_converse.2 ⟨e, text, ps, overlay, run, hlast, htext, h⟩
      rw [hafter] at hok
      exact congrArg some (Except.ok.inj hok)

/-- The judgement of an attempt, by the citations of the whole issue. -/
theorem GuardedIssue.judge_ok {before after : Analysis} (hne : cited ≠ [])
    (hcited : citationsOf i.evidence = .ok cited) (hshown : citationsOf i.selected = .ok shown)
    (hbefore : scene.before = before) :
    (i.judge scene shown after).ok = true ↔ i.Improved cited before after := by
  subst hbefore
  unfold GuardedIssue.judge GuardedIssue.Improved
  split
  · rename_i hsignal
    obtain ⟨c, rest, rfl⟩ := List.exists_cons_of_ne_nil hne
    have htake := citationsOf_take 1 hcited
    rw [GuardedIssue.selected, if_pos hsignal, htake] at hshown
    cases hshown
    rw [verifyLongFunction_ok]
    constructor
    · intro h
      exact ⟨c, rest, rfl, h⟩
    · rintro ⟨c', rest', hc, h⟩
      cases hc
      exact h
  · exact verifyDuplicates_ok

/-- **A suggestion is verified** when its attempt succeeds with a strictly better analysis. -/
theorem Ends.verified_iff (h : Ends i scene id script cited shown a)
    (hcited : citationsOf i.evidence = .ok cited) (hshown : citationsOf i.selected = .ok shown) :
    a.suggestion.verified = true ↔
      ∃ after, a.Succeeds scene cited after ∧ i.Improved cited scene.before after := by
  have hafter : ∀ after, a.Succeeds scene cited after ↔ a.after = some after :=
    fun _ => h.after_iff.symm
  have hverified : a.suggestion.verified = true ↔
      ∃ after, a.after = some after ∧ (i.judge scene shown after).ok = true := by
    cases h with
    | unread _ => exact iff_of_false Bool.false_ne_true (by rintro ⟨_, h, -⟩; cases h)
    | refused _ _ => exact iff_of_false Bool.false_ne_true (by rintro ⟨_, h, -⟩; cases h)
    | judged _ _ =>
      constructor
      · intro hv
        exact ⟨_, rfl, hv⟩
      · rintro ⟨_, hsome, hv⟩
        cases hsome
        exact hv
  rw [hverified]
  refine exists_congr fun after => ?_
  rw [hafter]
  refine and_congr_right fun hsome => ?_
  obtain ⟨_, _, _, _, _, hreaches⟩ := (hafter after).2 hsome
  exact GuardedIssue.judge_ok hreaches.cited_ne_nil hcited hshown rfl

theorem Ends.verified_iff_improved (h : Ends i scene id script cited shown a)
    (hcited : citationsOf i.evidence = .ok cited) (hshown : citationsOf i.selected = .ok shown)
    {after : Analysis} (hafter : a.after = some after) :
    a.suggestion.verified = true ↔ i.Improved cited scene.before after := by
  rw [h.verified_iff hcited hshown]
  constructor
  · rintro ⟨after', hsucceeds, himproved⟩
    have hsome := h.after_iff.2 hsucceeds
    rw [hafter] at hsome
    cases hsome
    exact himproved
  · intro himproved
    exact ⟨after, h.after_iff.1 hafter, himproved⟩

end

/-! ## The preview -/

/-- An attempt has a preview when it is verified and has a second analysis. -/
theorem Attempt.preview?_eq_some {a : Attempt} {before : Metrics} {p : FixPreview} :
    a.preview? before = some p ↔ a.suggestion.verified = true ∧ ∃ after, a.after = some after ∧
      p = { id := a.suggestion.id, before, after := after.metrics } := by
  unfold Attempt.preview?
  constructor
  · intro h
    split at h
    · rename_i after hverified hafter
      exact ⟨hverified, after, hafter, (Option.some.inj h).symm⟩
    · cases h
  · rintro ⟨hverified, after, hafter, rfl⟩
    rw [hverified, hafter]

section
variable {before : Metrics} {as : List Attempt}
  (hafter : ∀ a ∈ as, a.suggestion.verified = true → ∃ after, a.after = some after)

include hafter in
theorem not_verified_of_preview?_eq_none {a : Attempt} (ha : a ∈ as)
    (h : a.preview? before = none) : a.suggestion.verified = false := by
  by_contra hv
  rw [Bool.not_eq_false] at hv
  obtain ⟨after, hsome⟩ := hafter a ha hv
  rw [Attempt.preview?_eq_some.2 ⟨hv, after, hsome, rfl⟩] at h
  cases h

include hafter in
theorem fixResult_preview_eq_none :
    (fixResult before as).preview = none ↔
      ∀ s ∈ (fixResult before as).suggestions, s.verified = false := by
  rw [fixResult, List.findSome?_eq_none_iff, List.forall_mem_map]
  constructor
  · intro h a ha
    exact not_verified_of_preview?_eq_none hafter ha (h a ha)
  · intro h a ha
    rw [Option.eq_none_iff_forall_ne_some]
    intro p hp
    have hv := (Attempt.preview?_eq_some.1 hp).1
    rw [h a ha] at hv
    cases hv

include hafter in
/-- The preview is that of the first verified attempt. -/
theorem fixResult_preview_eq_some (hids : ∀ k a, as[k]? = some a → a.suggestion.id = k + 1)
    {p : FixPreview} (h : (fixResult before as).preview = some p) :
    ∃ a ∈ as, a.suggestion.verified = true ∧ p.id = a.suggestion.id ∧
      (∀ s ∈ (fixResult before as).suggestions, s.verified = true → p.id ≤ s.id) ∧
      p.before = before ∧ ∃ after, a.after = some after ∧ p.after = after.metrics := by
  obtain ⟨earlier, a, later, rfl, ha, hearlier⟩ := List.findSome?_eq_some_iff.1 h
  obtain ⟨hv, after, hsome, rfl⟩ := Attempt.preview?_eq_some.1 ha
  refine ⟨a, by simp, hv, rfl, ?_, rfl, after, hsome, rfl⟩
  intro s hs hsv
  obtain ⟨b, hb, rfl⟩ := List.mem_map.1 hs
  obtain ⟨k, hk⟩ := List.mem_iff_getElem?.1 hb
  -- No earlier attempt is verified, and the numbers go up with the places.
  have hplace : earlier.length ≤ k := by
    by_contra hlt
    rw [List.getElem?_append_left (by omega)] at hk
    have hfirst := List.mem_of_getElem? hk
    rw [not_verified_of_preview?_eq_none hafter hb (hearlier b hfirst)] at hsv
    cases hsv
  have hid : a.suggestion.id = earlier.length + 1 := hids earlier.length a (by simp)
  show a.suggestion.id ≤ b.suggestion.id
  rw [hid, hids k b hk]
  omega

end

/-! ## A whole run -/

/-- **Verified suggestions.** The answers of a run are taken in order, and each candidate has one
attempt. Its suggestion is verified exactly when the last answer to it goes through all stages and
the analysis of what it makes is strictly better. The preview is there when a suggestion is
verified, belongs to the first such one, and shows the measurements before and after. -/
theorem runFixes_verified {scene : FixScene} {cap : Number} {issues : List GuardedIssue}
    {script : List Answer} {run : FixRun}
    (h : (runFixes scene cap issues script).result = .ok run) :
    ∃ (chosen : List GuardedIssue) (as : List Attempt),
      fixCandidates issues cap = .ok chosen ∧ as.length = chosen.length ∧
      run.result.suggestions = as.map Attempt.suggestion ∧
      run.exchanges = as.flatMap Attempt.exchanges ∧
      (∀ k e, run.exchanges[k]? = some e → e.answer = answerAt script k) ∧
      (∀ k i a, chosen[k]? = some i → as[k]? = some a → a.suggestion.id = k + 1 ∧
        ∃ cited, citationsOf i.evidence = .ok cited ∧
          (∀ after, a.after = some after ↔ a.Succeeds scene cited after) ∧
          (a.suggestion.verified = true ↔
            ∃ after, a.Succeeds scene cited after ∧ i.Improved cited scene.before after)) ∧
      (run.result.preview = none ↔ ∀ s ∈ run.result.suggestions, s.verified = false) ∧
      (∀ p, run.result.preview = some p →
        ∃ a ∈ as, a.suggestion.verified = true ∧ p.id = a.suggestion.id ∧
          (∀ s ∈ run.result.suggestions, s.verified = true → p.id ≤ s.id) ∧
          p.before = scene.before.metrics ∧
          ∃ after, a.after = some after ∧ p.after = after.metrics) := by
  obtain ⟨chosen, as, hchosen, has, rfl⟩ := runFixes_ok.1 h
  obtain ⟨rest, -, hanswers⟩ := has.consumes
  have heach : ∀ (k : Nat) (i : GuardedIssue) (a : Attempt), chosen[k]? = some i →
      as[k]? = some a → a.suggestion.id = k + 1 ∧ ∃ cited, citationsOf i.evidence = .ok cited ∧
        (∀ after, a.after = some after ↔ a.Succeeds scene cited after) ∧
        (a.suggestion.verified = true ↔
          ∃ after, a.Succeeds scene cited after ∧ i.Improved cited scene.before after) := by
    intro k i a hi ha
    obtain ⟨j, own, hj, hown⟩ := has.getElem? ha
    rw [hi] at hj
    cases hj
    obtain ⟨cited, shown, hcited, hshown, hend⟩ := GuardedIssue.attempt_ok.1 hown
    exact ⟨hend.id_eq.trans (Nat.add_comm 1 k), cited, hcited, fun after => hend.after_iff,
      hend.verified_iff hcited hshown⟩
  have hissue : ∀ (k : Nat) (a : Attempt), as[k]? = some a → ∃ i, chosen[k]? = some i := by
    intro k a ha
    obtain ⟨i, -, hi, -⟩ := has.getElem? ha
    exact ⟨i, hi⟩
  have hids : ∀ (k : Nat) (a : Attempt), as[k]? = some a → a.suggestion.id = k + 1 := by
    intro k a ha
    obtain ⟨i, hi⟩ := hissue k a ha
    exact (heach k i a hi ha).1
  have hafter : ∀ a ∈ as, a.suggestion.verified = true → ∃ after, a.after = some after := by
    intro a ha hv
    obtain ⟨k, hk⟩ := List.mem_iff_getElem?.1 ha
    obtain ⟨i, hi⟩ := hissue k a hk
    obtain ⟨-, cited, -, hsome, hverified⟩ := heach k i a hi hk
    obtain ⟨after, hsucceeds, -⟩ := hverified.1 hv
    exact ⟨after, (hsome after).2 hsucceeds⟩
  exact ⟨chosen, as, hchosen, has.length_eq, rfl, rfl, hanswers, heach,
    fixResult_preview_eq_none hafter, fun p hp => fixResult_preview_eq_some hafter hids hp⟩

/-- The reader of one text, whatever the path. -/
def shortReader : Reader := fun _ => .ok shortModule

/-- A function is long from three lines on. -/
def shortLimits : SignalLimits := { longFunction := 3 }

def shortRecords : List FileRecord := [.ofPath "a.py"]

/-- The analysis of the short module before any patch. -/
def shortAnalysis : Analysis :=
  match analyze shortLimits shortReader Syntax.visitors shortRecords with
  | .ok run => run.analysis
  | .error _ => default

theorem exists_shortAnalysis : ∃ run,
    analyze shortLimits shortReader Syntax.visitors shortRecords = .ok run ∧
    run.analysis = shortAnalysis := by
  have hsome : (analyze shortLimits shortReader Syntax.visitors shortRecords).toOption.isSome =
      true := by decide +kernel
  obtain ⟨run, hrun⟩ := Option.isSome_iff_exists.1 hsome
  have hok := Outcome.eq_ok_of_toOption hrun
  refine ⟨run, hok, ?_⟩
  rw [shortAnalysis, hok]

/-- The scene of the short module, whose only function is long. -/
def shortScene : FixScene :=
  { read := shortReader, visit := Syntax.visitors, records := shortRecords, limits := shortLimits
    before := shortAnalysis }

def shortIssue : GuardedIssue :=
  { Issue.ofCitations "maintainability" longFunctionSignal "medium" functionCited with
    complete := true, lack := none }

/-- A patch that takes a line out of the long function is verified. -/
theorem exists_shorterRun : ∃ run,
    (runFixes shortScene 1 [shortIssue] [.ok announcedDiff]).result = .ok run ∧
    run.result.suggestions.map Suggestion.verified = [true] := by
  have hrun : ((runFixes shortScene 1 [shortIssue] [.ok announcedDiff]).result.toOption.map
      fun run => run.result.suggestions.map Suggestion.verified) = some [true] := by
    decide +kernel
  obtain ⟨run, hrun, hverified⟩ := Option.map_eq_some_iff.1 hrun
  exact ⟨run, Outcome.eq_ok_of_toOption hrun, hverified⟩

/-- A verified suggestion has a preview. -/
theorem runFixes_verified_shorter : ∃ run,
    (runFixes shortScene 1 [shortIssue] [.ok announcedDiff]).result = .ok run ∧
    run.result.preview ≠ none := by
  obtain ⟨run, hrun, hverified⟩ := exists_shorterRun
  obtain ⟨_, _, _, _, _, _, _, _, hnone, _⟩ := runFixes_verified hrun
  refine ⟨run, hrun, fun hpreview => ?_⟩
  have htrue : true ∈ run.result.suggestions.map Suggestion.verified := by
    rw [hverified]
    exact List.mem_cons_self
  obtain ⟨s, hs, hsv⟩ := List.mem_map.1 htrue
  rw [hnone.1 hpreview s hs] at hsv
  cases hsv

end EvidenceLock
