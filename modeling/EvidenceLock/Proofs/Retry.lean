import EvidenceLock.Proofs.Verified
import Mathlib.Data.List.Induction

/-!
# When the generator is asked again

An attempt sends its prompt once, and once more, with stricter rules behind it, exactly when the
first answer is a text that is refused as a diff (`Exchanged`). Nothing that happens later repeats
it: neither the scope check nor the application of a patch nor its judgement ever lead back to the
generator. `runFixes_exchanges` strings this together for a whole run, in which the answers of the
script are taken one by one.
-/

namespace EvidenceLock

/-- What follows a prompt when it is sent again. -/
def strictRules (reason : String) : String :=
  Text.joinLines
    ["",
     s!"Your previous answer could not be used: {reason}",
     "Respond again with ONLY the unified diff, nothing else:",
     "- start with '--- a/<path>' and '+++ b/<path>' lines using the exact paths above",
     "- each hunk header must look like '@@ -<start>,<count> +<start>,<count> @@'",
     "- prefix every hunk line with ' ', '-' or '+'",
     "- no markdown fences and no explanations"]

theorem retryPrompt_eq (prompt reason : String) :
    retryPrompt prompt reason = prompt ++ "\n" ++ strictRules reason := by
  rw [retryPrompt, strictRules, Text.joinLines, Text.joinLines, String.intercalate_cons_cons]

/-- The answer is a text that is refused as a diff, with the reason in words. -/
def Answer.Refused (a : Answer) (reason : String) : Prop :=
  ∃ text f, a = .ok text ∧ Diff.parse text = .error (.failure f) ∧ f.isDiff = true ∧
    f.message = reason

/-- What is sent and comes back in an attempt that has its prompt. -/
inductive Exchanged (prompt : String) : List Exchange → Prop
  | once {a : Answer} (h : ∀ reason, ¬ a.Refused reason) :
    Exchanged prompt [{ prompt, answer := a }]
  | again {a b : Answer} {reason : String} (h : a.Refused reason) :
    Exchanged prompt
      [{ prompt, answer := a },
       { prompt := prompt ++ "\n" ++ strictRules reason, answer := b }]

/-- The text is the last one received, or empty when none was. -/
inductive LastReceived : List Exchange → String → Prop
  | none {es : List Exchange} (h : ∀ e ∈ es, ∀ text, e.answer ≠ .ok text) : LastReceived es ""
  | some {earlier later : List Exchange} {e : Exchange} {text : String} (he : e.answer = .ok text)
    (h : ∀ d ∈ later, ∀ text, d.answer ≠ .ok text) : LastReceived (earlier ++ e :: later) text

/-! ## One conversation -/

/-- An answer is refused when it holds no patches because it is no diff. -/
theorem Answer.refused_iff {a : Answer} {reason : String} :
    a.Refused reason ↔
      ∃ f, patchesOf a = .error (.failure f) ∧ f.isDiff = true ∧ f.message = reason := by
  cases a with
  | ok text =>
    constructor
    · rintro ⟨_, f, htext, hparse, h⟩
      cases htext
      exact ⟨f, hparse, h⟩
    · rintro ⟨f, hparse, h⟩
      exact ⟨text, f, rfl, hparse, h⟩
  | error why =>
    constructor
    · rintro ⟨_, _, htext, -⟩
      cases htext
    · rintro ⟨f, hf, hdiff, -⟩
      cases hf
      cases hdiff

/-- **A conversation** goes on behind its first answer exactly when this is refused. -/
theorem converse_exchanged (prompt : String) (script : List Answer) :
    Exchanged prompt (converse prompt script).exchanges := by
  unfold converse
  dsimp only
  split
  · rename_i f hf
    split
    · -- The answer was no diff, so the prompt is sent again.
      rename_i hdiff
      rw [retryPrompt_eq]
      exact .again (Answer.refused_iff.2 ⟨f, hf, hdiff, rfl⟩)
    · rename_i hdiff
      refine .once fun reason h => ?_
      obtain ⟨g, hg, hgdiff, -⟩ := Answer.refused_iff.1 h
      rw [hf] at hg
      cases hg
      exact hdiff hgdiff
  · rename_i hnone
    refine .once fun reason h => ?_
    obtain ⟨f, hf, -⟩ := Answer.refused_iff.1 h
    exact hnone f hf

namespace Exchanged

variable {prompt : String} {es : List Exchange}

theorem length_le (h : Exchanged prompt es) : es.length ≤ 2 := by
  cases h <;> simp

/-- There is a second exchange exactly when the first answer is refused. -/
theorem length_eq_two_iff (h : Exchanged prompt es) :
    es.length = 2 ↔ ∃ e reason, es.head? = some e ∧ e.answer.Refused reason := by
  cases h with
  | once hnot =>
    refine iff_of_false (by simp) ?_
    rintro ⟨e, reason, he, hrefused⟩
    cases he
    exact hnot reason hrefused
  | again hrefused => exact iff_of_true rfl ⟨_, _, rfl, hrefused⟩

end Exchanged

theorem lastText_concat (es : List Exchange) (e : Exchange) :
    lastText (es ++ [e]) =
      match e.answer with
      | .ok text => text
      | .error _ => lastText es := by
  rw [lastText, List.foldl_append, List.foldl_cons, List.foldl_nil]
  rfl

theorem lastText_silent {es later : List Exchange}
    (h : ∀ d ∈ later, ∀ text, d.answer ≠ .ok text) : lastText (es ++ later) = lastText es := by
  induction later using List.reverseRecOn with
  | nil => rw [List.append_nil]
  | append_singleton later d ih =>
    rw [← List.append_assoc, lastText_concat]
    cases hd : d.answer with
    | ok text => exact absurd hd (h d (by simp) text)
    | error why => exact ih fun c hc => h c (List.mem_append_left _ hc)

/-- The last text received is the one that a suggestion shows. -/
theorem lastReceived_iff {es : List Exchange} {text : String} :
    LastReceived es text ↔ lastText es = text := by
  constructor
  · intro h
    cases h with
    | none h => exact @lastText_silent [] es h
    | @some earlier later e _ he h =>
      rw [← List.singleton_append, ← List.append_assoc, lastText_silent h, lastText_concat, he]
  · rintro rfl
    induction es using List.reverseRecOn with
    | nil => exact .none fun e he => by cases he
    | append_singleton es e ih =>
      rw [lastText_concat]
      cases he : e.answer with
      | ok text => exact .some he fun d hd => by cases hd
      | error why =>
        -- An exchange without a text does not change what the last one is.
        have hsilent : ∀ text, e.answer ≠ .ok text := fun text h => by
          rw [he] at h
          cases h
        generalize lastText es = last at ih
        cases ih with
        | none h =>
          refine .none fun d hd => ?_
          rcases List.mem_append.1 hd with hd | hd
          · exact h d hd
          · rwa [List.mem_singleton.1 hd]
        | some hd hlater =>
          rw [List.append_assoc, List.cons_append]
          refine .some hd fun d hd => ?_
          rcases List.mem_append.1 hd with hd | hd
          · exact hlater d hd
          · rwa [List.mem_singleton.1 hd]

/-! ## One attempt -/

namespace Ends

variable {i : GuardedIssue} {scene : FixScene} {id : Nat} {script : List Answer}
  {cited shown : List Citation} {a : Attempt}

/-- Nothing is sent when the cited lines cannot be read; otherwise there is one conversation about
them. -/
theorem exchanged (h : Ends i scene id script cited shown a) :
    (∃ f, readSnippets scene.read shown = .error (.failure f) ∧ a.exchanges = []) ∨
      ∃ snippets, readSnippets scene.read shown = .ok snippets ∧
        Exchanged (fixPrompt i.toIssue snippets) a.exchanges := by
  cases h with
  | unread hf => exact .inl ⟨_, hf, rfl⟩
  | refused hs _ => exact .inr ⟨_, hs, converse_exchanged _ script⟩
  | judged hs _ => exact .inr ⟨_, hs, converse_exchanged _ script⟩

theorem patch_eq (h : Ends i scene id script cited shown a) :
    a.suggestion.patch = Text.trimmed (lastText a.exchanges) := by
  cases h <;> rfl

end Ends

/-! ## A whole run -/

theorem fixable_iff {i : GuardedIssue} : i.fixable = true ↔
    i.complete = true ∧ (i.signal = longFunctionSignal ∨ i.signal = duplicateSignal) := by
  simp [GuardedIssue.fixable, fixableSignals]

theorem fixCandidates_isPrefix {issues chosen : List GuardedIssue} {cap : Number}
    (h : fixCandidates issues cap = .ok chosen) :
    chosen <+: issues.filter GuardedIssue.fixable := by
  unfold fixCandidates cutAt at h
  split at h
  · cases h
    unfold takeFirst
    split
    · exact List.take_prefix _ _
    · exact List.take_prefix _ _
  · cases h

/-- **The exchanges of a run** are those of its attempts one after the other, and their answers are
those of the script in order. There is an attempt for each candidate, and the candidates are
complete issues about long functions or duplicated blocks. An attempt sends nothing when it cannot
read the cited lines; otherwise it sends the prompt about them, and once more with stricter rules
exactly when the first answer is refused as a diff, whatever becomes of the last answer. The patch
of its suggestion is the last text received. -/
theorem runFixes_exchanges {scene : FixScene} {cap : Number} {issues : List GuardedIssue}
    {script : List Answer} {run : FixRun}
    (h : (runFixes scene cap issues script).result = .ok run) :
    ∃ (chosen : List GuardedIssue) (as : List Attempt),
      fixCandidates issues cap = .ok chosen ∧ as.length = chosen.length ∧
      run.result.suggestions = as.map Attempt.suggestion ∧
      run.exchanges = as.flatMap Attempt.exchanges ∧
      (∀ i ∈ chosen, i ∈ issues ∧ i.complete = true ∧
        (i.signal = longFunctionSignal ∨ i.signal = duplicateSignal)) ∧
      (∀ k e, run.exchanges[k]? = some e → e.answer = answerAt script k) ∧
      ∀ (k : Nat) (i : GuardedIssue) (a : Attempt), chosen[k]? = some i → as[k]? = some a →
        (∃ shown, citationsOf i.selected = .ok shown ∧
          ((∃ f, readSnippets scene.read shown = .error (.failure f) ∧ a.exchanges = []) ∨
            ∃ snippets, readSnippets scene.read shown = .ok snippets ∧
              Exchanged (fixPrompt i.toIssue snippets) a.exchanges)) ∧
        a.exchanges.length ≤ 2 ∧
        (a.exchanges.length = 2 ↔
          ∃ e reason, a.exchanges.head? = some e ∧ e.answer.Refused reason) ∧
        ∃ text, LastReceived a.exchanges text ∧ a.suggestion.patch = Text.trimmed text := by
  obtain ⟨chosen, as, hchosen, has, rfl⟩ := runFixes_ok.1 h
  obtain ⟨rest, -, hanswers⟩ := has.consumes
  refine ⟨chosen, as, hchosen, has.length_eq, rfl, rfl, fun i hi => ?_, hanswers,
    fun k i a hi ha => ?_⟩
  · obtain ⟨hissue, hfixable⟩ := List.mem_filter.1 ((fixCandidates_isPrefix hchosen).subset hi)
    exact ⟨hissue, fixable_iff.1 hfixable⟩
  · obtain ⟨j, own, hj, hown⟩ := has.getElem? ha
    rw [hi] at hj
    cases hj
    obtain ⟨cited, shown, -, hshown, hend⟩ := GuardedIssue.attempt_ok.1 hown
    refine ⟨⟨shown, hshown, hend.exchanged⟩, ?_, ?_, _, lastReceived_iff.2 rfl, hend.patch_eq⟩
    · rcases hend.exchanged with ⟨f, -, hnone⟩ | ⟨snippets, -, hexchanged⟩
      · rw [hnone]
        exact Nat.zero_le 2
      · exact hexchanged.length_le
    · rcases hend.exchanged with ⟨f, -, hnone⟩ | ⟨snippets, -, hexchanged⟩
      · rw [hnone]
        refine iff_of_false (by simp) ?_
        rintro ⟨e, reason, he, -⟩
        cases he
      · exact hexchanged.length_eq_two_iff

theorem parse_noDiff : Diff.parse "no diff" = .error (.failure .emptyPatch) := by rfl

/-- An answer that is no diff at all is asked for once more, and the second answer is the patch. -/
theorem runFixes_exchanges_again : ∃ run,
    (runFixes shortScene 1 [shortIssue] [.ok "no diff", .ok announcedDiff]).result = .ok run ∧
    ∃ e₁ e₂, run.exchanges = [e₁, e₂] ∧
      e₂.prompt = e₁.prompt ++ "\n" ++ strictRules
        "Invalid patch: patch contains no changes (no file headers found)" ∧
      run.result.suggestions.map Suggestion.patch = [Text.trimmed announcedDiff] := by
  have hrun : ((runFixes shortScene 1 [shortIssue]
      [.ok "no diff", .ok announcedDiff]).result.toOption.map fun run => run.exchanges.length) =
        some 2 := by decide +kernel
  obtain ⟨run, hrun, htwo⟩ := Option.map_eq_some_iff.1 hrun
  have hok := Outcome.eq_ok_of_toOption hrun
  obtain ⟨chosen, as, hchosen, hlength, hsuggestions, hexchanges, -, hanswers, heach⟩ :=
    runFixes_exchanges hok
  cases hchosen
  obtain ⟨a, rfl⟩ := List.length_eq_one_iff.1 hlength
  rw [List.flatMap_singleton] at hexchanges
  obtain ⟨⟨shown, -, hsent⟩, -, -, text, htext, hpatch⟩ := heach 0 shortIssue a rfl rfl
  refine ⟨run, hok, ?_⟩
  rw [hsuggestions, List.map_singleton, List.map_singleton, hpatch]
  rw [hexchanges] at hanswers htwo ⊢
  generalize a.exchanges = es at hanswers htwo htext hsent
  rcases hsent with ⟨f, -, rfl⟩ | ⟨snippets, -, hsent⟩
  · cases htwo
  · cases hsent with
    | once _ => cases htwo
    | @again first second reason hrefused =>
      have hfirst : first = .ok "no diff" := hanswers 0 _ rfl
      have hsecond : second = .ok announcedDiff := hanswers 1 _ rfl
      subst hfirst hsecond
      obtain ⟨_, f, hnodiff, hparse, -, rfl⟩ := hrefused
      cases hnodiff
      rw [parse_noDiff] at hparse
      cases hparse
      have hreason : Failure.emptyPatch.message =
          "Invalid patch: patch contains no changes (no file headers found)" := by decide +kernel
      rw [hreason] at htext ⊢
      refine ⟨_, _, rfl, ?_, ?_⟩
      · dsimp only
      · rw [← lastReceived_iff.1 htext]
        rfl

end EvidenceLock
