import EvidenceLock.Fix.Run
import EvidenceLock.Proofs.Outcome

/-!
# How an attempt ends

An attempt passes through stages, and the first one that fails ends it. `Ends` lists the three ends
that an attempt which gives a suggestion can come to: the cited texts cannot be read, the answer is
refused at one of the later stages, or the second analysis is judged. `attempt_ok` says that these
are all, and `Attempts` strings the attempts of a run together, each with the answers that the ones
before it have left.
-/

namespace EvidenceLock

/-! ## Citations -/

/-- Items have citations when each of them names a place. -/
theorem citationsOf_ok {items : List EvidenceItem} {cs : List Citation} :
    citationsOf items = .ok cs ↔ items.map EvidenceItem.citation? = cs.map some := by
  induction items generalizing cs with
  | nil =>
    rw [citationsOf, List.mapM_nil]
    cases cs <;> simp [pure, Except.pure]
  | cons i items ih =>
    rw [citationsOf, List.mapM_cons, ← citationsOf, Outcome.bind_eq_ok]
    constructor
    · rintro ⟨c, hc, h⟩
      obtain ⟨rest, hrest, h⟩ := Outcome.bind_eq_ok.1 h
      cases h
      rw [List.map_cons, List.map_cons, ih.1 hrest]
      cases hi : i.citation? with
      | none =>
        rw [hi] at hc
        cases hc
      | some c' =>
        rw [hi] at hc
        cases hc
        rfl
    · intro h
      cases cs with
      | nil => cases h
      | cons c cs =>
        rw [List.map_cons, List.map_cons] at h
        obtain ⟨hi, hrest⟩ := List.cons.inj h
        refine ⟨c, by rw [hi], Outcome.bind_eq_ok.2 ⟨cs, ih.2 hrest, rfl⟩⟩

theorem citationsOf_take {items : List EvidenceItem} {cs : List Citation} (n : Nat)
    (h : citationsOf items = .ok cs) : citationsOf (items.take n) = .ok (cs.take n) := by
  rw [citationsOf_ok] at h ⊢
  rw [List.map_take, h, List.map_take]

theorem exists_citationsOf {items : List EvidenceItem}
    (h : ∀ i ∈ items, ∃ c, i.citation? = some c) : ∃ cs, citationsOf items = .ok cs := by
  induction items with
  | nil => exact ⟨[], rfl⟩
  | cons i items ih =>
    obtain ⟨c, hc⟩ := h i List.mem_cons_self
    obtain ⟨cs, hcs⟩ := ih fun j hj => h j (List.mem_cons_of_mem _ hj)
    refine ⟨c :: cs, citationsOf_ok.2 ?_⟩
    rw [List.map_cons, List.map_cons, hc, citationsOf_ok.1 hcs]

/-! ## Conversations -/

/-- The patches of a conversation are those of its last answer. -/
theorem converse_last (prompt : String) (script : List Answer) :
    ∃ e, (converse prompt script).exchanges.getLast? = some e ∧
      (converse prompt script).patches = patchesOf e.answer := by
  unfold converse
  dsimp only
  split
  · rename_i f hf
    split
    · exact ⟨_, rfl, rfl⟩
    · exact ⟨_, rfl, hf.symm⟩
  · exact ⟨_, rfl, rfl⟩

theorem patchesOf_ok {a : Answer} {ps : List FilePatch} :
    patchesOf a = .ok ps ↔ ∃ text, a = .ok text ∧ Diff.parse text = .ok ps := by
  cases a with
  | ok text => simp [patchesOf]
  | error reason => simp [patchesOf, fail]

/-- The answer that stands at a place of a script; beyond its end there is none. -/
def answerAt (script : List Answer) (k : Nat) : Answer :=
  (script[k]?).getD (nextAnswer []).1

/-- The answers of exchanges are those of a script in order, and `rest` is what they leave of it. -/
def Consumes (script : List Answer) (es : List Exchange) (rest : List Answer) : Prop :=
  rest = script.drop es.length ∧
    ∀ k e, es[k]? = some e → e.answer = answerAt script k

theorem Consumes.nil (script : List Answer) : Consumes script [] script :=
  ⟨rfl, fun _ _ h => by cases h⟩

theorem Consumes.append {script rest rest' : List Answer} {es es' : List Exchange}
    (h : Consumes script es rest) (h' : Consumes rest es' rest') :
    Consumes script (es ++ es') rest' := by
  obtain ⟨rfl, hes⟩ := h
  obtain ⟨rfl, hes'⟩ := h'
  -- The answers to `es'` stand behind those to `es`.
  refine ⟨by rw [List.drop_drop, List.length_append], fun k e hk => ?_⟩
  rw [List.getElem?_append] at hk
  split at hk
  · exact hes k e hk
  · rename_i hlen
    have hplace : es.length + (k - es.length) = k := by omega
    rw [hes' _ e hk, answerAt, answerAt, List.getElem?_drop, hplace]

theorem consumes_next (script : List Answer) {prompt : String} :
    Consumes script [{ prompt, answer := (nextAnswer script).1 }] (nextAnswer script).2 := by
  refine ⟨by cases script <;> rfl, fun k e hk => ?_⟩
  cases k with
  | zero =>
    cases hk
    cases script <;> rfl
  | succ k => cases hk

theorem converse_consumes (prompt : String) (script : List Answer) :
    Consumes script (converse prompt script).exchanges (converse prompt script).rest := by
  unfold converse
  dsimp only
  split
  · split
    · exact (consumes_next script).append (consumes_next (nextAnswer script).2)
    · exact consumes_next script
  · exact consumes_next script

theorem lastText_of_getLast? {es : List Exchange} {e : Exchange} {text : String}
    (he : es.getLast? = some e) (htext : e.answer = .ok text) : lastText es = text := by
  obtain ⟨es, rfl⟩ := List.getLast?_eq_some_iff.1 he
  rw [lastText, List.foldl_append, List.foldl_cons, htext, List.foldl_nil]

/-! ## One attempt -/

/-- The second analysis to which patches lead. -/
def FixScene.reanalyze (scene : FixScene) (allowed : AllowedRanges)
    (patches : Outcome (List FilePatch)) : Outcome Analysis := do
  let ps ← patches
  checkScope allowed ps
  let overlay ← buildOverlay scene.read ps
  let run ← analyze scene.limits (scene.read.through overlay) scene.visit scene.records
  .ok run.analysis

/-- Patches lead to a second analysis when they are in scope, apply, and what they make can be
analysed. -/
theorem FixScene.reanalyze_ok {scene : FixScene} {allowed : AllowedRanges}
    {patches : Outcome (List FilePatch)} {after : Analysis} :
    scene.reanalyze allowed patches = .ok after ↔ ∃ ps overlay run, patches = .ok ps ∧
      checkScope allowed ps = .ok () ∧ buildOverlay scene.read ps = .ok overlay ∧
      analyze scene.limits (scene.read.through overlay) scene.visit scene.records = .ok run ∧
      run.analysis = after := by
  constructor
  · intro h
    obtain ⟨ps, hps, h⟩ := Outcome.bind_eq_ok.1 h
    obtain ⟨_, hscope, h⟩ := Outcome.bind_eq_ok.1 h
    obtain ⟨overlay, hoverlay, h⟩ := Outcome.bind_eq_ok.1 h
    obtain ⟨run, hrun, h⟩ := Outcome.bind_eq_ok.1 h
    exact ⟨ps, overlay, run, hps, hscope, hoverlay, hrun, Except.ok.inj h⟩
  · rintro ⟨ps, overlay, run, hps, hscope, hoverlay, hrun, rfl⟩
    refine Outcome.bind_eq_ok.2 ⟨ps, hps, Outcome.bind_eq_ok.2 ⟨(), hscope, ?_⟩⟩
    exact Outcome.bind_eq_ok.2 ⟨overlay, hoverlay, Outcome.bind_eq_ok.2 ⟨run, hrun, rfl⟩⟩

theorem result_settle {α : Type} (x : Logged α) :
    (settle x).result =
      match x.result with
      | .ok a => .ok (.ok a)
      | .error (.failure f) => .ok (.error f)
      | .error e => .error e := by
  unfold settle
  cases x.result with
  | ok a => rfl
  | error e => cases e <;> rfl

theorem result_tryPatches (scene : FixScene) (allowed : AllowedRanges)
    (patches : Outcome (List FilePatch)) :
    (patches >>= fun ps => (scene.tryPatches allowed ps).result) =
      scene.reanalyze allowed patches := by
  simp only [FixScene.tryPatches, FixScene.reanalyze, Logged.result_bind, Logged.result_write,
    Logged.result_of, Logged.result_pure, Outcome.ok_bind]

section
variable (i : GuardedIssue) (scene : FixScene) (id : Nat) (script : List Answer)

def GuardedIssue.refusal (cited : List Citation) (exchanges : List Exchange) (rest : List Answer)
    (f : Failure) : Attempt :=
  { suggestion :=
      i.suggestion id (allowedRanges cited) exchanges { ok := false, message := f.message }
    after := none, exchanges, rest }

def GuardedIssue.verdict (cited shown : List Citation) (c : Conversation) (after : Analysis) :
    Attempt :=
  { suggestion :=
      i.suggestion id (allowedRanges cited) c.exchanges (i.judge scene shown after)
    after := some after, exchanges := c.exchanges, rest := c.rest }

def GuardedIssue.conversation (snippets : List Snippet) : Conversation :=
  converse (fixPrompt i.toIssue snippets) script

/-- What an attempt with its citations comes to. -/
def GuardedIssue.endOf (cited shown : List Citation) : Outcome Attempt :=
  match readSnippets scene.read shown with
  | .error (.failure f) => .ok (i.refusal id cited [] script f)
  | .error e => .error e
  | .ok snippets =>
    let c := i.conversation script snippets
    match scene.reanalyze (allowedRanges cited) c.patches with
    | .ok after => .ok (i.verdict scene id cited shown c after)
    | .error (.failure f) => .ok (i.refusal id cited c.exchanges c.rest f)
    | .error e => .error e

/-- **One attempt**, without what it logs. -/
theorem GuardedIssue.result_attempt :
    (i.attempt scene id script).result =
      citationsOf i.evidence >>= fun cited =>
        citationsOf i.selected >>= fun shown => i.endOf scene id script cited shown := by
  unfold GuardedIssue.attempt
  simp only [Logged.result_bind, Logged.result_of]
  congr 1
  funext cited
  congr 1
  funext shown
  unfold GuardedIssue.endOf
  rw [result_settle, Logged.result_of]
  cases readSnippets scene.read shown with
  | error e => cases e <;> rfl
  | ok snippets =>
    simp only [Logged.result_bind, Logged.result_write, Logged.result_of, Outcome.ok_bind,
      result_settle, result_tryPatches, GuardedIssue.conversation]
    cases scene.reanalyze (allowedRanges cited)
      (converse (fixPrompt i.toIssue snippets) script).patches with
    | ok after => rfl
    | error e => cases e <;> rfl

/-- How an attempt ends that gives a suggestion. -/
inductive Ends (cited shown : List Citation) : Attempt → Prop
  | unread {f : Failure} (hf : readSnippets scene.read shown = .error (.failure f)) :
    Ends cited shown (i.refusal id cited [] script f)
  | refused {snippets : List Snippet} {f : Failure}
    (hs : readSnippets scene.read shown = .ok snippets)
    (hf : scene.reanalyze (allowedRanges cited) (i.conversation script snippets).patches =
      .error (.failure f)) :
    Ends cited shown (i.refusal id cited (i.conversation script snippets).exchanges
      (i.conversation script snippets).rest f)
  | judged {snippets : List Snippet} {after : Analysis}
    (hs : readSnippets scene.read shown = .ok snippets)
    (hafter : scene.reanalyze (allowedRanges cited) (i.conversation script snippets).patches =
      .ok after) :
    Ends cited shown (i.verdict scene id cited shown (i.conversation script snippets) after)

end

/-- **The ends of an attempt**: these are all that there are. -/
theorem GuardedIssue.attempt_ok {i : GuardedIssue} {scene : FixScene} {id : Nat}
    {script : List Answer} {a : Attempt} :
    (i.attempt scene id script).result = .ok a ↔ ∃ cited shown,
      citationsOf i.evidence = .ok cited ∧ citationsOf i.selected = .ok shown ∧
        Ends i scene id script cited shown a := by
  have hend : ∀ cited shown, i.endOf scene id script cited shown = .ok a ↔
      Ends i scene id script cited shown a := by
    intro cited shown
    unfold GuardedIssue.endOf
    constructor
    · intro h
      cases hs : readSnippets scene.read shown with
      | error e =>
        rw [hs] at h
        cases e with
        | failure f =>
          cases h
          exact .unread hs
        | fault f => cases h
      | ok snippets =>
        simp only [hs] at h
        split at h
        · rename_i after hafter
          cases h
          exact .judged hs hafter
        · rename_i f hf
          cases h
          exact .refused hs hf
        · cases h
    · intro h
      cases h with
      | unread hf => rw [hf]
      | refused hs hf => simp only [hs, hf]
      | judged hs hafter => simp only [hs, hafter]
  rw [GuardedIssue.result_attempt, Outcome.bind_eq_ok]
  constructor
  · rintro ⟨cited, hcited, h⟩
    obtain ⟨shown, hshown, h⟩ := Outcome.bind_eq_ok.1 h
    exact ⟨cited, shown, hcited, hshown, (hend cited shown).1 h⟩
  · rintro ⟨cited, shown, hcited, hshown, h⟩
    exact ⟨cited, hcited, Outcome.bind_eq_ok.2 ⟨shown, hshown, (hend cited shown).2 h⟩⟩

namespace Ends

variable {i : GuardedIssue} {scene : FixScene} {id : Nat} {script : List Answer}
  {cited shown : List Citation} {a : Attempt}

theorem consumes (h : Ends i scene id script cited shown a) :
    Consumes script a.exchanges a.rest := by
  cases h with
  | unread _ => exact .nil script
  | refused _ _ => exact converse_consumes _ _
  | judged _ _ => exact converse_consumes _ _

theorem id_eq (h : Ends i scene id script cited shown a) : a.suggestion.id = id := by
  cases h <;> rfl

theorem signal_eq (h : Ends i scene id script cited shown a) :
    a.suggestion.signal = i.signal := by
  cases h <;> rfl

theorem category_eq (h : Ends i scene id script cited shown a) :
    a.suggestion.category = i.category := by
  cases h <;> rfl

/-- Without a second analysis the suggestion is rejected, and says what failed. -/
theorem rejected (h : Ends i scene id script cited shown a) (hafter : a.after = none) :
    a.suggestion.verified = false ∧ ∃ f : Failure, a.suggestion.message = f.message := by
  cases h with
  | unread _ => exact ⟨rfl, _, rfl⟩
  | refused _ _ => exact ⟨rfl, _, rfl⟩
  | judged _ _ => cases hafter

end Ends

/-! ## All attempts -/

/-- Attempts for issues in turn, numbered from `id` on; each one leaves its answers to the next. -/
inductive Attempts (scene : FixScene) :
    (id : Nat) → (script : List Answer) → List GuardedIssue → List Attempt → Prop
  | nil {id : Nat} {script : List Answer} : Attempts scene id script [] []
  | cons {id : Nat} {script : List Answer} {i : GuardedIssue} {is : List GuardedIssue}
    {a : Attempt} {as : List Attempt} (ha : (i.attempt scene id script).result = .ok a)
    (has : Attempts scene (id + 1) a.rest is as) : Attempts scene id script (i :: is) (a :: as)

theorem attempts_ok {scene : FixScene} {id : Nat} {script : List Answer} {is : List GuardedIssue}
    {as : List Attempt} :
    (attempts scene id script is).result = .ok as ↔ Attempts scene id script is as := by
  induction is generalizing id script as with
  | nil =>
    constructor
    · intro h
      cases h
      exact .nil
    · intro h
      cases h
      rfl
  | cons i is ih =>
    simp only [attempts, Logged.result_bind, Logged.result_write, Logged.result_pure,
      Outcome.ok_bind, Outcome.bind_eq_ok]
    constructor
    · rintro ⟨a, ha, as', has, h⟩
      cases h
      exact .cons ha (ih.1 has)
    · intro h
      cases h with
      | cons ha has => exact ⟨_, ha, _, ih.2 has, rfl⟩

/-- What a run gives comes from the attempts for its candidates. -/
theorem runFixes_ok {scene : FixScene} {cap : Number} {issues : List GuardedIssue}
    {script : List Answer} {run : FixRun} :
    (runFixes scene cap issues script).result = .ok run ↔ ∃ chosen as,
      fixCandidates issues cap = .ok chosen ∧ Attempts scene 1 script chosen as ∧
      run = { result := fixResult scene.before.metrics as,
              exchanges := as.flatMap Attempt.exchanges } := by
  simp only [runFixes, Logged.result_bind, Logged.result_of, Logged.result_pure,
    Outcome.bind_eq_ok, attempts_ok]
  constructor
  · rintro ⟨chosen, hchosen, as, has, h⟩
    exact ⟨chosen, as, hchosen, has, (Except.ok.inj h).symm⟩
  · rintro ⟨chosen, as, hchosen, has, rfl⟩
    exact ⟨chosen, hchosen, as, has, rfl⟩

namespace Attempts

variable {scene : FixScene} {id : Nat} {script : List Answer} {is : List GuardedIssue}
  {as : List Attempt}

theorem length_eq (h : Attempts scene id script is as) : as.length = is.length := by
  induction h with
  | nil => rfl
  | cons _ _ ih => rw [List.length_cons, List.length_cons, ih]

/-- Each attempt is one for the issue in its place, with the number of this place. -/
theorem getElem? (h : Attempts scene id script is as) {k : Nat} {a : Attempt}
    (ha : as[k]? = some a) : ∃ i own, is[k]? = some i ∧
      (i.attempt scene (id + k) own).result = .ok a := by
  induction h generalizing k with
  | nil => cases ha
  | @cons id script i is b as hb _ ih =>
    cases k with
    | zero =>
      cases ha
      exact ⟨i, script, rfl, hb⟩
    | succ k =>
      obtain ⟨j, own, hj, hown⟩ := ih ha
      refine ⟨j, own, hj, ?_⟩
      rwa [Nat.add_assoc, Nat.add_comm 1 k] at hown

/-- Attempts in turn take their answers from the script in order. -/
theorem consumes (h : Attempts scene id script is as) :
    ∃ rest, Consumes script (as.flatMap Attempt.exchanges) rest := by
  induction h with
  | nil => exact ⟨_, .nil _⟩
  | cons ha _ ih =>
    obtain ⟨_, _, -, -, hend⟩ := GuardedIssue.attempt_ok.1 ha
    obtain ⟨rest, hrest⟩ := ih
    exact ⟨rest, hend.consumes.append hrest⟩

end Attempts

end EvidenceLock
