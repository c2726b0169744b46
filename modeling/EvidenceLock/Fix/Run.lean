import EvidenceLock.Fix.Prompt
import EvidenceLock.Fix.Verify
import EvidenceLock.Issue.Aggregate
import EvidenceLock.Logged
import EvidenceLock.Patch.Apply
import EvidenceLock.Patch.Parse
import EvidenceLock.Patch.Scope

/-
  Attempting fixes. For each candidate issue the generator is asked for a patch,
  which is read, checked against the evidence, applied in memory, analysed again
  and judged. A foreseen failure ends the attempt as a rejected suggestion and
  touches no other attempt. The answers of the generator are a script, consumed in
  order.
-/

namespace EvidenceLock

/-- What the generator says to a prompt: a text, or the reason why there is none. -/
abbrev Answer := Except String String

/-- The signals for which fixes are attempted. -/
def fixableSignals : List String := [longFunctionSignal, duplicateSignal]

/-- An issue for which a fix may be attempted. -/
def GuardedIssue.fixable (i : GuardedIssue) : Bool :=
  i.complete && fixableSignals.contains i.signal

/-- The issues for which fixes are attempted, up to a cap. -/
def fixCandidates (issues : List GuardedIssue) (cap : Number) : Outcome (List GuardedIssue) :=
  cutAt cap (issues.filter GuardedIssue.fixable)

/-- The items with the file of each file's first item, in the order of the first items. -/
def byFile (items : List EvidenceItem) : Keyed Value (List EvidenceItem) :=
  items.foldl (fun groups i => groups.push i.file i) []

/-- The evidence shown to the generator: the first item of a long function; of duplicates two items
of one file if some file has two, else the first two. -/
def GuardedIssue.selected (i : GuardedIssue) : List EvidenceItem :=
  if i.signal = longFunctionSignal then i.evidence.take 1
  else
    match List.find? (fun g => decide (2 ≤ g.2.length)) (byFile i.evidence) with
    | some (_, items) => items.take 2
    | none => i.evidence.take 2

/-- The citations of items, all of which must name a place. -/
def citationsOf (items : List EvidenceItem) : Outcome (List Citation) :=
  items.mapM fun i =>
    match i.citation? with
    | some c => .ok c
    | none => misuse .type "evidence item does not name a place"

/-- A prompt that was sent, and what came back. -/
structure Exchange where
  /-- The prompt. -/
  prompt : String
  /-- The answer. -/
  answer : Answer
  deriving Repr

/-- Takes the next answer of a script. -/
def nextAnswer (script : List Answer) : Answer × List Answer :=
  match script with
  | [] => (.error "no scripted response", [])
  | a :: rest => (a, rest)

/-- The exchanges of one attempt and the patches they led to. -/
structure Conversation where
  /-- What was sent and came back, in order. -/
  exchanges : List Exchange
  /-- The patches of the last answer. -/
  patches : Outcome (List FilePatch)
  /-- The answers that are left. -/
  rest : List Answer

/-- The patches that an answer holds. -/
def patchesOf (a : Answer) : Outcome (List FilePatch) :=
  match a with
  | .ok text => Diff.parse text
  | .error reason => fail (.generation reason)

/-- Asks for a diff, and once more when the first answer is a text that is none. -/
def converse (prompt : String) (script : List Answer) : Conversation :=
  let (answer, rest) := nextAnswer script
  let first : Exchange := { prompt, answer }
  match patchesOf answer with
  | .error (.failure f) =>
    if f.isDiff then
      let again := retryPrompt prompt f.message
      let (answer, rest) := nextAnswer rest
      { exchanges := [first, { prompt := again, answer }], patches := patchesOf answer, rest }
    else { exchanges := [first], patches := .error (.failure f), rest }
  | patches => { exchanges := [first], patches, rest }

/-- The last text received; empty when none was. -/
def lastText (exchanges : List Exchange) : String :=
  exchanges.foldl (fun text e => match e.answer with | .ok t => t | .error _ => text) ""

/-- The outcome of one attempt. -/
structure Suggestion where
  /-- The number of the attempt, counted from 1. -/
  id : Nat
  /-- The kind of the issue. -/
  category : String
  /-- The signal of the issue. -/
  signal : String
  /-- The cited files. -/
  files : List String
  /-- The last text received, trimmed. -/
  patch : String
  /-- The patch was applied in memory and helped. -/
  verified : Bool
  /-- The verdict in words. -/
  message : String
  /-- The compared numbers. -/
  details : Option String := none
  deriving DecidableEq, Repr, Inhabited

/-- What an attempt works on. -/
structure FixScene where
  /-- How texts are read. -/
  read : Reader
  /-- How the structure of texts is extracted. -/
  visit : Visitors
  /-- The records that are analysed again. -/
  records : List FileRecord
  /-- The limits of the analysis. -/
  limits : SignalLimits
  /-- The analysis before any patch. -/
  before : Analysis

/-- The judgement of an attempt that got as far as a second analysis. -/
def GuardedIssue.judge (i : GuardedIssue) (scene : FixScene) (shown : List Citation)
    (after : Analysis) : Verdict :=
  if i.signal = longFunctionSignal then
    verifyLongFunction scene.before after (shown.headD default) scene.limits.longFunction
  else verifyDuplicates scene.before after

/-- The texts of the cited lines shown to the generator. -/
def readSnippets (read : Reader) (shown : List Citation) : Outcome (List Snippet) :=
  shown.mapM fun c => do .ok (c.snippet (← read c.file))

/-- What is logged when the first answer is refused and the prompt repeated. -/
def retryLog (id : Nat) (c : Conversation) : Log :=
  match c.exchanges with
  | first :: _ :: _ =>
    match patchesOf first.answer with
    | .error (.failure f) =>
      [.info "coderoast.fixes.runner" s!"Fix {id}: invalid diff ({f.message}), retrying"]
    | _ => []
  | _ => []

/-- Checks, applies and analyses patches. -/
def FixScene.tryPatches (scene : FixScene) (allowed : AllowedRanges) (ps : List FilePatch) :
    Logged Analysis := do
  .write (Diff.parseLog ps)
  .of (checkScope allowed ps)
  .write (applyLog scene.read ps)
  let overlay ← .of (buildOverlay scene.read ps)
  let run ← .of (analyze scene.limits (scene.read.through overlay) scene.visit scene.records)
  .write run.log
  return run.analysis

/-- Everything an attempt leads to. -/
structure Attempt where
  /-- The suggestion. -/
  suggestion : Suggestion
  /-- The second analysis, if the attempt got that far. -/
  after : Option Analysis
  /-- The prompts that were sent, and what came back. -/
  exchanges : List Exchange
  /-- The answers that are left. -/
  rest : List Answer

/-- The suggestion of an attempt before its verdict is known. -/
def GuardedIssue.suggestion (i : GuardedIssue) (id : Nat) (allowed : AllowedRanges)
    (exchanges : List Exchange) (v : Verdict) : Suggestion :=
  { id, category := i.category, signal := i.signal, files := allowed.keys
    patch := Text.trimmed (lastText exchanges), verified := v.ok, message := v.message
    details := v.details }

/-- The result of a step, or the failure that ended the attempt; other errors go on. -/
def settle {α : Type} (x : Logged α) : Logged (Except Failure α) :=
  match x.result with
  | .ok a => { log := x.log, result := .ok (.ok a) }
  | .error (.failure f) => { log := x.log, result := .ok (.error f) }
  | .error e => { log := x.log, result := .error e }

/-- One attempt. -/
def GuardedIssue.attempt (i : GuardedIssue) (scene : FixScene) (id : Nat) (script : List Answer) :
    Logged Attempt := do
  let cited ← .of (citationsOf i.evidence)
  let shown ← .of (citationsOf i.selected)
  let allowed := allowedRanges cited
  let refused (exchanges : List Exchange) (rest : List Answer) (f : Failure) : Logged Attempt := do
    .write [.debug "coderoast.fixes.runner" s!"Fix {id} rejected: {f.text}"]
    return {
      suggestion := i.suggestion id allowed exchanges { ok := false, message := f.message }
      after := none, exchanges, rest }
  match ← settle (.of (readSnippets scene.read shown)) with
  | .error f => refused [] script f
  | .ok snippets =>
    let c := converse (fixPrompt i.toIssue snippets) script
    .write (retryLog id c)
    match ← settle (do scene.tryPatches allowed (← .of c.patches)) with
    | .error f => refused c.exchanges c.rest f
    | .ok after =>
      return {
        suggestion := i.suggestion id allowed c.exchanges (i.judge scene shown after)
        after := some after, exchanges := c.exchanges, rest := c.rest }

/-- The measurements before and after a fix. -/
structure FixPreview where
  /-- The number of the attempt. -/
  id : Nat
  /-- The measurements before. -/
  before : Metrics
  /-- The measurements after. -/
  after : Metrics
  deriving Repr, Inhabited

/-- The outcome of all attempts. -/
structure FixResult where
  /-- The suggestions in order. -/
  suggestions : List Suggestion := []
  /-- The measurements of the first verified one. -/
  preview : Option FixPreview := none
  deriving Repr, Inhabited

/-- The outcome of all attempts, and the exchanges they took. -/
structure FixRun where
  /-- The outcome. -/
  result : FixResult
  /-- The prompts that were sent, and what came back. -/
  exchanges : List Exchange
  deriving Repr

/-- The preview of an attempt that is verified. -/
def Attempt.preview? (a : Attempt) (before : Metrics) : Option FixPreview :=
  match a.suggestion.verified, a.after with
  | true, some after => some { id := a.suggestion.id, before, after := after.metrics }
  | _, _ => none

/-- What is logged at the end of an attempt. -/
def Attempt.log (a : Attempt) : Log :=
  let s := a.suggestion
  [.info "coderoast.fixes.runner"
    (s!"Fix {s.id} ({s.signal}): " ++ (if s.verified then "verified" else "rejected") ++
      s!" - {s.message}")]

/-- The attempts for a list of issues, numbered from `id` on. -/
def attempts (scene : FixScene) (id : Nat) (script : List Answer) :
    List GuardedIssue → Logged (List Attempt)
  | [] => pure []
  | i :: rest => do
    let a ← i.attempt scene id script
    .write a.log
    let as ← attempts scene (id + 1) a.rest rest
    return a :: as

/-- The outcome of a list of attempts. -/
def fixResult (before : Metrics) (as : List Attempt) : FixResult :=
  { suggestions := as.map Attempt.suggestion
    preview := as.findSome? fun a => a.preview? before }

/-- Attempts fixes for the candidates among the issues. -/
def runFixes (scene : FixScene) (cap : Number) (issues : List GuardedIssue)
    (script : List Answer) : Logged FixRun := do
  let chosen ← .of (fixCandidates issues cap)
  let as ← attempts scene 1 script chosen
  return {
    result := fixResult scene.before.metrics as
    exchanges := as.flatMap Attempt.exchanges }

end EvidenceLock
