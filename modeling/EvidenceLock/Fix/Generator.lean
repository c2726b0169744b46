import EvidenceLock.Fix.Run
import EvidenceLock.Settings.Basic

/-
  The patch generator behind a chat service: what is sent for a prompt, and what
  counts as an answer. An answer is the text of the first choice; without a choice,
  or with an empty text, there is none.
-/

namespace EvidenceLock

/-- What is sent for a prompt. -/
structure ChatRequest where
  /-- The model that is asked. -/
  model : Value
  /-- The prompt. -/
  prompt : String
  /-- How freely the model answers. -/
  temperature : Number
  /-- The largest length of the answer. -/
  maxTokens : Number
  deriving Repr, Inhabited

/-- The request as named values. -/
def ChatRequest.report (r : ChatRequest) : Value :=
  .table
    [("model", r.model),
     ("messages", .list [.table [("role", .str "user"), ("content", .str r.prompt)]]),
     ("temperature", .ofNumber r.temperature), ("max_tokens", .ofNumber r.maxTokens)]

/-- What a chat service gives back. -/
inductive ChatReply where
  /-- Texts to choose from, some of which may be missing. -/
  | choices (texts : List (Option String))
  /-- An error. -/
  | refused (reason : String)
  deriving DecidableEq, Repr

/-- The answer that a reply holds. -/
def ChatReply.answer : ChatReply → Answer
  | .refused reason => .error reason
  | .choices [] => .error "empty response"
  | .choices (first :: _) =>
    match first with
    | none => .error "empty response"
    | some text => if text.isEmpty then .error "empty response" else .ok text

namespace GeneratorSettings

/-- What is sent for a prompt. -/
def request (g : GeneratorSettings) (prompt : String) : ChatRequest :=
  { model := g.model, prompt, temperature := g.temperature, maxTokens := g.maxTokens }

/-- A generator cannot be reached without a key. -/
def connect (g : GeneratorSettings) : Outcome Unit :=
  if g.isConfigured then .ok () else fail (.generation "no API key configured")

end GeneratorSettings

/-- An answer, or the failure that there is none. -/
def Answer.outcome (a : Answer) : Outcome String :=
  match a with
  | .ok text => .ok text
  | .error reason => fail (.generation reason)

end EvidenceLock
