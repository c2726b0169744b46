import EvidenceLock.Issue.Evidence
import EvidenceLock.Text.Lines

/-
  What the patch generator is asked. The prompt states the goal, the cited places
  and the cited lines with their numbers; after an answer that is not a diff it is
  repeated with stricter rules.
-/

namespace EvidenceLock

/-- The elements from index `first` up to but not including `last`; a negative index counts from the
end. -/
def sliceOf {α : Type} (first last : Int) (xs : List α) : List α :=
  let at_ (i : Int) : Nat := if i < 0 then (i + xs.length).toNat else i.toNat
  (xs.drop (at_ first)).take (at_ last - at_ first)

/-- An integer right-aligned in four columns. -/
def lineLabel (n : Int) : String :=
  let s := toString n
  String.ofList (List.replicate (4 - s.length) ' ') ++ s

/-- The lines `first` to `last` of a text, each with its number. -/
def numberedSnippet (content : String) (first last : Int) : String :=
  let lines := sliceOf (first - 1) last (Text.linesOf content)
  Text.joinLines (lines.zipIdx.map fun (line, i) => lineLabel (first + i) ++ " | " ++ line)

/-- The cited lines of a file. -/
structure Snippet where
  /-- The citation. -/
  citation : Citation
  /-- The numbered lines. -/
  text : String
  deriving Repr, Inhabited

/-- The cited lines of a text. -/
def Citation.snippet (c : Citation) (content : String) : Snippet :=
  { citation := c, text := numberedSnippet content c.first c.last }

/-- The first line of the goal of each signal. -/
def goalOf (signal : String) : String :=
  if signal = longFunctionSignal then
    "Goal: reduce function length below the long-function threshold."
  else if signal = duplicateSignal then "Goal: eliminate duplication by changing one occurrence."
  else "Goal: resolve the issue within the evidence ranges."

/-- All places of an issue on one line. -/
def evidenceSummary (i : Issue) : String :=
  Text.joinWith "; " <| i.evidence.map fun e =>
    s!"{e.file.text}:{e.first.text}-{e.last.text}"

/-- What the generator is asked to do. -/
def fixPrompt (i : Issue) (snippets : List Snippet) : String :=
  Text.joinLines <|
    ["You are a code fixer. Output ONLY a unified diff.",
     "You must only modify lines within the evidence line ranges provided.",
     "Do not add new files. Do not edit outside the ranges.",
     goalOf i.signal,
     "",
     s!"Issue type: {i.category}",
     s!"Signal: {i.signal}",
     s!"Evidence: {evidenceSummary i}",
     "",
     "Evidence snippets (with line numbers):"] ++
    snippets.map fun s =>
      s!"File: {s.citation.file} ({s.citation.first}-{s.citation.last})\n{s.text}"

/-- The prompt with stricter rules and the reason why the last answer was refused. -/
def retryPrompt (prompt error : String) : String :=
  Text.joinLines
    [prompt,
     "",
     s!"Your previous answer could not be used: {error}",
     "Respond again with ONLY the unified diff, nothing else:",
     "- start with '--- a/<path>' and '+++ b/<path>' lines using the exact paths above",
     "- each hunk header must look like '@@ -<start>,<count> +<start>,<count> @@'",
     "- prefix every hunk line with ' ', '-' or '+'",
     "- no markdown fences and no explanations"]

end EvidenceLock
