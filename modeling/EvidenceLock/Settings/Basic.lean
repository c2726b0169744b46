import EvidenceLock.Failure
import EvidenceLock.Log

/-
  The settings of a run and the rules that they keep. Settings are made from named
  values: a name that no setting has is refused first, then the rules are checked
  in a fixed order, and the first one that is broken is reported.
-/

namespace EvidenceLock

/-- Named values in order. -/
abbrev NamedValues := List (String × Value)

namespace Value

/-- The number that a value is, where it stands left of a comparison with a number. -/
def comparedWith (v : Value) (relation : String) (other : Number) : Outcome Number :=
  match v.number? with
  | some n => .ok n
  | none =>
    misuse .type
      (s!"'{relation}' not supported between instances of '{v.typeName}' and " ++
        s!"'{(ofNumber other).typeName}'")

/-- The number that a value is, where it stands right of a comparison with a number. -/
def comparedTo (v : Value) (relation : String) (other : Number) : Outcome Number :=
  match v.number? with
  | some n => .ok n
  | none =>
    misuse .type
      (s!"'{relation}' not supported between instances of '{(ofNumber other).typeName}' and " ++
        s!"'{v.typeName}'")

end Value

/-- A rule that settings have to keep. -/
def require (holds : Bool) (message : String) : Outcome Unit :=
  if holds then .ok () else misuse .value message

/-- What is said of a name that is not among those of a group of settings. The group itself is
given under the name `self`, which so is given twice. -/
def unknownMessage (group name : String) : String :=
  if name = "self" then s!"{group}.__init__() got multiple values for argument '{name}'"
  else s!"{group}.__init__() got an unexpected keyword argument '{name}'"

/-- Refuses the first name that is not among those of a group of settings. -/
def onlyKnown (group : String) (names : List String) (fields : NamedValues) : Outcome Unit :=
  match fields.find? fun f => !names.contains f.1 with
  | some (name, _) => misuse .type (unknownMessage group name)
  | none => .ok ()

/-- The value under a name, or the one that stands for it when there is none. -/
def valueOr (fields : NamedValues) (name : String) (default_ : Value) : Value :=
  (Value.field? fields name).getD default_

/-- From which size on something is reported. -/
structure Thresholds where
  /-- The length from which on a function is long. -/
  longFunction : Number := 50
  /-- The least length of a duplicated block. -/
  minLines : Number := 10
  /-- The length beyond which a duplicated block is not extended. -/
  maxLines : Number := 50
  /-- How often a duplicated block appears at least. -/
  minOccurrences : Number := 2
  deriving Repr, Inhabited

namespace Thresholds

/-- The name of this group of settings in messages. -/
def group : String := "ThresholdConfig"

/-- The names of the thresholds. -/
def names : List String :=
  ["long_function_threshold", "duplicate_min_lines", "duplicate_max_lines",
   "duplicate_min_occurrences"]

/-- The thresholds under their names. -/
def report (t : Thresholds) : NamedValues :=
  names.zip ([t.longFunction, t.minLines, t.maxLines, t.minOccurrences].map Value.ofNumber)

/-- The thresholds given by named values, the others as usual. -/
def ofFields (fields : NamedValues) : Outcome Thresholds := do
  onlyKnown group names fields
  let get (name : String) (n : Number) : Value := valueOr fields name (.ofNumber n)
  let longFunction ← (get "long_function_threshold" 50).comparedWith "<" 1
  require (!longFunction.lt 1) "long_function_threshold must be at least 1"
  let minLines ← (get "duplicate_min_lines" 10).comparedWith "<" 1
  require (!minLines.lt 1) "duplicate_min_lines must be at least 1"
  let maxLines ← (get "duplicate_max_lines" 50).comparedWith "<" minLines
  require (!maxLines.lt minLines) "duplicate_max_lines must be >= duplicate_min_lines"
  let minOccurrences ← (get "duplicate_min_occurrences" 2).comparedWith "<" 2
  require (!minOccurrences.lt 2) "duplicate_min_occurrences must be at least 2"
  .ok { longFunction, minLines, maxLines, minOccurrences }

end Thresholds

/-- How the patch generator is reached and asked. -/
structure GeneratorSettings where
  /-- The key that lets requests in. -/
  apiKey : Value := .null
  /-- The model that is asked. -/
  model : Value := .str "gemini-2.0-flash"
  /-- Where requests go. -/
  baseUrl : Value := .str "https://generativelanguage.googleapis.com/v1beta/openai/"
  /-- How freely the model answers. -/
  temperature : Number := .float 0.1
  /-- The largest length of an answer. -/
  maxTokens : Number := 900
  /-- The seconds after which a request is given up. -/
  timeout : Number := .float 60.0
  deriving Repr, Inhabited

namespace GeneratorSettings

/-- The name of this group of settings in messages. -/
def group : String := "GeneratorConfig"

/-- The names of the settings. -/
def names : List String :=
  ["api_key", "model", "base_url", "temperature", "max_output_tokens", "timeout_seconds"]

/-- The settings under their names. -/
def report (g : GeneratorSettings) : NamedValues :=
  names.zip
    [g.apiKey, g.model, g.baseUrl, .ofNumber g.temperature, .ofNumber g.maxTokens,
     .ofNumber g.timeout]

/-- The settings given by named values, the others as usual. -/
def ofFields (fields : NamedValues) : Outcome GeneratorSettings := do
  onlyKnown group names fields
  let usual : GeneratorSettings := {}
  let get (name : String) (n : Number) : Value := valueOr fields name (.ofNumber n)
  let temperature ← (get "temperature" usual.temperature).comparedTo "<=" (.float 0.0)
  require (Number.le (.float 0.0) temperature && temperature.le (.float 2.0))
    "temperature must be between 0.0 and 2.0"
  let maxTokens ← (get "max_output_tokens" usual.maxTokens).comparedWith "<" 1
  require (!maxTokens.lt 1) "max_output_tokens must be at least 1"
  let timeout ← (get "timeout_seconds" usual.timeout).comparedWith "<=" 0
  require (!timeout.le 0) "timeout_seconds must be positive"
  .ok {
    apiKey := valueOr fields "api_key" usual.apiKey
    model := valueOr fields "model" usual.model
    baseUrl := valueOr fields "base_url" usual.baseUrl
    temperature, maxTokens, timeout }

/-- There is a key. -/
def isConfigured (g : GeneratorSettings) : Bool := g.apiKey.truthy

end GeneratorSettings

/-- How much is logged. -/
inductive Verbosity where
  /-- Errors only. -/
  | quiet
  /-- Errors and warnings. -/
  | normal
  /-- Everything. -/
  | verbose
  deriving DecidableEq, Repr, Inhabited

namespace Verbosity

/-- The name of a verbosity. -/
def name : Verbosity → String
  | .quiet => "quiet"
  | .normal => "normal"
  | .verbose => "verbose"

/-- The verbosity of a name. -/
def named? (name : String) : Option Verbosity :=
  [quiet, normal, verbose].find? fun v => v.name == name

/-- The level from which on records are kept. -/
def level : Verbosity → Level
  | .quiet => .error
  | .normal => .warning
  | .verbose => .debug

end Verbosity

/-- The names of folders that are usually not entered. -/
def usualExcluded : List String :=
  [".git", "node_modules", "dist", "build", ".next", "out", ".turbo", "__pycache__", "venv",
   ".venv", ".tox", ".mypy_cache", ".pytest_cache"]

/-- The settings of a run. -/
structure Settings where
  /-- The size beyond which files are left out, in units of 1048576 bytes. -/
  maxFileSize : Number := .float 5.0
  /-- The names of folders that are never entered. -/
  excluded : Value := .list (usualExcluded.map Value.str)
  /-- Names that start with a dot are looked at as well. -/
  hidden : Value := .bool false
  /-- How much evidence an issue cites at most. -/
  maxEvidence : Number := 5
  /-- Fixes are attempted. -/
  enableFixes : Value := .bool false
  /-- For how many issues fixes are attempted at most. -/
  maxFixes : Number := 2
  /-- How much is logged. -/
  verbosity : Verbosity := .normal
  /-- A file that receives the log as well. -/
  logFile : Value := .null
  /-- From which size on something is reported. -/
  thresholds : Thresholds := {}
  /-- How the patch generator is reached. -/
  generator : GeneratorSettings := {}
  deriving Repr, Inhabited

namespace Settings

/-- The name of this group of settings in messages. -/
def group : String := "AnalysisConfig"

/-- The names of the settings that are not groups of others. -/
def names : List String :=
  ["max_file_size_mb", "exclude_dirs", "allow_hidden_files", "max_evidence_items", "enable_fixes",
   "max_fixes", "verbosity", "log_file"]

/-- The settings given by named values and two groups, the others as usual. -/
def ofFields (fields : NamedValues) (thresholds : Thresholds) (generator : GeneratorSettings) :
    Outcome Settings := do
  onlyKnown group names fields
  let usual : Settings := {}
  let get (name : String) (n : Number) : Value := valueOr fields name (.ofNumber n)
  let maxFileSize ← (get "max_file_size_mb" usual.maxFileSize).comparedWith "<=" 0
  require (!maxFileSize.le 0) "max_file_size_mb must be positive"
  let maxEvidence ← (get "max_evidence_items" usual.maxEvidence).comparedWith "<" 1
  require (!maxEvidence.lt 1) "max_evidence_items must be at least 1"
  let maxFixes ← (get "max_fixes" usual.maxFixes).comparedWith "<" 0
  require (!maxFixes.lt 0) "max_fixes must be non-negative"
  let verbosity ←
    match (valueOr fields "verbosity" (.str usual.verbosity.name)).str?.bind Verbosity.named? with
    | some v => .ok v
    | none => misuse .value "verbosity must be quiet, normal or verbose"
  .ok {
    maxFileSize, maxEvidence, maxFixes, verbosity, thresholds, generator
    excluded := valueOr fields "exclude_dirs" usual.excluded
    hidden := valueOr fields "allow_hidden_files" usual.hidden
    enableFixes := valueOr fields "enable_fixes" usual.enableFixes
    logFile := valueOr fields "log_file" usual.logFile }

/-- The largest size of a file in bytes. -/
def maxFileBytes (s : Settings) : Outcome Int :=
  match s.maxFileSize.toInt? with
  | some n => .ok (n * 1048576)
  | none =>
    let bytes := s.maxFileSize.toFloat * 1024.0 * 1024.0
    match Decimal.truncate? bytes with
    | some n => .ok n
    | none =>
      if bytes.isNaN then misuse .value "cannot convert float NaN to integer"
      else misuse .overflow "cannot convert float infinity to integer"

/-- All settings under their names. -/
def report (s : Settings) : NamedValues :=
  names.zip
    [.ofNumber s.maxFileSize, s.excluded, s.hidden, .ofNumber s.maxEvidence, s.enableFixes,
     .ofNumber s.maxFixes, .str s.verbosity.name, s.logFile] ++
  [("thresholds", .table s.thresholds.report), ("generator", .table s.generator.report)]

end Settings

end EvidenceLock
