import EvidenceLock.Value
import EvidenceLock.Text.Blank

/-
  Why an operation gave no answer. A `Failure` is an outcome that the library
  foresees: each constructor is a cause, and its wording is in `Failure.message`.
  A `Fault` says that a value was used in a way it does not allow; nothing inside
  the library recovers from one.
-/

namespace EvidenceLock

/-- A foreseen failure. -/
inductive Failure where
  /-- A failure of no particular kind. -/
  | general (message : String) (details : List (String × Value))
  /-- An analysis step failed. -/
  | analysis (message : String) (details : List (String × Value))
  /-- A source file cannot be read. -/
  | fileAccess (path reason : String)
  /-- No language has this extension. -/
  | unsupportedExtension (extension : String)
  /-- A source file cannot be parsed. -/
  | parsing (path language reason : String)
  /-- The settings are not usable. -/
  | configuration (message : String) (details : List (String × Value))
  /-- One setting has an unusable value. -/
  | invalidSetting (key : String) (value : Value) (reason : String)
  /-- A patch step failed. -/
  | patch (message : String) (details : List (String × Value))
  /-- The patch generator gave no answer. -/
  | generation (reason : String)
  /-- A text is not a diff. -/
  | diff (message : String) (line : Option Int)
  /-- An old-file header has no new-file header. -/
  | unpairedHeader (line : Option Int)
  /-- A hunk header does not have the expected form. -/
  | malformedHunk (header : String) (line : Option Int)
  /-- A hunk comes before any file header. -/
  | homelessHunk (line : Option Int)
  /-- A text has no file headers. -/
  | emptyPatch
  /-- No hunk adds or removes a line. -/
  | noChanges
  /-- An edit lies outside the evidence. -/
  | outOfScope (message file : String) (line : Option Int)
  /-- A hunk does not fit into the file. -/
  | hunkRange (message file : String) (line : Int)
  /-- A line of a hunk differs from the line of the file. -/
  | hunkMismatch (message file : String) (line : Int)
  deriving Repr, Inhabited

namespace Failure

/-- What happened, in words. -/
def message : Failure → String
  | .general m _ | .analysis m _ | .configuration m _ | .patch m _ | .diff m _ => m
  | .outOfScope m _ _ | .hunkRange m _ _ | .hunkMismatch m _ _ => m
  | .fileAccess path _ => s!"Cannot access file: {path}"
  | .unsupportedExtension ext => s!"Unsupported source extension: {ext}"
  | .parsing path language _ => s!"Failed to parse {language} file: {path}"
  | .invalidSetting key value _ => s!"Invalid configuration for {key}: {value.text}"
  | .generation reason => s!"Patch generation failed: {reason}"
  | .unpairedHeader _ => "Malformed diff header: '---' without '+++'"
  | .malformedHunk header _ => s!"Malformed hunk header: {Text.trimmed header}"
  | .homelessHunk _ => "Hunk found before file header"
  | .emptyPatch => "Invalid patch: patch contains no changes (no file headers found)"
  | .noChanges => "Invalid patch: patch contains no changes"

/-- A line number as a detail. -/
def lineDetail : Option Int → List (String × Value)
  | none => []
  | some n => [("line", .str (toString n))]

/-- The circumstances, by name. -/
def details : Failure → List (String × Value)
  | .general _ ds | .analysis _ ds | .configuration _ ds | .patch _ ds => ds
  | .fileAccess path reason => [("filepath", .str path), ("reason", .str reason)]
  | .unsupportedExtension ext => [("extension", .str ext)]
  | .parsing path language reason =>
    [("filepath", .str path), ("language", .str language), ("reason", .str reason)]
  | .invalidSetting key value reason =>
    [("key", .str key), ("value", .str value.text), ("reason", .str reason)]
  | .generation _ | .emptyPatch | .noChanges => []
  | .diff _ line | .unpairedHeader line | .malformedHunk _ line | .homelessHunk line =>
    lineDetail line
  | .outOfScope _ file line => ("file", .str file) :: lineDetail line
  | .hunkRange _ file line | .hunkMismatch _ file line =>
    [("file", .str file), ("line", .str (toString line))]

/-- The name of the kind of failure, as logs show it. -/
def name : Failure → String
  | .general .. => "CoderoastError"
  | .analysis .. => "AnalysisError"
  | .fileAccess .. => "FileAccessError"
  | .unsupportedExtension _ => "UnsupportedLanguageError"
  | .parsing .. => "ParsingError"
  | .configuration .. => "ConfigurationError"
  | .invalidSetting .. => "InvalidConfigError"
  | .patch .. => "PatchError"
  | .generation _ => "PatchGenerationError"
  | .diff .. => "DiffParseError"
  | .unpairedHeader _ => "MalformedDiffHeaderError"
  | .malformedHunk .. => "MalformedHunkHeaderError"
  | .homelessHunk _ => "HunkBeforeFileHeaderError"
  | .emptyPatch => "EmptyPatchError"
  | .noChanges => "NoActualChangesError"
  | .outOfScope .. => "OutOfScopeEditError"
  | .hunkRange .. => "HunkRangeError"
  | .hunkMismatch .. => "HunkContextMismatchError"

/-- The names of the broader kinds that the failure belongs to, narrowest first. -/
def broader : Failure → List String
  | .general .. => []
  | .analysis .. | .configuration .. | .patch .. => ["CoderoastError"]
  | .fileAccess .. | .unsupportedExtension _ | .parsing .. => ["AnalysisError", "CoderoastError"]
  | .invalidSetting .. => ["ConfigurationError", "CoderoastError"]
  | .generation _ | .diff .. | .outOfScope .. | .hunkRange .. => ["PatchError", "CoderoastError"]
  | .unpairedHeader _ | .malformedHunk .. | .homelessHunk _ | .emptyPatch | .noChanges =>
    ["DiffParseError", "PatchError", "CoderoastError"]
  | .hunkMismatch .. => ["HunkRangeError", "PatchError", "CoderoastError"]

/-- The message, with the details in parentheses when there are any. -/
def text (f : Failure) : String :=
  match f.details with
  | [] => f.message
  | ds =>
    s!"{f.message} (" ++ Text.joinWith ", " (ds.map fun (k, v) => s!"{k}={v.text}") ++ ")"

/-- The text was refused as a diff. -/
def isDiff : Failure → Bool
  | .diff .. | .unpairedHeader _ | .malformedHunk .. | .homelessHunk _ | .emptyPatch
  | .noChanges => true
  | _ => false

end Failure

/-- The kinds of misuse. -/
inductive FaultKind where
  /-- A value outside of what the operation takes. -/
  | value
  /-- A value of the wrong type. -/
  | type
  /-- A place that does not exist. -/
  | index
  /-- A key that does not exist. -/
  | key
  /-- A result that does not fit. -/
  | overflow
  /-- Bytes that are not text. -/
  | encoding
  /-- A question that the file system refuses to answer. -/
  | system
  deriving DecidableEq, Repr

/-- A value used in a way that it does not allow. -/
structure Fault where
  /-- The kind of misuse. -/
  kind : FaultKind
  /-- What happened, in words. -/
  message : String
  deriving DecidableEq, Repr

/-- Why an operation gave no answer. -/
inductive Error where
  /-- A foreseen failure. -/
  | failure (f : Failure)
  /-- A misuse of a value. -/
  | fault (f : Fault)
  deriving Repr

instance : Inhabited Error := ⟨.failure default⟩

/-- An answer or an error. -/
abbrev Outcome := Except Error

/-- Gives a foreseen failure. -/
def fail {α : Type} (f : Failure) : Outcome α := .error (.failure f)

/-- Gives a fault. -/
def misuse {α : Type} (kind : FaultKind) (message : String) : Outcome α :=
  .error (.fault { kind, message })

end EvidenceLock
