import EvidenceLock.Decimal.Reading
import EvidenceLock.Host
import EvidenceLock.Settings.Basic
import EvidenceLock.Text.LowerCase

/-
  Settings from environment variables. A variable is named after its setting, and
  its text is read as a value of the kind that the setting usually has; lists and
  groups of settings cannot come from a variable.
-/

namespace EvidenceLock

/-- What the text of a variable is read as. -/
inductive VariableKind where
  /-- A truth value. -/
  | flag
  /-- An integer. -/
  | integer
  /-- A double. -/
  | double
  /-- The text itself. -/
  | text
  deriving DecidableEq, Repr

/-- The integer that a text writes, or why it writes none. -/
def integerOf (text : String) : Except String Int :=
  match Decimal.readInteger text with
  | .ok n => .ok n
  | .error .malformed =>
    let shown := (Text.Quoted.encode text).toList.take 200
    .error ("invalid literal for int() with base 10: " ++ String.ofList shown)
  | .error (.tooLong n) => .error (Decimal.tooLongMessage n)

/-- The double that a text writes, or why it writes none. -/
def doubleOf (text : String) : Except String Float :=
  match Decimal.readFloat text with
  | some x => .ok x
  | none => .error ("could not convert string to float: " ++ Text.Quoted.encode text)

/-- The words for yes. -/
def yesWords : List String := ["true", "1", "yes", "on"]

/-- The words for no. -/
def noWords : List String := ["false", "0", "no", "off"]

/-- The truth value that a word stands for, in upper or lower case. -/
def flagOf (text : String) : Except String Bool :=
  let word := Text.lowered text
  if yesWords.contains word then .ok true
  else if noWords.contains word then .ok false
  else .error s!"expected true/false, got '{text}'"

/-- The value that the text of a variable writes, or why it writes none. -/
def VariableKind.read (kind : VariableKind) (text : String) : Except String Value :=
  match kind with
  | .flag => (flagOf text).map Value.bool
  | .integer => (integerOf text).map Value.int
  | .double => (doubleOf text).map Value.float
  | .text => .ok (.str text)

/-- The settings that a variable can set. -/
def settingVariables : List (String × VariableKind) :=
  [("max_file_size_mb", .double), ("allow_hidden_files", .flag), ("max_evidence_items", .integer),
   ("enable_fixes", .flag), ("max_fixes", .integer), ("verbosity", .text), ("log_file", .text)]

/-- The settings of the generator that a variable can set. -/
def generatorVariables : List (String × VariableKind) :=
  [("api_key", .text), ("model", .text), ("base_url", .text), ("temperature", .double),
   ("max_output_tokens", .integer), ("timeout_seconds", .double)]

/-- How the names of the variables of settings start. -/
def settingStart : String := "CODEROAST_"

/-- How the names of the variables of the generator start. -/
def generatorStart : String := "CODEROAST_GENERATOR_"

/-- The name of the variable of a setting. -/
def variableName (start name : String) : String := start ++ name.toUpper

/-- The names of all variables. -/
def variableNames : List String :=
  settingVariables.map (variableName settingStart ·.1) ++
    generatorVariables.map (variableName generatorStart ·.1)

/-- The named values that variables set, in the order of the settings. -/
def variablesOf (lookup : String → Option String) (start : String)
    (kinds : List (String × VariableKind)) : Outcome NamedValues :=
  kinds.foldlM
    (fun found (name, kind) =>
      let variable_ := variableName start name
      match lookup variable_ with
      | none => .ok found
      | some text =>
        match kind.read text with
        | .ok v => .ok (found ++ [(name, v)])
        | .error reason => fail (.invalidSetting variable_ (.str text) reason))
    []

/-- The settings that the environment sets. -/
def Host.variableSettings (h : Host) : Outcome NamedValues := do
  let own ← variablesOf h.environmentValue? settingStart settingVariables
  let generator ← variablesOf h.environmentValue? generatorStart generatorVariables
  .ok (if generator.isEmpty then own else own ++ [("generator", .table generator)])

end EvidenceLock
