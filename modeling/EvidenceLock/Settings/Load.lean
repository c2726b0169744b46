import EvidenceLock.Keyed
import EvidenceLock.Settings.Environment
import EvidenceLock.Toml.Document

/-
  Settings from all their sources. Each source overwrites what the sources before
  it set; the tables of the thresholds and of the generator are overwritten key by
  key. The sources are, from the weakest to the strongest: the usual values, the
  file in the home folder, the file in the working folder, a file that is named,
  the environment, and what the caller overrides.
-/

namespace EvidenceLock

/-- The names of the two groups of settings. -/
def groupNames : List String := ["thresholds", "generator"]

mutual

/-- The value can be shown: no integer in it has too many digits. -/
def Value.showable : Value → Bool
  | .int i => Decimal.writable i
  | .list items => itemsShowable items
  | .table fields => fieldsShowable fields
  | _ => true

/-- All items can be shown. -/
def itemsShowable : List Value → Bool
  | [] => true
  | v :: rest => v.showable && itemsShowable rest

/-- All fields can be shown. -/
def fieldsShowable : List (String × Value) → Bool
  | [] => true
  | (_, v) :: rest => v.showable && fieldsShowable rest

end

/-- The pair that an element of a list stands for; a key that is no text has no name. -/
def pairOf (index : Nat) (v : Value) : Outcome (Option String × Value) :=
  let wrongLength (n : Nat) : Outcome (Option String × Value) :=
    misuse .value
      s!"dictionary update sequence element #{index} has length {n}; 2 is required"
  match v with
  | .list [.str k, w] => .ok (some k, w)
  | .list [k@(.list _), _] | .list [k@(.table _), _] =>
    misuse .type s!"unhashable type: '{k.typeName}'"
  | .list [_, w] => .ok (none, w)
  | .list items => wrongLength items.length
  | .str s =>
    match s.toList with
    | [k, w] => .ok (some (String.singleton k), .str (String.singleton w))
    | cs => wrongLength cs.length
  | .table [(k, _), (l, _)] => .ok (some k, .str l)
  | .table fields => wrongLength fields.length
  | _ =>
    misuse .type s!"cannot convert dictionary update sequence element #{index} to a sequence"

/-- The elements of an earlier value as pairs; those of a table are its fields. -/
def pairsBelow (v : Value) : Outcome (List (Option String × Value)) :=
  if !v.truthy then .ok []
  else
    match v with
    | .table fields => .ok (fields.map fun (k, w) => (some k, w))
    | .list items => items.zipIdx.mapM fun (item, i) => pairOf i item
    | .str s => s.toList.zipIdx.mapM fun (c, i) => pairOf i (.str (String.singleton c))
    | v => misuse .type s!"'{v.typeName}' object is not iterable"

/-- The values of all sources so far. -/
structure Layers where
  /-- Named values. -/
  fields : NamedValues := []
  /-- The groups that have values without a name besides. -/
  unnamed : List String := []
  deriving Repr, Inhabited

/-- One named value laid over others. A table for a group is laid over its earlier value key by
key. -/
def layValue (below : Layers) (name : String) (v : Value) : Outcome Layers :=
  match groupNames.contains name, v with
  | true, .table fields => do
    let pairs ← pairsBelow ((Value.field? below.fields name).getD .null)
    let old := pairs.filterMap fun (k, w) => k.map (·, w)
    .ok {
      fields := Keyed.insert below.fields name (.table (Keyed.merge (Keyed.merge [] old) fields))
      unnamed := if pairs.any (·.1.isNone) then name :: below.unnamed else below.unnamed }
  | _, v => .ok {
      fields := Keyed.insert below.fields name v
      unnamed := below.unnamed.filter (· != name) }

/-- Named values laid over others, one after the other. -/
def layValues (below : Layers) (above : NamedValues) : Outcome Layers :=
  above.foldlM (fun below (name, v) => layValue below name v) below

/-- The settings file in the home folder. -/
def Host.homeSettings (h : Host) : String := Path.resolveUnder h.home ".coderoast.toml"

/-- The settings file in the working folder. -/
def Host.workSettings (h : Host) : String := Path.resolveUnder h.workdir "coderoast.toml"

/-- The table that the file under a path holds; `label` says which file it is. -/
def Host.readSettings (h : Host) (label path : String) : Outcome NamedValues := do
  let invalid (reason : String) : Outcome NamedValues :=
    fail (.configuration s!"Invalid {label} config '{path}': {reason}" [])
  match h.readBytes path with
  | .error .nullCharacter => AccessError.nullCharacter.misused path
  | .error e => invalid (e.report path)
  | .ok bytes =>
    match Text.Utf8.decodeStrict bytes with
    | .error message => misuse .encoding message
    | .ok text =>
      match Toml.parse text with
      | .ok fields => .ok fields
      | .error .malformed => invalid "<toml error>"
      | .error (.tooLong n) => misuse .value (Decimal.tooLongMessage n)

/-- The named values of a file laid over others. -/
def Host.layFile (h : Host) (below : Layers) (label path : String) : Outcome Layers := do
  layValues below (← h.readSettings label path)

/-- What the caller overrides. -/
structure Overrides where
  /-- Named values. -/
  fields : NamedValues := []
  /-- Finished thresholds. -/
  thresholds : Option Thresholds := none
  /-- Finished settings of the generator. -/
  generator : Option GeneratorSettings := none
  deriving Repr, Inhabited

/-- A switch replaced by the verbosity that it turns on. -/
def applySwitch (fields : NamedValues) (switch : String) (v : Verbosity) : NamedValues :=
  match Value.field? fields switch with
  | none => fields
  | some on =>
    Keyed.erase (if on.truthy then Keyed.insert fields "verbosity" (.str v.name) else fields) switch

/-- The overrides with the switches replaced; quiet wins over verbose. -/
def Overrides.settled (o : Overrides) : NamedValues :=
  applySwitch (applySwitch o.fields "verbose" .verbose) "quiet" .quiet

/-- A broken rule as a failure of the settings. -/
def asConfiguration {α : Type} (start : String) (x : Outcome α) : Outcome α :=
  match x with
  | .error (.fault f) => fail (.configuration s!"{start}: {f.message}" [])
  | x => x

/-- A group of settings from the value under its name; `unnamed` says that it has values without a
name besides. -/
def groupOf {α : Type} (group : String) (ofFields : NamedValues → Outcome α) (unnamed : Bool)
    (v : Value) : Outcome α :=
  match v with
  | .null => ofFields []
  | .table fields =>
    asConfiguration s!"Invalid {group} config" <|
      if unnamed then misuse .type "keywords must be strings" else ofFields fields
  | v =>
    if v.showable then fail (.invalidSetting group v "expected a table")
    else misuse .value Decimal.unwritableMessage

/-- The values of all sources, laid over each other. -/
def Host.layers (h : Host) (file : Option String) (o : Overrides) : Outcome Layers := do
  let homeFile := h.homeSettings
  let below ← if ← h.isPresent homeFile then h.layFile {} "global" homeFile else .ok {}
  let workFile := h.workSettings
  let below ← if ← h.isPresent workFile then h.layFile below "project" workFile else .ok below
  let below ←
    match file with
    | none => .ok below
    | some path => do
      let path := String.ofList (Path.tidy path.toList)
      if ← h.isPresent path then h.layFile below "explicit" path
      else fail (.configuration s!"Config file not found: {path}" [])
  let below ← layValues below (← h.variableSettings)
  layValues below o.settled

/-- A group of settings from the values of all sources. -/
def Layers.group {α : Type} (l : Layers) (name group : String)
    (ofFields : NamedValues → Outcome α) : Outcome α :=
  groupOf group ofFields (l.unnamed.contains name) ((Value.field? l.fields name).getD .null)

/-- The settings of a run. -/
def Host.loadSettings (h : Host) (file : Option String) (o : Overrides) : Outcome Settings := do
  let layers ← h.layers file o
  let thresholds ←
    match o.thresholds with
    | some t => .ok t
    | none => layers.group "thresholds" Thresholds.group Thresholds.ofFields
  let generator ←
    match o.generator with
    | some g => .ok g
    | none => layers.group "generator" GeneratorSettings.group GeneratorSettings.ofFields
  asConfiguration "Invalid configuration" <|
    Settings.ofFields (layers.fields.filter fun f => !groupNames.contains f.1) thresholds generator

end EvidenceLock
