import EvidenceLock.Proofs.Layering

/-!
# The strongest source wins

The settings of a run have every value from the strongest source that sets it, or else the usual one
(`Host.loadSettings_strongest`). A variable of the environment sets what its text is read as, and a
switch that is on overrides the verbosity, the one for quiet before the one for verbose.
-/

namespace EvidenceLock

/-! ## What the sources set -/

/-- The value that an environment variable sets. -/
def Host.variableValue? (h : Host) (start : String) (kinds : List (String × VariableKind))
    (name : String) : Option Value := do
  let kind ← List.lookup name kinds
  let text ← h.environmentValue? (variableName start name)
  (kind.read text).toOption

/-- The values that the environment sets. -/
def Host.variables (h : Host) : Source
  | .own name => h.variableValue? settingStart settingVariables name
  | .inGroup group name =>
    if group = "generator" then h.variableValue? generatorStart generatorVariables name else none

/-- Every variable has a text that can be read. -/
def Host.Parsable (h : Host) : Prop :=
  (∀ k ∈ settingVariables, ∀ text, h.environmentValue? (variableName settingStart k.1) = some text →
    ∃ v, k.2.read text = .ok v) ∧
  ∀ k ∈ generatorVariables, ∀ text,
    h.environmentValue? (variableName generatorStart k.1) = some text → ∃ v, k.2.read text = .ok v

/-- A switch is given and on. -/
def Overrides.turnsOn (o : Overrides) (switch : String) : Bool :=
  (Value.field? o.fields switch).any Value.truthy

/-- The values that the caller overrides. A switch that is on overrides the verbosity. -/
def Overrides.source (o : Overrides) : Source := fun p =>
  if p = .own "verbosity" ∧ o.turnsOn "quiet" then some (.str "quiet")
  else if p = .own "verbosity" ∧ o.turnsOn "verbose" then some (.str "verbose")
  else Source.ofTable o.fields p

theorem Settings.forall_places {P : Place → Prop} : (∀ p ∈ places, P p) ↔
    (∀ name ∈ names, P (.own name)) ∧ (∀ name ∈ Thresholds.names, P (.inGroup "thresholds" name)) ∧
      ∀ name ∈ GeneratorSettings.names, P (.inGroup "generator" name) := by
  simp only [places, groups, List.flatMap_cons, List.flatMap_nil, List.append_nil,
    List.forall_mem_append, List.forall_mem_map]

theorem field?_append (a b : NamedValues) (name : String) :
    Value.field? (a ++ b) name = (Value.field? a name).or (Value.field? b name) := by
  rw [Value.field?, List.find?_append, Option.map_or]
  rfl

/-! ## The environment -/

theorem VariableKind.read_plain {kind : VariableKind} {text : String} {v : Value}
    (h : kind.read text = .ok v) : Toml.isCompound v = false := by
  have hmap {α : Type} {x : Except String α} {f : α → Value}
      (hf : ∀ a, Toml.isCompound (f a) = false) (h : x.map f = .ok v) :
      Toml.isCompound v = false := by
    cases x with
    | error e => cases h
    | ok a =>
      cases h
      exact hf a
  cases kind with
  | flag => exact hmap (fun _ => rfl) h
  | integer => exact hmap (fun _ => rfl) h
  | double => exact hmap (fun _ => rfl) h
  | text =>
    cases h
    rfl

theorem Source.keys_values_sublist (s : Source) (place : String → Place) (names : List String) :
    ((s.values place names).map Prod.fst).Sublist names := by
  induction names with
  | nil => exact List.Sublist.refl []
  | cons n names ih =>
    unfold values at ih ⊢
    rw [List.filterMap_cons]
    cases s (place n) with
    | none => exact ih.cons n
    | some v => exact ih.cons_cons n

theorem lookup_of_mem {kinds : List (String × VariableKind)} (h : (kinds.map Prod.fst).Nodup)
    {k : String × VariableKind} (hk : k ∈ kinds) : List.lookup k.1 kinds = some k.2 :=
  Keyed.find?_of_mem h hk

namespace Host

variable (h : Host) {start : String} {kinds : List (String × VariableKind)}

theorem variableValue?_plain {name : String} {v : Value}
    (hv : h.variableValue? start kinds name = some v) : Toml.isCompound v = false := by
  obtain ⟨kind, -, hv⟩ := Option.bind_eq_some_iff.1 hv
  obtain ⟨text, -, hv⟩ := Option.bind_eq_some_iff.1 hv
  cases hread : kind.read text with
  | error e =>
    rw [hread] at hv
    cases hv
  | ok w =>
    rw [hread] at hv
    cases hv
    exact VariableKind.read_plain hread

theorem variableValue?_eq_none {name : String} (hname : name ∉ kinds.map Prod.fst) :
    h.variableValue? start kinds name = none := by
  have hlookup : List.lookup name kinds = none := Keyed.find?_of_not_mem hname
  rw [variableValue?, hlookup]
  rfl

/-- Variables that can all be read set the values of the environment. -/
theorem variablesOf_eq {s : Source} {place : String → Place} (hkinds : (kinds.map Prod.fst).Nodup)
    (hs : ∀ name, s (place name) = h.variableValue? start kinds name)
    (hread : ∀ k ∈ kinds, ∀ text, h.environmentValue? (variableName start k.1) = some text →
      ∃ v, k.2.read text = .ok v) :
    variablesOf h.environmentValue? start kinds = .ok (s.values place (kinds.map Prod.fst)) := by
  have hvalue {k : String × VariableKind} (hk : k ∈ kinds) : s (place k.1) =
      (h.environmentValue? (variableName start k.1)).bind fun text =>
        (k.2.read text).toOption := by
    rw [hs, variableValue?, lookup_of_mem hkinds hk]
    rfl
  unfold variablesOf
  rw [Source.values, List.filterMap_map]
  -- each variable adds its value, if it has one, to what was found before it
  refine Outcome.foldlM_eq_append (fun k hk found => ?_) []
  obtain ⟨name, kind⟩ := k
  rw [Function.comp_apply]
  have hfirst := hvalue hk
  dsimp only at hfirst ⊢
  cases htext : h.environmentValue? (variableName start name) with
  | none =>
    rw [htext, Option.bind_none] at hfirst
    rw [hfirst, Option.map_none, Option.toList_none, List.append_nil]
  | some text =>
    obtain ⟨v, hv⟩ := hread (name, kind) hk text htext
    rw [htext, Option.bind_some, hv] at hfirst
    rw [hfirst]
    dsimp only at hv ⊢
    rw [hv]
    rfl

theorem values_wellKeyed {place : String → Place} {names : List String}
    (hplace : ∀ name, h.variables (place name) = h.variableValue? start kinds name)
    (hnames : names.Nodup) : (Value.table (h.variables.values place names)).WellKeyed := by
  rw [Value.wellKeyed_table]
  refine ⟨(h.variables.keys_values_sublist place names).nodup hnames, fun f hf => ?_⟩
  obtain ⟨name, -, hf⟩ := List.mem_filterMap.1 hf
  obtain ⟨v, hv, rfl⟩ := Option.map_eq_some_iff.1 hf
  rw [hplace] at hv
  exact .plain (h.variableValue?_plain hv)

theorem field?_values_variables {place : String → Place}
    (hplace : ∀ name, h.variables (place name) = h.variableValue? start kinds name)
    (name : String) : Value.field? (h.variables.values place (kinds.map Prod.fst)) name =
      h.variables (place name) := by
  rw [Source.field?_values]
  split
  · rfl
  · rename_i hname
    rw [hplace, h.variableValue?_eq_none hname]

/-- Where every variable can be read, the environment is a table of known names with the values that
it sets. -/
theorem exists_variableSettings (hparsable : h.Parsable) : ∃ env, h.variableSettings = .ok env ∧
    (Value.table env).WellKeyed ∧ KnownFields [] env ∧
    ∀ p ∈ Settings.places, Source.ofTable env p = h.variables p := by
  set own := h.variables.values .own (settingVariables.map Prod.fst)
  set generator := h.variables.values (.inGroup "generator") (generatorVariables.map Prod.fst)
  have hvalueOwn (name : String) : Value.field? own name = h.variables (.own name) :=
    h.field?_values_variables (fun _ => rfl) name
  have hvalueGenerator (name : String) :
      Value.field? generator name = h.variables (.inGroup "generator" name) :=
    h.field?_values_variables (fun _ => rfl) name
  have hreadOwn : variablesOf h.environmentValue? settingStart settingVariables = .ok own :=
    h.variablesOf_eq (by decide) (fun _ => rfl) hparsable.1
  have hreadGenerator :
      variablesOf h.environmentValue? generatorStart generatorVariables = .ok generator :=
    h.variablesOf_eq (by decide) (fun _ => rfl) hparsable.2
  have hnames : ∀ f ∈ own, f.1 ∈ Settings.names := fun f hf =>
    (by decide : ∀ name ∈ settingVariables.map Prod.fst, name ∈ Settings.names) _
      (Source.mem_values f hf)
  have hkeysOwn : (Value.table own).WellKeyed := h.values_wellKeyed (fun _ => rfl) (by decide)
  have hkeysGenerator : (Value.table generator).WellKeyed :=
    h.values_wellKeyed (fun _ => rfl) (by decide)
  rw [variableSettings, hreadOwn, Outcome.ok_bind, hreadGenerator, Outcome.ok_bind]
  have hgroup {name : String} (hname : name ∈ groupNames) : name ∉ own.map Prod.fst := by
    intro hmem
    obtain ⟨f, hf, rfl⟩ := List.mem_map.1 hmem
    exact Settings.name_ne_group (hnames f hf) hname rfl
  have hnew : "generator" ∉ own.map Prod.fst := hgroup (by decide)
  have hthresholds : "thresholds" ∉ own.map Prod.fst := hgroup (by decide)
  by_cases hempty : generator.isEmpty
  · rw [if_pos hempty]
    refine ⟨own, rfl, hkeysOwn, fun f hf => .inl (hnames f hf), ?_⟩
    refine Settings.forall_places.2 ⟨fun name _ => hvalueOwn name, fun name _ => ?_,
      fun name _ => ?_⟩
    · exact Source.ofTable_eq_none (Value.field?_eq_none_iff.2 hthresholds)
    · rw [← hvalueGenerator, List.isEmpty_iff.1 hempty]
      exact Source.ofTable_eq_none (Value.field?_eq_none_iff.2 hnew)
  · rw [if_neg hempty]
    refine ⟨_, rfl, Toml.wellKeyed_added hkeysOwn hnew hkeysGenerator, fun f hf => ?_, ?_⟩
    · rcases List.mem_append.1 hf with hf | hf
      · exact .inl (hnames f hf)
      · rw [List.mem_singleton.1 hf]
        refine .inr ⟨("generator", GeneratorSettings.names), by decide, rfl, generator, rfl, ?_⟩
        exact Source.mem_values
    · have hfield (k : String) :
          Value.field? (own ++ [("generator", .table generator)]) k =
            (Value.field? own k).or (Value.field? [("generator", .table generator)] k) :=
        field?_append ..
      refine Settings.forall_places.2 ⟨fun name hname => ?_, fun name _ => ?_, fun name _ => ?_⟩
      · have hne := Settings.name_ne_group hname (by decide : "generator" ∈ groupNames)
        rw [Source.ofTable, hfield, hvalueOwn, Value.field?_eq_none_iff.2 (by simpa using hne),
          Option.or_none]
      · refine Source.ofTable_eq_none ?_
        rw [Place.top, hfield, Value.field?_eq_none_iff.2 hthresholds, Option.none_or]
        rfl
      · rw [← hvalueGenerator, ← Source.ofTable_group "generator"]
        refine Source.ofTable_congr ?_
        rw [Place.top, hfield, Value.field?_eq_none_iff.2 hnew, Option.none_or]

end Host

/-! ## Overrides -/

section
variable {fields : NamedValues} {switch : String} {v : Verbosity}

theorem field?_erase (fields : NamedValues) (name k : String) :
    Value.field? (Keyed.erase fields name) k =
      if k = name then none else Value.field? fields k := by
  have hfilter := field?_filter fields (fun n => !(name == n)) k
  rw [Keyed.erase, hfilter]
  by_cases hk : k = name
  · simp [hk]
  · simp [hk, Ne.symm hk]

theorem field?_applySwitch (name : String) :
    Value.field? (applySwitch fields switch v) name =
      if name = switch then none
      else if name = "verbosity" ∧ (Value.field? fields switch).any Value.truthy then
        some (.str v.name)
      else Value.field? fields name := by
  unfold applySwitch
  cases hon : Value.field? fields switch with
  | none =>
    dsimp only
    by_cases hname : name = switch
    · rw [if_pos hname, hname, hon]
    · rw [if_neg hname, if_neg (by simp)]
  | some on =>
    dsimp only
    rw [field?_erase]
    by_cases htrue : on.truthy
    · rw [if_pos htrue, field?_insert]
      simp [htrue]
    · rw [if_neg htrue]
      simp [htrue]

theorem mem_applySwitch {f : String × Value} (hf : f ∈ applySwitch fields switch v) :
    f.1 ≠ switch ∧ (f ∈ fields ∨ f = ("verbosity", .str v.name)) := by
  unfold applySwitch at hf
  split at hf
  · rename_i hnone
    refine ⟨?_, .inl hf⟩
    rintro rfl
    exact Value.field?_eq_none_iff.1 hnone (List.mem_map_of_mem hf)
  · obtain ⟨hf, hname⟩ := List.mem_filter.1 hf
    refine ⟨fun h => by simp [h] at hname, ?_⟩
    split at hf
    · exact Keyed.mem_insert hf
    · exact .inl hf

theorem applySwitch_wellKeyed (h : (Value.table fields).WellKeyed) :
    (Value.table (applySwitch fields switch v)).WellKeyed := by
  rw [Value.wellKeyed_table] at h ⊢
  obtain ⟨hkeys, hvalues⟩ := h
  refine ⟨?_, fun f hf => ?_⟩
  · unfold applySwitch
    split
    · exact hkeys
    · refine List.Nodup.sublist ((List.filter_sublist (p := _)).map Prod.fst) ?_
      split
      · exact Keyed.nodup_keys_alter hkeys _ _
      · exact hkeys
  · rcases (mem_applySwitch hf).2 with hf | rfl
    · exact hvalues f hf
    · exact .plain rfl

theorem KnownFields.applySwitch {more : List String} (h : KnownFields (switch :: more) fields) :
    KnownFields more (EvidenceLock.applySwitch fields switch v) := by
  intro f hf
  obtain ⟨hne, hf⟩ := mem_applySwitch hf
  rcases hf with hf | rfl
  · refine (h f hf).imp_left fun hname => ?_
    exact (List.mem_cons.1 hname).resolve_left hne
  · exact .inl (List.mem_append_right _ (by decide : "verbosity" ∈ Settings.names))

end

theorem Overrides.field?_settled (o : Overrides) {group : String} (hgroup : group ∈ groupNames) :
    Value.field? o.settled group = Value.field? o.fields group := by
  obtain ⟨hquiet, hverbose, hverbosity⟩ := (by decide :
    ∀ g ∈ groupNames, g ≠ "quiet" ∧ g ≠ "verbose" ∧ g ≠ "verbosity") group hgroup
  rw [settled, field?_applySwitch, if_neg hquiet, if_neg fun h => hverbosity h.1,
    field?_applySwitch, if_neg hverbose, if_neg fun h => hverbosity h.1]

/-- The overrides with the switches replaced are a table of known names with the values that the
caller overrides. -/
theorem Overrides.settled_table {o : Overrides} (hkeys : (Value.table o.fields).WellKeyed)
    (hknown : KnownFields ["verbose", "quiet"] o.fields) :
    (Value.table o.settled).WellKeyed ∧ KnownFields [] o.settled ∧
      ∀ p ∈ Settings.places, Source.ofTable o.settled p = o.source p := by
  refine ⟨applySwitch_wellKeyed (applySwitch_wellKeyed hkeys), ?_, fun p hp => ?_⟩
  · exact KnownFields.applySwitch (KnownFields.applySwitch hknown)
  · revert p
    refine Settings.forall_places.2 ⟨fun name hname => ?_, fun name _ => ?_, fun name _ => ?_⟩
    · obtain ⟨hquiet, hverbose⟩ := (by decide :
        ∀ name ∈ Settings.names, name ≠ "quiet" ∧ name ≠ "verbose") name hname
      rw [Source.ofTable, Overrides.settled]
      simp only [field?_applySwitch, if_neg hquiet, if_neg hverbose, source, turnsOn,
        Place.own.injEq, Source.ofTable]
      rfl
    · exact Source.ofTable_congr (o.field?_settled (by decide : "thresholds" ∈ groupNames))
    · exact Source.ofTable_congr (o.field?_settled (by decide : "generator" ∈ groupNames))

/-! ## Settings of all sources -/

theorem Source.settings_congr {s s' : Source} (h : ∀ p ∈ Settings.places, s p = s' p) :
    s.settings = s'.settings := by
  have hvalues (place : String → Place) {names : List String}
      (hplace : ∀ name ∈ names, place name ∈ Settings.places) :
      s.values place names = s'.values place names :=
    List.filterMap_congr fun name hname => by rw [h _ (hplace name hname)]
  unfold settings
  rw [hvalues .own (by decide), hvalues (.inGroup "thresholds") (by decide),
    hvalues (.inGroup "generator") (by decide)]

theorem Source.settings_report {s : Source} {made : Settings} (h : s.settings = .ok made) :
    ∀ p ∈ Settings.places,
      ofTable made.report p = (s p).or (ofTable ({} : Settings).report p) := by
  obtain ⟨t, ht, h⟩ := Outcome.bind_eq_ok.1 h
  obtain ⟨g, hg, h⟩ := Outcome.bind_eq_ok.1 h
  rw [asConfiguration_eq_ok] at ht hg h
  obtain ⟨rfl, rfl⟩ := Settings.groups_of_ofFields h
  refine Settings.forall_places.2 ⟨fun name hname => ?_, fun name hname => ?_, fun name hname => ?_⟩
  · have hreport := Settings.field?_report h hname
    rw [field?_values, if_pos hname] at hreport
    exact hreport
  · have hreport := Thresholds.field?_report ht hname
    rw [field?_values, if_pos hname] at hreport
    exact hreport
  · have hreport := GeneratorSettings.field?_report hg hname
    rw [field?_values, if_pos hname] at hreport
    exact hreport

theorem Source.settings_error {s : Source} {e : Error} (h : s.settings = .error e) :
    ∃ message, e = .failure (.configuration message []) := by
  unfold settings at h
  cases ht : asConfiguration s!"Invalid {Thresholds.group} config"
      (Thresholds.ofFields (s.values (.inGroup "thresholds") Thresholds.names)) with
  | error e' =>
    rw [ht] at h
    cases h
    exact asConfiguration_error (Thresholds.ofFields_unfailing _) ht
  | ok t =>
    rw [ht, Outcome.ok_bind] at h
    cases hg : asConfiguration s!"Invalid {GeneratorSettings.group} config"
        (GeneratorSettings.ofFields (s.values (.inGroup "generator") GeneratorSettings.names)) with
    | error e' =>
      rw [hg] at h
      cases h
      exact asConfiguration_error (GeneratorSettings.ofFields_unfailing _) hg
    | ok g =>
      rw [hg, Outcome.ok_bind] at h
      exact asConfiguration_error (Settings.ofFields_unfailing _ t g) h

theorem Host.readSettings_wellKeyed {h : Host} {label path : String} {fields : NamedValues}
    (hread : h.readSettings label path = .ok fields) : (Value.table fields).WellKeyed := by
  unfold readSettings at hread
  dsimp only at hread
  split at hread
  · cases hread
  · cases hread
  · split at hread
    · cases hread
    · split at hread
      · rename_i hparse
        cases hread
        exact Toml.parse_wellKeyed hparse
      · cases hread
      · cases hread

theorem Host.tableAt_wellKeyed {h : Host} {label path : String} {fields : NamedValues}
    (hread : h.tableAt label path = .ok fields) : (Value.table fields).WellKeyed := by
  obtain ⟨there, -, hread⟩ := Outcome.bind_eq_ok.1 hread
  split at hread
  · exact readSettings_wellKeyed hread
  · cases hread
    exact Value.wellKeyed_empty

theorem Host.namedTable_wellKeyed {h : Host} {file : Option String} {fields : NamedValues}
    (hread : h.namedTable file = .ok fields) : (Value.table fields).WellKeyed := by
  unfold namedTable at hread
  split at hread
  · cases hread
    exact Value.wellKeyed_empty
  · obtain ⟨there, -, hread⟩ := Outcome.bind_eq_ok.1 hread
    split at hread
    · exact readSettings_wellKeyed hread
    · cases hread

/-- The settings are made of the values of the strongest sources that set them, and if they keep
their rules, then every value is that of the strongest source or else the usual one. -/
theorem Host.loadSettings_strongest {h : Host} {file : Option String} {o : Overrides}
    {home work named : NamedValues} (hhome : h.tableAt "global" h.homeSettings = .ok home)
    (hwork : h.tableAt "project" h.workSettings = .ok work) (hnamed : h.namedTable file = .ok named)
    (hparsable : h.Parsable) (hknown : ∀ t ∈ [home, work, named], KnownFields [] t)
    (hkeys : (Value.table o.fields).WellKeyed)
    (hoverrides : KnownFields ["verbose", "quiet"] o.fields)
    (hthresholds : o.thresholds = none) (hgenerator : o.generator = none) :
    let sources := [.ofTable home, .ofTable work, .ofTable named, h.variables, o.source]
    h.loadSettings file o = (Source.strongest sources).settings ∧
      (∀ s, h.loadSettings file o = .ok s → ∀ p ∈ Settings.places,
        Source.ofTable s.report p =
          Source.strongest (.ofTable ({} : Settings).report :: sources) p) ∧
      ∀ e, h.loadSettings file o = .error e →
        ∃ message, e = .failure (.configuration message []) := by
  intro sources
  obtain ⟨env, henv, henvKeys, henvKnown, henvValues⟩ := h.exists_variableSettings hparsable
  obtain ⟨hsettledKeys, hsettledKnown, hsettledValues⟩ := o.settled_table hkeys hoverrides
  have hread : h.readings file o = [home, work, named, env, o.settled].map .ok := by
    rw [readings, hhome, hwork, hnamed, henv]
    rfl
  have htables := loadSettings_tables hread
    (by simp [tableAt_wellKeyed hhome, tableAt_wellKeyed hwork, namedTable_wellKeyed hnamed,
      henvKeys, hsettledKeys])
    (by simpa [henvKnown, hsettledKnown] using hknown) hthresholds hgenerator
  have hload : h.loadSettings file o = (Source.strongest sources).settings := by
    rw [htables]
    refine Source.settings_congr fun p hp => ?_
    simp only [sources, Source.strongest, List.map_cons, List.map_nil, List.filterMap_cons,
      henvValues p hp, hsettledValues p hp]
  refine ⟨hload, fun s hs p hp => ?_, fun e he => ?_⟩
  · rw [hload] at hs
    rw [Source.settings_report hs p hp, ← List.singleton_append, Source.strongest_append,
      Source.strongest_one]
  · rw [hload] at he
    exact Source.settings_error he

/-- Two folders with settings files, another such file, and an environment that sets values. -/
def layeredHost : Host where
  root := .folder
    [("home", .folder [(".coderoast.toml", .file (Text.Utf8.encode
        "max_fixes = 1\n[thresholds]\nlong_function_threshold = 40\n"))]),
     ("work", .folder [
       ("coderoast.toml", .file (Text.Utf8.encode
        "max_fixes = 3\nexclude_dirs = ['a']\n[thresholds]\nduplicate_min_lines = 5\n")),
       ("other.toml", .file (Text.Utf8.encode "[generator]\nmodel = 'm'\napi_key = 'k'\n"))])]
  workdir := "/work"
  home := "/home"
  environment := [("CODEROAST_MAX_FIXES", "4"), ("CODEROAST_GENERATOR_API_KEY", "key")]

/-- Both switches are on, and the verbosity and a threshold are given besides. -/
def layeredOverrides : Overrides where
  fields := [("verbose", .bool true), ("verbosity", .str "normal"), ("quiet", .bool true),
    ("thresholds", .table [("long_function_threshold", .int 30)])]

theorem layeredHost_home : layeredHost.tableAt "global" layeredHost.homeSettings = .ok
    [("max_fixes", .int 1), ("thresholds", .table [("long_function_threshold", .int 40)])] := by
  with_unfolding_all rfl

theorem layeredHost_work : layeredHost.tableAt "project" layeredHost.workSettings = .ok
    [("max_fixes", .int 3), ("exclude_dirs", .list [.str "a"]),
      ("thresholds", .table [("duplicate_min_lines", .int 5)])] := by
  with_unfolding_all rfl

theorem layeredHost_named : layeredHost.namedTable (some "other.toml") = .ok
    [("generator", .table [("model", .str "m"), ("api_key", .str "k")])] := by
  have hpath : String.ofList (Path.tidy "other.toml".toList) = "other.toml" := by decide +kernel
  have hthere : layeredHost.isPresent "other.toml" = .ok true :=
    Outcome.eq_ok_of_toOption (by decide +kernel)
  dsimp only [Host.namedTable]
  rw [hpath, hthere]
  with_unfolding_all rfl

theorem layeredHost_parsable : layeredHost.Parsable := by
  have hread {start : String} {kinds : List (String × VariableKind)}
      (hall : ∀ k ∈ kinds, (layeredHost.environmentValue? (variableName start k.1)).all
        (fun text => (k.2.read text).toOption.isSome) = true) :
      ∀ k ∈ kinds, ∀ text, layeredHost.environmentValue? (variableName start k.1) = some text →
        ∃ v, k.2.read text = .ok v := fun k hk text htext => by
    have hsome := hall k hk
    rw [htext, Option.all_some] at hsome
    cases hv : k.2.read text with
    | error e =>
      rw [hv] at hsome
      cases hsome
    | ok v => exact ⟨v, rfl⟩
  exact ⟨hread (by decide +kernel), hread (by decide +kernel)⟩

theorem layeredOverrides_wellKeyed : (Value.table layeredOverrides.fields).WellKeyed := by
  refine .table (by decide) fun f hf => ?_
  simp only [layeredOverrides, List.mem_cons, List.not_mem_nil, or_false] at hf
  rcases hf with rfl | rfl | rfl | rfl
  · exact .plain rfl
  · exact .plain rfl
  · exact .plain rfl
  · refine .table (by decide) fun e he => ?_
    rw [List.mem_singleton.1 he]
    exact .plain rfl

theorem KnownFields.cons_own {more : List String} {name : String} {v : Value}
    {fields : NamedValues} (hname : name ∈ more ++ Settings.names) (h : KnownFields more fields) :
    KnownFields more ((name, v) :: fields) :=
  List.forall_mem_cons.2 ⟨.inl hname, h⟩

theorem KnownFields.cons_group {more : List String} {g : String × List String} {t : NamedValues}
    {fields : NamedValues} (hg : g ∈ Settings.groups) (ht : ∀ e ∈ t, e.1 ∈ g.2)
    (h : KnownFields more fields) : KnownFields more ((g.1, .table t) :: fields) :=
  List.forall_mem_cons.2 ⟨.inr ⟨g, hg, rfl, t, rfl, ht⟩, h⟩

theorem KnownFields.nil {more : List String} : KnownFields more [] := fun _ h => by cases h

/-- Every value comes from the last source that sets it, also where others set other values of the
same group. -/
theorem Host.loadSettings_strongest_layered : ∃ s,
    layeredHost.loadSettings (some "other.toml") layeredOverrides = .ok s ∧
    [.own "max_fixes", .own "exclude_dirs", .own "verbosity", .own "max_evidence_items",
      .inGroup "thresholds" "long_function_threshold", .inGroup "thresholds" "duplicate_min_lines",
      .inGroup "generator" "model", .inGroup "generator" "api_key"].map (Source.ofTable s.report) =
    [some (.int 4), some (.list [.str "a"]), some (.str "quiet"), some (.int 5),
      some (.int 30), some (.int 5), some (.str "m"), some (.str "key")] := by
  have hthresholds : ("thresholds", Thresholds.names) ∈ Settings.groups := by decide
  have hgenerator : ("generator", GeneratorSettings.names) ∈ Settings.groups := by decide
  obtain ⟨hload, hvalues, -⟩ := loadSettings_strongest (o := layeredOverrides) layeredHost_home
    layeredHost_work layeredHost_named layeredHost_parsable
    (List.forall_mem_cons.2 ⟨.cons_own (by decide) (.cons_group hthresholds (by decide) .nil),
      List.forall_mem_cons.2 ⟨.cons_own (by decide) (.cons_own (by decide)
        (.cons_group hthresholds (by decide) .nil)),
      List.forall_mem_singleton.2 (.cons_group hgenerator (by decide) .nil)⟩⟩)
    layeredOverrides_wellKeyed
    (.cons_own (by decide) (.cons_own (by decide) (.cons_own (by decide)
      (.cons_group hthresholds (by decide) .nil))))
    rfl rfl
  have hsome : (layeredHost.loadSettings (some "other.toml") layeredOverrides).toOption.isSome =
      true := by
    rw [hload]
    decide +kernel
  obtain ⟨s, hs⟩ := Option.isSome_iff_exists.1 hsome
  have hs := Outcome.eq_ok_of_toOption hs
  refine ⟨s, hs, ?_⟩
  rw [List.map_congr_left fun p hp => hvalues s hs p (by revert p; decide)]
  with_unfolding_all rfl

end EvidenceLock
