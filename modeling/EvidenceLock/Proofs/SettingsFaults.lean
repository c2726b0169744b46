import EvidenceLock.Proofs.Accepted
import EvidenceLock.Proofs.Collisions
import EvidenceLock.Proofs.Disk
import EvidenceLock.Proofs.Guard

/-!
# Where settings end in a fault

Settings are made or refused with a failure of the settings, but for three things, and each of them
is a fault (`Host.loadSettings_faulty_iff`): the first file that holds no settings is no text, has
an integer with too many digits or cannot be asked for (`Host.Unreadable`); a table for a group is
laid over an earlier value that cannot be laid under one (`Collides`); the value that a group has in
the end is no table and cannot be shown (`Unshown`).
-/

namespace EvidenceLock

/-! ## Sequences of readings -/

/-- What the readings up to the first one without an answer have set. -/
def answered : List (Outcome NamedValues) → NamedValues
  | .ok t :: rest => t ++ answered rest
  | _ => []

/-- The outcome is no answer. -/
def NoAnswer {α : Type} (x : Outcome α) : Prop := ∀ a, x ≠ .ok a

/-- The first reading without an answer is a fault. -/
def Misread (readings : List (Outcome NamedValues)) : Prop :=
  ∃ f, First NoAnswer readings (.error (.fault f))

theorem misread_ok_iff {t : NamedValues} {readings : List (Outcome NamedValues)} :
    Misread (.ok t :: readings) ↔ Misread readings := by
  have hanswer : ¬ NoAnswer (.ok t : Outcome NamedValues) := fun h => h t rfl
  unfold Misread
  simp only [First.cons_iff_of_not hanswer]

theorem misread_error_iff {e : Error} {readings : List (Outcome NamedValues)} :
    Misread (.error e :: readings) ↔ ∃ f, e = .fault f := by
  have hnone : NoAnswer (.error e : Outcome NamedValues) := fun _ => nofun
  unfold Misread
  simp only [First.cons_iff, hnone, true_and, not_true_eq_false, false_and, or_false,
    Except.error.injEq, eq_comm]

theorem layValues_nil (below : Layers) : layValues below [] = .ok below := rfl

theorem layValues_append (below : Layers) (a b : NamedValues) :
    layValues below (a ++ b) = (do layValues (← layValues below a) b) := by
  rw [layValues, List.foldlM_append]
  rfl

/-- Laying all readings is a fault where one of them cannot be read or what was set collides. -/
theorem cover_faulty_iff {sets : NamedValues} {l : Layers} (hl : layValues {} sets = .ok l)
    (readings : List (Outcome NamedValues)) : Faulty (l.cover readings) ↔
      Misread readings ∨ Collides (sets ++ answered readings) := by
  have hfree {sets : NamedValues} {l : Layers} (hl : layValues {} sets = .ok l) :
      ¬ Collides sets := by
    rcases layValues_ok_or_faulty sets with ⟨hnot, -⟩ | ⟨-, hfault⟩
    · exact hnot
    · rw [hl] at hfault
      exact absurd hfault Faulty.not_ok
  -- what was laid so far is one sequence of assignments, which the next source goes on with
  induction readings generalizing sets l with
  | nil =>
    refine iff_of_false Faulty.not_ok (not_or.2 ⟨?_, ?_⟩)
    · rintro ⟨f, hf⟩
      cases hf
    · exact (List.append_nil sets).symm ▸ hfree hl
  | cons r readings ih =>
    rw [Layers.cover_cons]
    cases r with
    | error e =>
      have hsets : ¬ Collides (sets ++ answered (.error e :: readings)) :=
        (List.append_nil sets).symm ▸ hfree hl
      rw [Outcome.error_bind, or_iff_left hsets, misread_error_iff, Faulty]
      simp only [Except.error.injEq]
    | ok t =>
      have hnext : layValues l t = layValues {} (sets ++ t) := by
        rw [layValues_append, hl, Outcome.ok_bind]
      rw [Outcome.ok_bind, hnext, misread_ok_iff, answered, ← List.append_assoc]
      rcases layValues_ok_or_faulty (sets ++ t) with ⟨-, l', hl', -⟩ | ⟨hcollides, hfault⟩
      · rw [hl', Outcome.ok_bind]
        exact ih hl'
      · exact iff_of_true (Faulty.bind_iff.2 (.inl hfault)) (.inr (hcollides.append _))

/-! ## Files -/

namespace Host

variable (h : Host)

/-- There is no file, or one that holds settings. -/
def Legible (path : String) : Prop :=
  h.isPresent path = .ok false ∨ ∃ bytes text fields, h.readBytes path = .ok bytes ∧
    Text.Utf8.decodeStrict bytes = .ok text ∧ Toml.parse text = .ok fields

/-- The file is no text, or has an integer with too many digits; or a name on its path is too long
to be looked up. -/
def Undecodable (path : String) : Prop :=
  h.Overlong path ∨ ∃ bytes, h.readBytes path = .ok bytes ∧
    ((∃ message, Text.Utf8.decodeStrict bytes = .error message) ∨
      ∃ text n, Text.Utf8.decodeStrict bytes = .ok text ∧ Toml.parse text = .error (.tooLong n))

/-- The files of settings, from the weakest to the strongest. -/
def settingFiles (file : Option String) : List String :=
  [h.homeSettings, h.workSettings] ++
    (file.map fun path => String.ofList (Path.tidy path.toList)).toList

/-- The first file that holds no settings is no text, has an integer with too many digits or cannot
be asked for. -/
def Unreadable (paths : List String) : Prop :=
  ∃ path, First (fun p => ¬ h.Legible p) paths path ∧ h.Undecodable path

variable {h} {path : String}

/-- A file that is read is there. -/
theorem isPresent_of_readBytes {bytes : List Nat} (hread : h.readBytes path = .ok bytes) :
    h.isPresent path = .ok true := by
  unfold readBytes at hread
  unfold isPresent
  cases hfind : h.find path with
  | error e =>
    rw [hfind] at hread
    cases hread
  | ok e => rfl

theorem not_legible_of_overlong (hlong : h.Overlong path) : ¬ h.Legible path := by
  rintro (habsent | ⟨bytes, -, -, hread, -⟩)
  · exact not_overlong habsent hlong
  · exact not_overlong (isPresent_of_readBytes hread) hlong

theorem not_undecodable (habsent : h.isPresent path = .ok false) : ¬ h.Undecodable path := by
  rintro (hlong | ⟨bytes, hread, -⟩)
  · exact not_overlong habsent hlong
  · rw [isPresent_of_readBytes hread] at habsent
    cases habsent

theorem unreadable_cons_iff {paths : List String} : h.Unreadable (path :: paths) ↔
    (¬ h.Legible path ∧ h.Undecodable path) ∨ (h.Legible path ∧ h.Unreadable paths) := by
  unfold Unreadable
  simp only [First.cons_iff, not_not]
  constructor
  · rintro ⟨p, ⟨hp, rfl⟩ | ⟨hp, hfirst⟩, hundecodable⟩
    · exact .inl ⟨hp, hundecodable⟩
    · exact .inr ⟨hp, p, hfirst, hundecodable⟩
  · rintro (⟨hp, hundecodable⟩ | ⟨hp, p, hfirst, hundecodable⟩)
    · exact ⟨path, .inl ⟨hp, rfl⟩, hundecodable⟩
    · exact ⟨p, .inr ⟨hp, hfirst⟩, hundecodable⟩

theorem not_unreadable_nil : ¬ h.Unreadable [] := by
  rintro ⟨p, hfirst, -⟩
  cases hfirst

/-- A reading is that of a file before others: of settings, of what cannot be decoded, or of
neither, and then the others do not count. -/
inductive Reads (h : Host) (path : String) (paths : List String) : Outcome NamedValues → Prop
  | settings (hlegible : h.Legible path) (t : NamedValues) : Reads h path paths (.ok t)
  | undecodable (hnot : ¬ h.Legible path) (hundecodable : h.Undecodable path) (f : Fault) :
    Reads h path paths (.error (.fault f))
  | failure (hdecodable : ¬ h.Undecodable path) (hlast : h.Legible path → ¬ h.Unreadable paths)
    (f : Failure) : Reads h path paths (.error (.failure f))

/-- Where a reading is that of a file, the file decides about the readings from it on. -/
theorem misread_cons_iff {r : Outcome NamedValues} {readings : List (Outcome NamedValues)}
    {paths : List String} (hr : h.Reads path paths r)
    (hrest : Misread readings ↔ h.Unreadable paths) :
    Misread (r :: readings) ↔ h.Unreadable (path :: paths) := by
  rw [unreadable_cons_iff, ← hrest]
  cases hr with
  | settings hlegible t =>
    rw [misread_ok_iff]
    simp [hlegible]
  | undecodable hnot hundecodable f =>
    rw [misread_error_iff]
    exact iff_of_true ⟨f, rfl⟩ (.inl ⟨hnot, hundecodable⟩)
  | failure hdecodable hlast f =>
    rw [misread_error_iff]
    refine iff_of_false ?_ ?_
    · rintro ⟨g, hg⟩
      cases hg
    · rintro (h | h)
      · exact hdecodable h.2
      · exact hlast h.1 (hrest.1 h.2)

/-- The reading of a file that is there. -/
theorem readSettings_reads (hthere : h.isPresent path = .ok true) (label : String)
    (paths : List String) : h.Reads path paths (h.readSettings label path) := by
  have hclean : h.readBytes path ≠ .error .nullCharacter := by
    intro hnull
    rw [isPresent_of_null (readBytes_eq_null.1 hnull)] at hthere
    cases hthere
  unfold readSettings
  dsimp only
  cases hbytes : h.readBytes path with
  | error e =>
    have hnot : ¬ h.Undecodable path := by simp [Undecodable, hbytes, not_overlong hthere]
    have hlast : h.Legible path → ¬ h.Unreadable paths := by simp [Legible, hthere, hbytes]
    cases e with
    | nullCharacter => exact absurd hbytes hclean
    | missing | notFolder | isFolder | nameTooLong => exact .failure hnot hlast _
  | ok bytes =>
    dsimp only
    cases htext : Text.Utf8.decodeStrict bytes with
    | error message =>
      exact .undecodable (by simp [Legible, hthere, hbytes, htext])
        (.inr ⟨bytes, hbytes, .inl ⟨message, htext⟩⟩) _
    | ok text =>
      dsimp only
      cases hfields : Toml.parse text with
      | ok fields => exact .settings (.inr ⟨bytes, text, fields, hbytes, htext, hfields⟩) fields
      | error flaw =>
        have hnot : ¬ h.Legible path := by simp [Legible, hthere, hbytes, htext, hfields]
        cases flaw with
        | malformed =>
          have hundecodable : ¬ h.Undecodable path := by
            simp [Undecodable, hbytes, htext, hfields, not_overlong hthere]
          exact .failure hundecodable (absurd · hnot) _
        | tooLong n =>
          exact .undecodable hnot (.inr ⟨bytes, hbytes, .inr ⟨text, n, htext, hfields⟩⟩) _

/-- The reading of a file wherever it is: where whether it is there cannot be told, where it is
there, and `otherwise`. -/
theorem reads_of_isPresent {label : String} {paths : List String} {otherwise : Outcome NamedValues}
    (hotherwise : h.isPresent path = .ok false → h.Reads path paths otherwise) :
    h.Reads path paths
      (do if ← h.isPresent path then h.readSettings label path else otherwise) := by
  by_cases hlong : h.Overlong path
  · rw [isPresent_of_overlong hlong]
    exact .undecodable (not_legible_of_overlong hlong) (.inl hlong) _
  · obtain ⟨there, hthere⟩ := isPresent_of_not_overlong hlong
    rw [hthere, Outcome.ok_bind]
    cases there with
    | true => exact readSettings_reads hthere label paths
    | false => exact hotherwise hthere

theorem misread_tableAt_iff {label : String} {readings : List (Outcome NamedValues)}
    {paths : List String} (hrest : Misread readings ↔ h.Unreadable paths) :
    Misread (h.tableAt label path :: readings) ↔ h.Unreadable (path :: paths) :=
  misread_cons_iff (reads_of_isPresent fun habsent => .settings (.inl habsent) []) hrest

theorem variableSettings_faultless : Faultless h.variableSettings := by
  have hvariables (start : String) (kinds : List (String × VariableKind)) :
      Faultless (variablesOf h.environmentValue? start kinds) := by
    refine .foldlM (fun found k _ => ?_) []
    obtain ⟨name, kind⟩ := k
    dsimp only
    split
    · exact .ok found
    · split
      · exact .ok _
      · exact .fail _
  exact (hvariables _ _).bind fun _ _ => (hvariables _ _).bind fun _ _ => .ok _

/-- A reading is a fault exactly where a file cannot be decoded. -/
theorem misread_readings_iff (file : Option String) (o : Overrides) :
    Misread (h.readings file o) ↔ h.Unreadable (h.settingFiles file) := by
  have hlast : ¬ Misread [h.variableSettings, .ok o.settled] := by
    rintro ⟨f, hf⟩
    have hmem := hf.mem
    simp only [List.mem_cons, List.not_mem_nil, or_false, reduceCtorEq] at hmem
    exact variableSettings_faultless f hmem.symm
  refine misread_tableAt_iff (misread_tableAt_iff ?_)
  unfold namedTable
  cases file with
  | none =>
    dsimp only
    rw [misread_ok_iff]
    exact iff_of_false hlast not_unreadable_nil
  | some path =>
    refine misread_cons_iff ?_ (iff_of_false hlast not_unreadable_nil)
    exact reads_of_isPresent fun habsent =>
      .failure (not_undecodable habsent) (fun _ => not_unreadable_nil) _

end Host

/-! ## Failures -/

/-- The failure is one of the settings. -/
def Failure.OfSettings (f : Failure) : Prop :=
  f.name = "ConfigurationError" ∨ "ConfigurationError" ∈ f.broader

theorem Failure.ofSettings_configuration (message : String) (details : List (String × Value)) :
    (Failure.configuration message details).OfSettings := .inl rfl

theorem Failure.ofSettings_invalidSetting (key : String) (v : Value) (reason : String) :
    (Failure.invalidSetting key v reason).OfSettings := .inr List.mem_cons_self

theorem asConfiguration_failures {α : Type} {start : String} {x : Outcome α} (hx : Unfailing x) :
    FailuresIn Failure.OfSettings (asConfiguration start x) :=
  ⟨fun f hf => by
    obtain ⟨message, h⟩ := asConfiguration_error hx hf
    cases h
    exact Failure.ofSettings_configuration message []⟩

theorem layValues_unfailing (below : Layers) (above : NamedValues) :
    Unfailing (layValues below above) := by
  refine .foldlM (fun l f _ => ?_) below
  obtain ⟨name, v⟩ := f
  by_cases hregroups : Regroups name v
  · obtain ⟨hname, t, rfl⟩ := hregroups
    dsimp only
    rw [layValue_group hname]
    refine .bind ⟨fun f hf => ?_⟩ fun _ => .ok _
    rcases pairsBelow_ok_or_faulty ((Value.field? l.fields name).getD .null) with
      ⟨-, _, hok⟩ | ⟨-, _, hfault⟩
    · rw [hok] at hf
      cases hf
    · rw [hfault] at hf
      cases hf
  · dsimp only
    rw [layValue_other hregroups]
    exact .ok _

namespace Host

variable (h : Host)

theorem readSettings_failures (label path : String) :
    FailuresIn Failure.OfSettings (h.readSettings label path) := by
  unfold readSettings
  dsimp only
  split
  · exact .misuse _ _
  · exact .fail (.inl rfl)
  · split
    · exact .misuse _ _
    · split
      · exact .ok _
      · exact .fail (.inl rfl)
      · exact .misuse _ _

theorem isPresent_failures (path : String) :
    FailuresIn Failure.OfSettings (h.isPresent path) := by
  unfold isPresent
  split
  · exact .ok _
  · exact .misuse _ _
  · exact .ok _

theorem variableSettings_failures : FailuresIn Failure.OfSettings h.variableSettings := by
  have hvariables (start : String) (kinds : List (String × VariableKind)) :
      FailuresIn Failure.OfSettings (variablesOf h.environmentValue? start kinds) := by
    refine .foldlM (fun found k _ => ?_) []
    obtain ⟨name, kind⟩ := k
    dsimp only
    split
    · exact .ok found
    · split
      · exact .ok _
      · exact .fail (Failure.ofSettings_invalidSetting _ _ _)
  exact .bind (hvariables _ _) fun _ => .bind (hvariables _ _) fun _ => .ok _

theorem readings_failures (file : Option String) (o : Overrides) :
    ∀ r ∈ h.readings file o, FailuresIn Failure.OfSettings r := by
  have htable (label path : String) :
      FailuresIn Failure.OfSettings (h.tableAt label path) := by
    refine (h.isPresent_failures path).bind fun there => ?_
    split
    · exact h.readSettings_failures label path
    · exact .ok []
  have hnamed : FailuresIn Failure.OfSettings (h.namedTable file) := by
    unfold namedTable
    split
    · exact .ok []
    · refine (h.isPresent_failures _).bind fun there => ?_
      split
      · exact h.readSettings_failures _ _
      · exact .fail (.inl rfl)
  simp only [readings, List.forall_mem_cons]
  exact ⟨htable _ _, htable _ _, hnamed, h.variableSettings_failures, .ok _, List.forall_mem_nil _⟩

end Host

theorem Layers.group_failures {α : Type} (l : Layers) (name group : String)
    {ofFields : NamedValues → Outcome α} (h : ∀ fields, Unfailing (ofFields fields)) :
    FailuresIn Failure.OfSettings (l.group name group ofFields) := by
  unfold Layers.group groupOf
  split
  · exact (h []).mono fun _ hf => hf.elim
  · refine asConfiguration_failures ?_
    split
    · exact .misuse _ _
    · exact h _
  · split
    · exact .fail (Failure.ofSettings_invalidSetting _ _ _)
    · exact .misuse _ _

/-! ## Groups -/

/-- An integer in the value has too many digits to be written. -/
inductive Value.HoldsOverlong : Value → Prop
  | int {i : Int} (h : Decimal.writable i = false) : HoldsOverlong (.int i)
  | item {items : List Value} {v : Value} (hv : v ∈ items) (h : v.HoldsOverlong) :
    HoldsOverlong (.list items)
  | field {fields : List (String × Value)} {f : String × Value} (hf : f ∈ fields)
    (h : f.2.HoldsOverlong) : HoldsOverlong (.table fields)

mutual

theorem Value.showable_eq_false_iff : (v : Value) → (v.showable = false ↔ v.HoldsOverlong)
  | .null | .bool _ | .float _ | .str _ | .moment _ => iff_of_false nofun nofun
  | .int i => ⟨fun h => .int h, fun h => by cases h; assumption⟩
  | .list items => by
    rw [Value.showable, itemsShowable_eq_false_iff items]
    exact ⟨fun ⟨v, hv, h⟩ => .item hv h, fun h => by cases h with | item hv h => exact ⟨_, hv, h⟩⟩
  | .table fields => by
    rw [Value.showable, fieldsShowable_eq_false_iff fields]
    exact ⟨fun ⟨f, hf, h⟩ => .field hf h, fun h => by cases h with | field hf h => exact ⟨_, hf, h⟩⟩

theorem itemsShowable_eq_false_iff :
    (items : List Value) → (itemsShowable items = false ↔ ∃ v ∈ items, v.HoldsOverlong)
  | [] => iff_of_false nofun nofun
  | v :: rest => by
    rw [itemsShowable, Bool.and_eq_false_iff, Value.showable_eq_false_iff v,
      itemsShowable_eq_false_iff rest, List.exists_mem_cons_iff]

theorem fieldsShowable_eq_false_iff : (fields : List (String × Value)) →
    (fieldsShowable fields = false ↔ ∃ f ∈ fields, f.2.HoldsOverlong)
  | [] => iff_of_false nofun nofun
  | (k, v) :: rest => by
    rw [fieldsShowable, Bool.and_eq_false_iff, Value.showable_eq_false_iff v,
      fieldsShowable_eq_false_iff rest, List.exists_mem_cons_iff]

end

/-- What a name has in the end is no table, and an integer in it has too many digits. -/
def Unshown (sets : NamedValues) (name : String) : Prop :=
  ∃ v, lastSet sets name = some v ∧ (∀ t, v ≠ .table t) ∧ v.HoldsOverlong

theorem asConfiguration_faultless {α : Type} (start : String) (x : Outcome α) :
    ¬ Faulty (asConfiguration start x) := by
  rintro ⟨f, hf⟩
  unfold asConfiguration at hf
  split at hf
  · cases hf
  · rename_i hfault
    exact hfault f hf

theorem Layers.Has.group_faulty_iff {α : Type} {l : Layers} {sets : NamedValues} (hl : l.Has sets)
    {name : String} (hname : name ∈ groupNames) (group : String)
    {ofFields : NamedValues → Outcome α} (husual : ∃ a, ofFields [] = .ok a) :
    Faulty (l.group name group ofFields) ↔ Unshown sets name := by
  have hgroup (v : Value) : Faulty (groupOf group ofFields (l.unnamed.contains name) v) ↔
      (∀ t, v ≠ .table t) ∧ v.HoldsOverlong := by
    obtain ⟨a, ha⟩ := husual
    unfold groupOf
    split
    · rw [ha]
      exact iff_of_false Faulty.not_ok nofun
    · exact iff_of_false (asConfiguration_faultless _ _) fun h => h.1 _ rfl
    · rename_i hnull htable
      rw [← Value.showable_eq_false_iff, and_iff_right (a := ∀ t, v ≠ .table t) htable]
      by_cases hshown : v.showable = true
      · rw [if_pos hshown]
        exact iff_of_false Faulty.not_fail (by simp [hshown])
      · rw [if_neg hshown]
        exact iff_of_true .misuse (by simpa using hshown)
  have hlast : Unshown sets name ↔ ∃ v, Value.field? l.fields name = some v ∧ (∀ t, v ≠ .table t) ∧
      v.HoldsOverlong := by
    unfold Unshown
    rcases hl name hname with hsame | ⟨t, u, hlast, hfield⟩
    · rw [hsame]
    · rw [hlast, hfield]
      simp
  rw [Layers.group, hgroup, hlast]
  cases Value.field? l.fields name with
  | none =>
    refine iff_of_false ?_ nofun
    rintro ⟨-, h⟩
    cases h
  | some v => simp

/-! ## All sources together -/

theorem Layers.exists_of_cover {sets : NamedValues} {l l' : Layers}
    (hl : layValues {} sets = .ok l) {readings : List (Outcome NamedValues)}
    (hcover : l.cover readings = .ok l') : (∀ r ∈ readings, ∃ t, r = .ok t) ∧
      layValues {} (sets ++ answered readings) = .ok l' := by
  induction readings generalizing sets l with
  | nil =>
    cases hcover
    exact ⟨List.forall_mem_nil _, (List.append_nil sets).symm ▸ hl⟩
  | cons r readings ih =>
    rw [cover_cons] at hcover
    obtain ⟨t, rfl, hlay⟩ := Outcome.bind_eq_ok.1 hcover
    obtain ⟨m, hm, hrest⟩ := Outcome.bind_eq_ok.1 hlay
    have hnext : layValues {} (sets ++ t) = .ok m := by
      rw [layValues_append, hl, Outcome.ok_bind, hm]
    obtain ⟨hall, hlaid⟩ := ih hnext hrest
    refine ⟨List.forall_mem_cons.2 ⟨⟨t, rfl⟩, hall⟩, ?_⟩
    rw [answered, ← List.append_assoc]
    exact hlaid

/-- The thresholds that were given, or those made of named values. -/
def Layers.thresholds (l : Layers) (o : Overrides) : Outcome Thresholds :=
  match o.thresholds with
  | some t => .ok t
  | none => l.group "thresholds" Thresholds.group Thresholds.ofFields

/-- The settings of the generator that were given, or those made of named values. -/
def Layers.generator (l : Layers) (o : Overrides) : Outcome GeneratorSettings :=
  match o.generator with
  | some g => .ok g
  | none => l.group "generator" GeneratorSettings.group GeneratorSettings.ofFields

section
variable {l : Layers} {sets : NamedValues} (hl : l.Has sets) (o : Overrides)

include hl

theorem Layers.Has.thresholds_faulty_iff :
    Faulty (l.thresholds o) ↔ o.thresholds = none ∧ Unshown sets "thresholds" := by
  unfold Layers.thresholds
  cases o.thresholds with
  | some t => exact iff_of_false Faulty.not_ok nofun
  | none =>
    have hname : "thresholds" ∈ groupNames := by decide
    simp [hl.group_faulty_iff hname _ Thresholds.exists_usual]

theorem Layers.Has.generator_faulty_iff :
    Faulty (l.generator o) ↔ o.generator = none ∧ Unshown sets "generator" := by
  unfold Layers.generator
  cases o.generator with
  | some g => exact iff_of_false Faulty.not_ok nofun
  | none =>
    have hname : "generator" ∈ groupNames := by decide
    simp [hl.group_faulty_iff hname _ GeneratorSettings.exists_usual]

end

namespace Host

variable (h : Host) (file : Option String) (o : Overrides)

/-- What the sources set, up to the first one that cannot be read. -/
def assignments : NamedValues := answered (h.readings file o)

/-- The value of a group that is made of named values cannot be shown. The thresholds are made
first. -/
def Unshowable : Prop :=
  (∀ r ∈ h.readings file o, ∃ t, r = .ok t) ∧
    ((o.thresholds = none ∧ Unshown (h.assignments file o) "thresholds") ∨
      (o.generator = none ∧ Unshown (h.assignments file o) "generator" ∧
        ∃ l t, h.layers file o = .ok l ∧ l.thresholds o = .ok t))

theorem loadSettings_eq : h.loadSettings file o = (do
    let l ← h.layers file o
    let t ← l.thresholds o
    let g ← l.generator o
    asConfiguration "Invalid configuration" <|
      Settings.ofFields (l.fields.filter fun f => !groupNames.contains f.1) t g) := by
  unfold loadSettings Layers.thresholds Layers.generator
  cases o.thresholds <;> cases o.generator <;> rfl

theorem layers_faulty_iff : Faulty (h.layers file o) ↔
    h.Unreadable (h.settingFiles file) ∨ Collides (h.assignments file o) := by
  rw [layers_eq, cover_faulty_iff (layValues_nil {}), misread_readings_iff, List.nil_append,
    assignments]

theorem layers_has {l : Layers} (hl : h.layers file o = .ok l) :
    (∀ r ∈ h.readings file o, ∃ t, r = .ok t) ∧ l.Has (h.assignments file o) := by
  rw [layers_eq] at hl
  obtain ⟨hall, hlaid⟩ := Layers.exists_of_cover (layValues_nil {}) hl
  refine ⟨hall, ?_⟩
  rw [List.nil_append] at hlaid
  rcases layValues_ok_or_faulty (h.assignments file o) with ⟨-, m, hm, hhas⟩ | ⟨-, hfault⟩
  · rw [assignments, hlaid] at hm
    cases hm
    exact hhas
  · rw [assignments, hlaid] at hfault
    exact absurd hfault Faulty.not_ok

theorem layers_failures : FailuresIn Failure.OfSettings (h.layers file o) := by
  rw [layers_eq]
  refine .foldlM (fun l r hr => .bind (h.readings_failures file o r hr) fun t => ?_) _
  exact (layValues_unfailing l t).mono fun _ hf => hf.elim

theorem exists_layers (hall : ∀ r ∈ h.readings file o, ∃ t, r = .ok t)
    (hfree : ¬ Faulty (h.layers file o)) : ∃ l, h.layers file o = .ok l := by
  have hunfailing : Unfailing (h.layers file o) := by
    rw [layers_eq]
    refine .foldlM (fun l r hr => .bind ?_ fun t => layValues_unfailing l t) _
    obtain ⟨t, rfl⟩ := hall r hr
    exact .ok t
  cases hl : h.layers file o with
  | ok l => exact ⟨l, rfl⟩
  | error e =>
    cases e with
    | failure f => exact (hunfailing.of_failure f hl).elim
    | fault f => exact absurd ⟨f, hl⟩ hfree

/-- Settings end in a fault exactly where a file cannot be decoded, what the sources set collides,
or the value of a group cannot be shown, and where they fail, it is a failure of the settings. -/
theorem loadSettings_faulty_iff :
    (Faulty (h.loadSettings file o) ↔ h.Unreadable (h.settingFiles file) ∨
      Collides (h.assignments file o) ∨ h.Unshowable file o) ∧
    FailuresIn Failure.OfSettings (h.loadSettings file o) := by
  rw [loadSettings_eq]
  constructor
  · rw [← or_assoc, ← layers_faulty_iff, Faulty.bind_iff]
    refine or_congr_right' fun hfree => ?_
    constructor
    · rintro ⟨l, hl, hfault⟩
      obtain ⟨hall, hhas⟩ := h.layers_has file o hl
      refine ⟨hall, ?_⟩
      rcases Faulty.bind_iff.1 hfault with hthresholds | ⟨t, ht, hfault⟩
      · exact .inl ((hhas.thresholds_faulty_iff o).1 hthresholds)
      · rcases Faulty.bind_iff.1 hfault with hgenerator | ⟨g, -, hfault⟩
        · obtain ⟨hnone, hunshown⟩ := (hhas.generator_faulty_iff o).1 hgenerator
          exact .inr ⟨hnone, hunshown, l, t, hl, ht⟩
        · exact absurd hfault (asConfiguration_faultless _ _)
    · rintro ⟨hall, hunshown⟩
      obtain ⟨l, hl⟩ := h.exists_layers file o hall hfree
      obtain ⟨-, hhas⟩ := h.layers_has file o hl
      refine ⟨l, hl, ?_⟩
      rcases hunshown with hthresholds | ⟨hnone, hgenerator, l', t, hl', ht⟩
      · exact Faulty.bind_iff.2 (.inl ((hhas.thresholds_faulty_iff o).2 hthresholds))
      · rw [hl] at hl'
        cases hl'
        refine Faulty.bind_iff.2 (.inr ⟨t, ht, Faulty.bind_iff.2 (.inl ?_)⟩)
        exact (hhas.generator_faulty_iff o).2 ⟨hnone, hgenerator⟩
  · refine (h.layers_failures file o).bind fun l => .bind ?_ fun t => .bind ?_ fun g => ?_
    · unfold Layers.thresholds
      split
      · exact .ok _
      · exact l.group_failures _ _ Thresholds.ofFields_unfailing
    · unfold Layers.generator
      split
      · exact .ok _
      · exact l.group_failures _ _ GeneratorSettings.ofFields_unfailing
    · exact asConfiguration_failures (Settings.ofFields_unfailing _ t g)

end Host

/-- A working folder with these bytes for its settings file. -/
def settingsHost (bytes : List Nat) (environment : List (String × String)) : Host where
  root := .folder [("work", .folder [("coderoast.toml", .file bytes)]), ("home", .folder [])]
  workdir := "/work"
  home := "/home"
  environment

/-- A byte that is no text, and a number under the settings of the generator that the environment
sets, are no failures of the settings. -/
theorem Host.loadSettings_stray :
    (settingsHost [0xFF] []).loadSettings none {} =
      misuse .encoding "'utf-8' codec can't decode byte 0xff in position 0: invalid start byte" ∧
    (settingsHost (Text.Utf8.encode "generator = 3\n")
        [("CODEROAST_GENERATOR_API_KEY", "key")]).loadSettings none {} =
      misuse .type "'int' object is not iterable" := by
  constructor
  · with_unfolding_all rfl
  · with_unfolding_all rfl

end EvidenceLock
