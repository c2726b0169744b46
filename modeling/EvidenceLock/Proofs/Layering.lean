import EvidenceLock.Proofs.Accepted
import EvidenceLock.Proofs.Readings

/-!
# The last table wins

Where every source gives a table of known names, the settings are made of the values of the last
table that has one (`Host.loadSettings_tables`). The invariant that every assignment keeps is
`Layers.Shows`: what has been laid so far has under every name what the last assignment to it
wrote, key by key for the two groups.
-/

namespace EvidenceLock

/-! ## Sources of values -/

/-- Where a value stands: on its own, or in a group. -/
inductive Place where
  | own (name : String)
  | inGroup (group name : String)
  deriving DecidableEq

/-- The name under which a place is found in a table. -/
def Place.top : Place → String
  | .own name => name
  | .inGroup group _ => group

/-- The values that a source sets. -/
abbrev Source := Place → Option Value

namespace Source

/-- The fields of a table, and the fields of the tables in it. -/
def ofTable (fields : NamedValues) : Source
  | .own name => Value.field? fields name
  | .inGroup group name =>
    match Value.field? fields group with
    | some (.table t) => Value.field? t name
    | _ => none

/-- The value of the last source that sets one. -/
def strongest (sources : List Source) : Source := fun p => (sources.filterMap (· p)).getLast?

/-- The named values that a source sets. -/
def values (s : Source) (place : String → Place) (names : List String) : NamedValues :=
  names.filterMap fun name => (s (place name)).map (name, ·)

/-- The settings that are made of the values of a source. -/
def settings (s : Source) : Outcome Settings := do
  let thresholds ← asConfiguration s!"Invalid {Thresholds.group} config" <|
    Thresholds.ofFields (s.values (.inGroup "thresholds") Thresholds.names)
  let generator ← asConfiguration s!"Invalid {GeneratorSettings.group} config" <|
    GeneratorSettings.ofFields (s.values (.inGroup "generator") GeneratorSettings.names)
  asConfiguration "Invalid configuration" <|
    Settings.ofFields (s.values .own Settings.names) thresholds generator

end Source

/-- The two groups of settings and the names in them. -/
def Settings.groups : List (String × List String) :=
  [("thresholds", Thresholds.names), ("generator", GeneratorSettings.names)]

/-- The places of the settings of a run. -/
def Settings.places : List Place :=
  names.map .own ++ groups.flatMap fun g => g.2.map (.inGroup g.1)

/-- All names are known ones, and groups are tables of known names. -/
def KnownFields (more : List String) (fields : NamedValues) : Prop :=
  ∀ f ∈ fields, f.1 ∈ more ++ Settings.names ∨
    ∃ g ∈ Settings.groups, f.1 = g.1 ∧ ∃ t, f.2 = .table t ∧ ∀ e ∈ t, e.1 ∈ g.2

/-! ## The last source wins -/

namespace Source

theorem strongest_append (ss rs : List Source) (p : Place) :
    strongest (ss ++ rs) p = (strongest rs p).or (strongest ss p) := by
  rw [strongest, List.filterMap_append, List.getLast?_append]
  rfl

theorem strongest_one (s : Source) : strongest [s] = s := by
  funext p
  cases h : s p with
  | none => simp [strongest, h]
  | some v => simp [strongest, h]

/-- Where nothing stands under the name of a place, a table sets nothing there. -/
theorem ofTable_eq_none {fields : NamedValues} {p : Place}
    (h : Value.field? fields p.top = none) : ofTable fields p = none := by
  cases p with
  | own name => exact h
  | inGroup group name =>
    rw [ofTable]
    rw [Place.top] at h
    rw [h]

theorem ofTable_congr {a b : NamedValues} {p : Place}
    (h : Value.field? a p.top = Value.field? b p.top) : ofTable a p = ofTable b p := by
  cases p with
  | own name => exact h
  | inGroup group name =>
    rw [Place.top] at h
    rw [ofTable, ofTable, h]

theorem ofTable_own (name : String) (v : Value) : ofTable [(name, v)] (.own name) = some v := by
  simp [ofTable, Value.field?]

theorem ofTable_group (group name : String) (t : NamedValues) :
    ofTable [(group, .table t)] (.inGroup group name) = Value.field? t name := by
  simp [ofTable, Value.field?]

/-- A table in which no name appears twice is as strong as its fields one after the other. -/
theorem strongest_fields {fields : NamedValues} (h : (fields.map Prod.fst).Nodup) :
    strongest (fields.map fun f => ofTable [f]) = ofTable fields := by
  induction fields with
  | nil =>
    funext p
    exact (ofTable_eq_none rfl).symm
  | cons f fields ih =>
    obtain ⟨hf, hfields⟩ := List.nodup_cons.1 h
    funext p
    rw [List.map_cons, ← List.singleton_append, strongest_append, ih hfields, strongest_one]
    by_cases hp : f.1 = p.top
    · rw [ofTable_eq_none (Value.field?_eq_none_iff.2 (hp ▸ hf)), Option.none_or]
      exact ofTable_congr (by simp [Value.field?, hp])
    · have hnone : ofTable [f] p = none := ofTable_eq_none (by simp [Value.field?, hp])
      rw [hnone, Option.or_none]
      exact ofTable_congr (by simp [Value.field?, hp])

theorem strongest_flatten {tables : List NamedValues}
    (h : ∀ t ∈ tables, (t.map Prod.fst).Nodup) :
    strongest (tables.flatten.map fun f => ofTable [f]) = strongest (tables.map ofTable) := by
  induction tables with
  | nil => rfl
  | cons t tables ih =>
    have hrest := ih fun u hu => h u (List.mem_cons_of_mem _ hu)
    funext p
    rw [List.flatten_cons, List.map_append, strongest_append, hrest,
      strongest_fields (h t List.mem_cons_self), List.map_cons, ← List.singleton_append,
      strongest_append, strongest_one]

end Source

/-! ## What the assignments leave -/

/-- What has been laid shows the values of a source. -/
structure Layers.Shows (l : Layers) (s : Source) : Prop where
  unnamed : l.unnamed = []
  own : ∀ name ∉ groupNames, Value.field? l.fields name = s (.own name)
  group : ∀ g ∈ groupNames,
    (Value.field? l.fields g = none ∧ ∀ name, s (.inGroup g name) = none) ∨
    ∃ t, Value.field? l.fields g = some (.table t) ∧ (t.map Prod.fst).Nodup ∧
      ∀ name, Value.field? t name = s (.inGroup g name)

/-- A group is given a table in which no name appears twice. -/
def Tabled (f : String × Value) : Prop :=
  f.1 ∈ groupNames → ∃ t, f.2 = .table t ∧ (t.map Prod.fst).Nodup

theorem pairsBelow_table (t : NamedValues) :
    pairsBelow (.table t) = .ok (t.map fun (k, w) => (some k, w)) := by
  cases t <;> rfl

theorem filterMap_named (t : NamedValues) :
    (t.map fun (k, w) => (some k, w)).filterMap (fun (k, w) => k.map (·, w)) = t := by
  rw [List.filterMap_map]
  exact List.filterMap_some

theorem any_unnamed (t : NamedValues) : (t.map fun (k, w) => (some k, w)).any
    (fun e : Option String × Value => e.1.isNone) = false := by
  simp

namespace Layers.Shows

variable {l : Layers} {s : Source} (hl : l.Shows s)

include hl

/-- What stands below a group's table can be laid under it. -/
theorem below {g : String} (hg : g ∈ groupNames) :
    ∃ t : NamedValues, (t.map Prod.fst).Nodup ∧
      (∀ name, Value.field? t name = s (.inGroup g name)) ∧
      pairsBelow ((Value.field? l.fields g).getD .null) =
        .ok (t.map fun (k, w) => (some k, w)) := by
  rcases hl.group g hg with ⟨hnone, hunset⟩ | ⟨t, hsome, hnodup, ht⟩
  · refine ⟨[], List.nodup_nil, fun name => (hunset name).symm, ?_⟩
    rw [hnone]
    rfl
  · refine ⟨t, hnodup, ht, ?_⟩
    rw [hsome, Option.getD_some, pairsBelow_table]

/-- An assignment shows its own values, and what was shown before everywhere else. -/
theorem layValue {f : String × Value} (hf : Tabled f) :
    ∃ l', EvidenceLock.layValue l f.1 f.2 = .ok l' ∧
      l'.Shows fun p => (Source.ofTable [f] p).or (s p) := by
  obtain ⟨name, v⟩ := f
  have helse {p : Place} (hp : p.top ≠ name) : Source.ofTable [(name, v)] p = none :=
    Source.ofTable_eq_none (by simp [Value.field?, hp.symm])
  by_cases hname : name ∈ groupNames
  · obtain ⟨t, rfl, hnodup⟩ := hf hname
    obtain ⟨u, hu, hshown, hpairs⟩ := hl.below hname
    refine ⟨_, by rw [layValue_group hname, hpairs, Outcome.ok_bind, filterMap_named,
      any_unnamed], ?_⟩
    have hmerged : ((Keyed.merge (Keyed.merge [] u) t).map Prod.fst).Nodup :=
      Keyed.nodup_keys_merge (Keyed.nodup_keys_merge (m := []) List.nodup_nil u) t
    refine ⟨hl.unnamed, fun k hk => ?_, fun g hg => ?_⟩
    · have hne : k ≠ name := fun h => hk (h ▸ hname)
      rw [field?_insert, if_neg hne, hl.own k hk, helse (p := .own k) hne, Option.none_or]
    · by_cases hgn : g = name
      · subst hgn
        refine .inr ⟨_, by rw [field?_insert, if_pos rfl], hmerged, fun k => ?_⟩
        rw [Value.field?_eq_find?, Keyed.find?_merge _ hnodup, Keyed.find?_merge _ hu,
          ← Value.field?_eq_find?, ← Value.field?_eq_find?, hshown, Keyed.find?_nil,
          Option.or_none, Source.ofTable_group]
      · rw [field?_insert, if_neg hgn]
        simp only [helse (p := .inGroup g _) hgn, Option.none_or]
        exact hl.group g hg
  · refine ⟨_, layValue_other fun h => hname h.1, ?_, fun k hk => ?_, fun g hg => ?_⟩
    · rw [hl.unnamed, List.filter_nil]
    · rw [field?_insert]
      split
      · rename_i heq
        rw [heq, Source.ofTable_own]
        rfl
      · rename_i hne
        rw [hl.own k hk, helse (p := .own k) hne, Option.none_or]
    · have hne : g ≠ name := fun h => hname (h ▸ hg)
      rw [field?_insert, if_neg hne]
      simp only [helse (p := .inGroup g _) hne, Option.none_or]
      exact hl.group g hg

end Layers.Shows

/-- After any assignments, every name shows what the last of them wrote under it. -/
theorem layValues_shows {sets : NamedValues} (h : ∀ f ∈ sets, Tabled f) :
    ∃ l, layValues {} sets = .ok l ∧
      l.Shows (Source.strongest (sets.map fun f => Source.ofTable [f])) := by
  induction sets using List.reverseRecOn with
  | nil =>
    refine ⟨{}, rfl, rfl, fun _ _ => rfl, fun g _ => .inl ⟨rfl, fun _ => rfl⟩⟩
  | append_singleton sets f ih =>
    obtain ⟨name, v⟩ := f
    obtain ⟨l, hl, hshows⟩ := ih fun e he => h e (List.mem_append_left _ he)
    obtain ⟨l', hl', hshows'⟩ := hshows.layValue (h (name, v) (by simp))
    refine ⟨l', ?_, ?_⟩
    · rw [layValues_concat, hl, Outcome.ok_bind, hl']
    · rw [List.map_append]
      have hsource : Source.strongest (sets.map (fun f => Source.ofTable [f]) ++
          [(name, v)].map fun f => Source.ofTable [f]) = fun p => (Source.ofTable [(name, v)] p).or
            (Source.strongest (sets.map fun f => Source.ofTable [f]) p) := by
        funext p
        rw [Source.strongest_append, List.map_cons, List.map_nil, Source.strongest_one]
      rw [hsource]
      exact hshows'

/-! ## Known names -/

theorem Settings.name_ne_group {name group : String} (hname : name ∈ Settings.names)
    (hgroup : group ∈ groupNames) : name ≠ group := by
  rintro rfl
  revert name
  decide

theorem Settings.mem_groupNames {g : String × List String} (hg : g ∈ Settings.groups) :
    g.1 ∈ groupNames := by
  revert g
  decide

theorem Settings.groups_unique {g g' : String × List String} (hg : g ∈ Settings.groups)
    (hg' : g' ∈ Settings.groups) (h : g.1 = g'.1) : g = g' := by
  have hunique : ∀ g ∈ groups, ∀ g' ∈ groups, g.1 = g'.1 → g = g' := by decide
  exact hunique g hg g' hg' h

namespace KnownFields

variable {fields : NamedValues} (h : KnownFields [] fields)

include h

theorem own {name : String} {v : Value} (hname : name ∉ groupNames)
    (hv : Source.ofTable fields (.own name) = some v) : name ∈ Settings.names := by
  rcases h _ (Value.mem_of_field? hv) with hknown | ⟨g, hg, rfl, -⟩
  · exact hknown
  · exact absurd (Settings.mem_groupNames hg) hname

theorem inGroup {g : String × List String} (hg : g ∈ Settings.groups) {name : String} {v : Value}
    (hv : Source.ofTable fields (.inGroup g.1 name) = some v) : name ∈ g.2 := by
  rw [Source.ofTable] at hv
  split at hv
  · rename_i t hfind
    rcases h _ (Value.mem_of_field? hfind) with hknown | ⟨g', hg', hname, u, ht, hu⟩
    · exact absurd rfl (Settings.name_ne_group hknown (Settings.mem_groupNames hg))
    · cases ht
      rw [Settings.groups_unique hg hg' hname]
      exact hu _ (Value.mem_of_field? hv)
  · cases hv

theorem tabled (hkeys : (Value.table fields).WellKeyed) {f : String × Value} (hf : f ∈ fields) :
    Tabled f := by
  intro hgroup
  rcases h f hf with hknown | ⟨g, -, -, t, ht, -⟩
  · exact absurd rfl (Settings.name_ne_group hknown hgroup)
  · refine ⟨t, ht, ?_⟩
    have hwell := (Value.wellKeyed_table.1 hkeys).2 f hf
    rw [ht] at hwell
    exact (Value.wellKeyed_table.1 hwell).1

end KnownFields

/-! ## Settings of tables -/

theorem Source.exists_of_strongest {sources : List Source} {p : Place} {v : Value}
    (h : strongest sources p = some v) : ∃ s ∈ sources, s p = some v :=
  List.mem_filterMap.1 (List.mem_of_getLast? h)

theorem Source.field?_values (s : Source) (place : String → Place) (names : List String)
    (name : String) : Value.field? (s.values place names) name =
      if name ∈ names then s (place name) else none := by
  induction names with
  | nil => rfl
  | cons n names ih =>
    unfold values at ih ⊢
    rw [List.filterMap_cons]
    cases hn : s (place n) with
    | none =>
      rw [Option.map_none, ih]
      by_cases h : name = n
      · simp [h, hn]
      · simp [h]
    | some v =>
      rw [Option.map_some, Value.field?_eq_find?, Keyed.find?_cons, ← Value.field?_eq_find?, ih]
      by_cases h : name = n
      · simp [h, hn]
      · simp [h]

theorem Source.mem_values {s : Source} {place : String → Place} {names : List String} :
    ∀ f ∈ s.values place names, f.1 ∈ names := by
  intro f hf
  obtain ⟨name, hname, hf⟩ := List.mem_filterMap.1 hf
  obtain ⟨v, -, rfl⟩ := Option.map_eq_some_iff.1 hf
  exact hname

/-- What is laid gives a group the values that it shows. -/
theorem Layers.Shows.group_eq {α : Type} {l : Layers} {s : Source} (hl : l.Shows s)
    {g : String × List String} (hg : g ∈ Settings.groups)
    (hnames : ∀ name v, s (.inGroup g.1 name) = some v → name ∈ g.2) (group : String)
    {ofFields : NamedValues → Outcome α} (husual : ∃ a, ofFields [] = .ok a)
    (hcongr : ∀ {a b : NamedValues}, (∀ name, Value.field? a name = Value.field? b name) →
      (∀ f ∈ a, f.1 ∈ g.2) → (∀ f ∈ b, f.1 ∈ g.2) → ofFields a = ofFields b) :
    l.group g.1 group ofFields =
      asConfiguration s!"Invalid {group} config" (ofFields (s.values (.inGroup g.1) g.2)) := by
  have hshown {t : NamedValues} (ht : ∀ name, Value.field? t name = s (.inGroup g.1 name)) :
      ofFields t = ofFields (s.values (.inGroup g.1) g.2) := by
    refine hcongr (fun name => ?_) (fun f hf => ?_) Source.mem_values
    · rw [ht, Source.field?_values]
      split
      · rfl
      · rename_i hunknown
        cases hv : s (.inGroup g.1 name) with
        | none => rfl
        | some v => exact absurd (hnames name v hv) hunknown
    · cases hv : Value.field? t f.1 with
      | none => exact absurd (List.mem_map_of_mem hf) (Value.field?_eq_none_iff.1 hv)
      | some v => exact hnames f.1 v (by rw [← ht, hv])
  rw [Layers.group, hl.unnamed]
  rcases hl.group g.1 (Settings.mem_groupNames hg) with ⟨hnone, hunset⟩ | ⟨t, hsome, -, ht⟩
  · obtain ⟨a, ha⟩ := husual
    rw [hnone, ← hshown (t := []) fun name => (hunset name).symm, ha]
    exact ha
  · rw [hsome, ← hshown ht]
    rfl

theorem field?_filter (fields : NamedValues) (p : String → Bool) (name : String) :
    Value.field? (fields.filter fun f => p f.1) name =
      if p name then Value.field? fields name else none := by
  induction fields with
  | nil => exact (ite_self none).symm
  | cons f fields ih =>
    obtain ⟨l, v⟩ := f
    rw [List.filter_cons]
    rw [Value.field?_eq_find?, Value.field?_eq_find?] at ih ⊢
    by_cases hl : p l
    · rw [if_pos hl, Keyed.find?_cons, Keyed.find?_cons, ih]
      split
      · rename_i hname
        rw [eq_of_beq hname, if_pos hl]
      · rfl
    · rw [if_neg hl, ih, Keyed.find?_cons]
      split
      · rename_i hp
        rw [if_neg]
        rintro hname
        exact hl (eq_of_beq hname ▸ hp)
      · rfl

/-- What is laid gives the settings besides the groups the values that it shows. -/
theorem Layers.Shows.ofFields_eq {l : Layers} {s : Source} (hl : l.Shows s)
    (hnames : ∀ name ∉ groupNames, ∀ v, s (.own name) = some v → name ∈ Settings.names) :
    Settings.ofFields (l.fields.filter fun f => !groupNames.contains f.1) =
      Settings.ofFields (s.values .own Settings.names) := by
  have hown {name : String} (hname : name ∉ groupNames) : Value.field?
      (l.fields.filter fun f => !groupNames.contains f.1) name = s (.own name) := by
    rw [field?_filter l.fields fun n => !groupNames.contains n, if_pos (by simpa using hname),
      hl.own name hname]
  refine Settings.ofFields_congr (fun name => ?_) (fun f hf => ?_) Source.mem_values
  · rw [Source.field?_values]
    by_cases hname : name ∈ groupNames
    · rw [field?_filter l.fields fun n => !groupNames.contains n, if_neg (by simpa using hname),
        if_neg fun h => Settings.name_ne_group h hname rfl]
    · rw [hown hname]
      split
      · rfl
      · rename_i hunknown
        cases hv : s (.own name) with
        | none => rfl
        | some v => exact absurd (hnames name hname v hv) hunknown
  · have hname : f.1 ∉ groupNames := by simpa using (List.mem_filter.1 hf).2
    cases hv : s (.own f.1) with
    | none =>
      rw [← hown hname] at hv
      exact absurd (List.mem_map_of_mem hf) (Value.field?_eq_none_iff.1 hv)
    | some v => exact hnames f.1 hname v hv

/-- Where every source gives a table of known names, the settings are made of the values of the
last table that has one. -/
theorem Host.loadSettings_tables {h : Host} {file : Option String} {o : Overrides}
    {tables : List NamedValues} (hread : h.readings file o = tables.map .ok)
    (hkeys : ∀ t ∈ tables, (Value.table t).WellKeyed) (hknown : ∀ t ∈ tables, KnownFields [] t)
    (hthresholds : o.thresholds = none) (hgenerator : o.generator = none) :
    h.loadSettings file o = (Source.strongest (tables.map Source.ofTable)).settings := by
  have htabled : ∀ f ∈ tables.flatten, Tabled f := fun f hf => by
    obtain ⟨t, ht, hf⟩ := List.mem_flatten.1 hf
    exact (hknown t ht).tabled (hkeys t ht) hf
  obtain ⟨l, hl, hshows⟩ := layValues_shows htabled
  rw [Source.strongest_flatten fun t ht => (Value.wellKeyed_table.1 (hkeys t ht)).1] at hshows
  have hsource {p : Place} {v : Value}
      (hv : Source.strongest (tables.map Source.ofTable) p = some v) :
      ∃ t ∈ tables, Source.ofTable t p = some v := by
    obtain ⟨s, hs, hv⟩ := Source.exists_of_strongest hv
    obtain ⟨t, ht, rfl⟩ := List.mem_map.1 hs
    exact ⟨t, ht, hv⟩
  have hgroup {g : String × List String} (hg : g ∈ Settings.groups) (name : String) (v : Value)
      (hv : Source.strongest (tables.map Source.ofTable) (.inGroup g.1 name) = some v) :
      name ∈ g.2 := by
    obtain ⟨t, ht, hv⟩ := hsource hv
    exact (hknown t ht).inGroup hg hv
  rw [loadSettings, layers_eq, hread, Layers.cover_ok, hl, Outcome.ok_bind, hthresholds,
    hgenerator]
  have hthresholds := hshows.group_eq (g := ("thresholds", Thresholds.names)) (by decide)
    (hgroup (by decide)) Thresholds.group Thresholds.exists_usual Thresholds.ofFields_congr
  have hgenerator := hshows.group_eq (g := ("generator", GeneratorSettings.names)) (by decide)
    (hgroup (by decide)) GeneratorSettings.group GeneratorSettings.exists_usual
    GeneratorSettings.ofFields_congr
  have hown := hshows.ofFields_eq fun name hname v hv => by
    obtain ⟨t, ht, hv⟩ := hsource hv
    exact (hknown t ht).own hname hv
  dsimp only at hthresholds hgenerator ⊢
  rw [hthresholds, hgenerator, hown]
  rfl

end EvidenceLock
