import EvidenceLock.Proofs.DistinctKeys
import EvidenceLock.Proofs.Keyed
import EvidenceLock.Proofs.Outcome
import EvidenceLock.Settings.Load

/-!
# Settings as layers of assignments

Every source is read into named values (`Host.readings`), and all of these are laid over each other
in one order (`Host.layers_eq`): what the sources set is one sequence of assignments, each laid over
what those before it have left (`Layers.cover_ok`). An assignment either writes its value, or lays
the fields of its table over the earlier value of a group (`layValue_group`, `layValue_other`).
-/

namespace EvidenceLock

theorem Value.field?_eq_find? (fields : NamedValues) (k : String) :
    Value.field? fields k = Keyed.find? fields k := by
  induction fields with
  | nil => rfl
  | cons f fields ih =>
    obtain ⟨l, v⟩ := f
    rw [Keyed.find?_cons, ← ih, Value.field?, Value.field?, List.find?_cons, BEq.comm]
    cases k == l <;> rfl

theorem field?_insert (fields : NamedValues) (name : String) (v : Value) (k : String) :
    Value.field? (Keyed.insert fields name v) k =
      if k = name then some v else Value.field? fields k := by
  rw [Value.field?_eq_find?, Value.field?_eq_find?, Keyed.find?_insert]
  simp only [beq_iff_eq]

/-! ## Assignments -/

/-- The value is a table for one of the two groups. -/
def Regroups (name : String) (v : Value) : Prop := name ∈ groupNames ∧ ∃ t, v = .table t

section
variable {below : Layers} {name : String}

theorem layValue_group (hname : name ∈ groupNames) (t : NamedValues) :
    layValue below name (.table t) = (do
      let pairs ← pairsBelow ((Value.field? below.fields name).getD .null)
      .ok {
        fields := Keyed.insert below.fields name
          (.table (Keyed.merge (Keyed.merge [] (pairs.filterMap fun (k, w) => k.map (·, w))) t))
        unnamed := if pairs.any (·.1.isNone) then name :: below.unnamed else below.unnamed }) := by
  have hcontains : groupNames.contains name = true := List.contains_iff_mem.2 hname
  unfold layValue
  rw [hcontains]

theorem layValue_other {v : Value} (h : ¬ Regroups name v) : layValue below name v = .ok {
    fields := Keyed.insert below.fields name v
    unnamed := below.unnamed.filter (· != name) } := by
  unfold layValue
  split
  · rename_i t hname
    exact absurd ⟨List.contains_iff_mem.1 hname, t, rfl⟩ h
  · rfl

end

theorem layValues_concat (below : Layers) (sets : NamedValues) (name : String) (v : Value) :
    layValues below (sets ++ [(name, v)]) =
      (do layValue (← layValues below sets) name v) := by
  rw [layValues, List.foldlM_append]
  exact bind_congr fun l => bind_pure (layValue l name v)

/-! ## Sources -/

/-- The table of a settings file, which is empty where there is no file. -/
def Host.tableAt (h : Host) (label path : String) : Outcome NamedValues := do
  if ← h.isPresent path then h.readSettings label path else .ok []

/-- The table of the file that is named, if one is. -/
def Host.namedTable (h : Host) (file : Option String) : Outcome NamedValues :=
  match file with
  | none => .ok []
  | some path => do
    let path := String.ofList (Path.tidy path.toList)
    if ← h.isPresent path then h.readSettings "explicit" path
    else fail (.configuration s!"Config file not found: {path}" [])

/-- What the sources set, from the weakest to the strongest. -/
def Host.readings (h : Host) (file : Option String) (o : Overrides) : List (Outcome NamedValues) :=
  [h.tableAt "global" h.homeSettings, h.tableAt "project" h.workSettings, h.namedTable file,
   h.variableSettings, .ok o.settled]

/-- Named values laid over others, source after source. -/
def Layers.cover (below : Layers) (readings : List (Outcome NamedValues)) : Outcome Layers :=
  readings.foldlM (fun below reading => do layValues below (← reading)) below

theorem Layers.cover_cons (below : Layers) (r : Outcome NamedValues)
    (rs : List (Outcome NamedValues)) :
    below.cover (r :: rs) = (do
      let values ← r
      let l ← layValues below values
      l.cover rs) := by
  rw [cover, List.foldlM_cons, bind_assoc]
  rfl

section
variable {readings : List (Outcome NamedValues)} {rest : Layers → Outcome Layers}

theorem Layers.cover_tableAt (h : Host) (label path : String)
    (hrest : ∀ l : Layers, l.cover readings = rest l) (below : Layers) :
    below.cover (h.tableAt label path :: readings) = (do
      let below ← if ← h.isPresent path then h.layFile below label path else .ok below
      rest below) := by
  rw [cover_cons]
  simp only [hrest]
  unfold Host.tableAt
  rw [bind_assoc]
  refine bind_congr fun there => ?_
  cases there with
  | true => exact (bind_assoc ..).symm
  | false => rfl

theorem Layers.cover_namedTable (h : Host) (file : Option String)
    (hrest : ∀ l : Layers, l.cover readings = rest l) (below : Layers) :
    below.cover (h.namedTable file :: readings) = (do
      let below ←
        match file with
        | none => .ok below
        | some path => do
          let path := String.ofList (Path.tidy path.toList)
          if ← h.isPresent path then h.layFile below "explicit" path
          else fail (.configuration s!"Config file not found: {path}" [])
      rest below) := by
  rw [cover_cons]
  simp only [hrest]
  unfold Host.namedTable
  cases file with
  | none => rfl
  | some path =>
    dsimp only
    rw [bind_assoc]
    refine bind_congr fun there => ?_
    cases there with
    | true => exact (bind_assoc ..).symm
    | false => rfl

end

theorem Host.layers_eq (h : Host) (file : Option String) (o : Overrides) :
    h.layers file o = Layers.cover {} (h.readings file o) := by
  have hlast (below : Layers) : below.cover [h.variableSettings, .ok o.settled] = (do
      let below ← layValues below (← h.variableSettings)
      layValues below o.settled) := by
    rw [Layers.cover_cons]
    refine bind_congr fun values => bind_congr fun l => ?_
    rw [Layers.cover_cons, Outcome.ok_bind]
    exact bind_pure (layValues l o.settled)
  -- From the last source to the first, so that each step knows what the sources behind it do.
  have hnamed := Layers.cover_namedTable h file hlast
  have hwork := Layers.cover_tableAt h "project" h.workSettings hnamed
  exact (Layers.cover_tableAt h "global" h.homeSettings hwork {}).symm

/-- Where every source was read, what they set is one sequence of assignments. -/
theorem Layers.cover_ok (below : Layers) (tables : List NamedValues) :
    below.cover (tables.map .ok) = layValues below tables.flatten := by
  induction tables generalizing below with
  | nil => rfl
  | cons t tables ih =>
    rw [List.map_cons, cover_cons, List.flatten_cons, layValues, List.foldlM_append]
    simp only [Outcome.ok_bind, ih]
    rfl

end EvidenceLock
