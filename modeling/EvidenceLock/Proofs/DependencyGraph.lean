import EvidenceLock.Proofs.Keyed
import EvidenceLock.Signal.Dependency
import Mathlib.Data.List.Basic
import Mathlib.Data.List.Induction

/-!
# The graph of the imports

The edges of a graph as its files give them: from one file to another lead the lines of those
imports of the first file that stand for the other, in their order
(`DependencyGraph.ranges_ofFiles`), and the entries stand in the order of the files and of their
imports (`DependencyGraph.edges_ofFiles`). A cycle takes its lines from the edges in both directions
(`DependencyGraph.mem_cycles`).
-/

namespace EvidenceLock

/-- The lines of those imports of a file that lead to another one, in order. -/
def importRanges (known : String → Bool) (path : String) (refs : List ImportRef)
    (target : String) : List LineRange :=
  (refs.filter fun ref =>
    decide (resolveImport known path ref.specifier = some target ∧ target ≠ path)).map
      fun ref => (ref.first, ref.last)

theorem mem_importRanges {known : String → Bool} {path target : String} {refs : List ImportRef}
    {range : LineRange} : range ∈ importRanges known path refs target ↔
      ∃ ref ∈ refs, resolveImport known path ref.specifier = some target ∧ target ≠ path ∧
        (ref.first, ref.last) = range := by
  simp only [importRanges, List.mem_map, List.mem_filter, decide_eq_true_eq, and_assoc]

namespace DependencyGraph

variable {known : String → Bool}

/-! ## Edges -/

/-- An import adds its lines to the one edge that it makes. -/
theorem ranges_addImport (path : String) (g : DependencyGraph) (ref : ImportRef) (a b : String) :
    (addImport known path g ref).ranges a b = g.ranges a b ++
      if a = path ∧ resolveImport known path ref.specifier = some b ∧ b ≠ path then
        [(ref.first, ref.last)]
      else [] := by
  unfold addImport
  cases hleads : resolveImport known path ref.specifier with
  | none =>
    dsimp only
    split
    · simp [ranges]
    · simp
  | some target =>
    dsimp only
    split
    · -- A file that imports itself has no edge for it.
      rename_i hself
      subst hself
      have hnot : ¬ (a = target ∧ some target = some b ∧ b ≠ target) := by
        rintro ⟨-, hb, hother⟩
        exact hother (Option.some.inj hb).symm
      rw [if_neg hnot, List.append_nil]
    · rename_i hother
      unfold ranges
      rw [Keyed.find?_alter]
      by_cases ha : a = path
      · subst ha
        have hedge : (((g.edges.find? a).getD []).find? b).getD [] =
            ((g.edges.find? a).bind fun targets => targets.find? b).getD [] := by
          cases g.edges.find? a <;> rfl
        rw [if_pos (beq_self_eq_true a), Option.bind_some, Keyed.find?_push, hedge]
        by_cases hb : b = target
        · subst hb
          simp [hother]
        · simp [hb, Ne.symm hb]
      · simp [ha]

theorem ranges_addImports (path : String) (refs : List ImportRef) (g : DependencyGraph)
    (a b : String) : (refs.foldl (addImport known path) g).ranges a b =
      g.ranges a b ++ if a = path then importRanges known path refs b else [] := by
  induction refs generalizing g with
  | nil => simp [importRanges]
  | cons ref refs ih =>
    rw [List.foldl_cons, ih, ranges_addImport, List.append_assoc]
    congr 1
    by_cases ha : a = path
    · rw [if_pos ha, if_pos ha, importRanges, importRanges]
      by_cases hleads : resolveImport known path ref.specifier = some b ∧ b ≠ path
      · rw [if_pos ⟨ha, hleads⟩, List.filter_cons, if_pos (decide_eq_true hleads)]
        rfl
      · rw [if_neg fun h => hleads h.2, List.filter_cons, if_neg (by simpa using hleads)]
        rfl
    · simp [ha]

/-- A file adds its imports. -/
theorem ranges_addFile (g : DependencyGraph) (f : NormalizedFile) (a b : String) :
    (addFile known g f).ranges a b =
      g.ranges a b ++ if a = f.path then importRanges known f.path f.imports b else [] := by
  -- The entry of a file is made for its imports, and has no edge yet.
  have hentry : ranges { g with edges := g.edges.alter f.path fun targets => targets.getD [] } a b =
      g.ranges a b := by
    unfold ranges
    rw [Keyed.find?_alter]
    split
    · rename_i ha
      rw [eq_of_beq ha]
      cases g.edges.find? f.path <;> rfl
    · rfl
  rw [addFile, ranges_addImports, hentry]

/-- **The edges of a graph** are the imports of its files. -/
theorem ranges_ofFiles (files : List NormalizedFile) (a b : String) :
    (ofFiles files known).ranges a b =
      files.flatMap fun f => if a = f.path then importRanges known f.path f.imports b else [] := by
  have hfold (g : DependencyGraph) : (files.foldl (addFile known) g).ranges a b =
      g.ranges a b ++ files.flatMap fun f =>
        if a = f.path then importRanges known f.path f.imports b else [] := by
    induction files generalizing g with
    | nil => simp
    | cons f files ih => rw [List.foldl_cons, ih, ranges_addFile, List.append_assoc,
        List.flatMap_cons]
  exact hfold {}

/-! ## Entries -/

/-- The imports of a file that lead to other files: to which one, and the lines. -/
def importLeads (known : String → Bool) (path : String) (refs : List ImportRef) :
    List (String × LineRange) :=
  refs.filterMap fun ref =>
    (resolveImport known path ref.specifier).bind fun target =>
      if target = path then none else some (target, (ref.first, ref.last))

theorem edges_addImports {path : String} {before : Keyed String (Keyed String (List LineRange))}
    (hbefore : path ∉ before.keys) (refs : List ImportRef) :
    ∀ {g : DependencyGraph} {targets : Keyed String (List LineRange)},
      g.edges = before ++ [(path, targets)] →
      (refs.foldl (addImport known path) g).edges = before ++ [(path,
        (importLeads known path refs).foldl (fun m e => m.push e.1 e.2) targets)] := by
  induction refs with
  | nil => exact id
  | cons ref refs ih =>
    intro g targets hg
    rw [List.foldl_cons, importLeads, List.filterMap_cons]
    unfold addImport
    cases hleads : resolveImport known path ref.specifier with
    | none =>
      dsimp only [Option.bind_none]
      split
      · exact ih hg
      · exact ih hg
    | some target =>
      dsimp only [Option.bind_some]
      by_cases hself : target = path
      · rw [if_pos hself, if_pos hself]
        exact ih hg
      · rw [if_neg hself, if_neg hself]
        refine ih ?_
        rw [hg, Keyed.alter_concat hbefore]
        rfl

/-- What files add under their own paths, one after the other. -/
theorem get_ofFiles {α : Type} {get : DependencyGraph → Keyed String α} (hnone : get {} = [])
    {part : NormalizedFile → Keyed String α} (hkeys : ∀ f, ∀ path ∈ (part f).keys, path = f.path)
    (hadd : ∀ g f, f.path ∉ (get g).keys → get (addFile known g f) = get g ++ part f)
    {files : List NormalizedFile} (hpaths : (files.map NormalizedFile.path).Nodup) :
    get (ofFiles files known) = files.flatMap part := by
  have hfold : ∀ g : DependencyGraph, (∀ f ∈ files, f.path ∉ (get g).keys) →
      get (files.foldl (addFile known) g) = get g ++ files.flatMap part := by
    induction files with
    | nil => simp
    | cons f files ih =>
      intro g hnew
      obtain ⟨hf, hpaths⟩ := List.nodup_cons.1 hpaths
      have hfile := hadd g f (hnew f List.mem_cons_self)
      rw [List.foldl_cons, ih hpaths (addFile known g f) fun f' hf' hmem => ?_, hfile,
        List.append_assoc, List.flatMap_cons]
      rw [hfile, Keyed.keys, List.map_append, List.mem_append] at hmem
      rcases hmem with hmem | hmem
      · exact hnew f' (List.mem_cons_of_mem _ hf') hmem
      · exact hf (List.mem_map.2 ⟨f', hf', hkeys f _ hmem⟩)
  have hstart : ∀ f ∈ files, f.path ∉ (get {}).keys := by
    rw [hnone]
    exact fun f _ => List.not_mem_nil
  rw [ofFiles, hfold {} hstart, hnone, List.nil_append]

/-- **The entries of a graph** are those of its files, in their order: for each file what its
imports lead to, grouped by the file that it is. -/
theorem edges_ofFiles {files : List NormalizedFile}
    (hpaths : (files.map NormalizedFile.path).Nodup) :
    (ofFiles files known).edges =
      files.map fun f => (f.path, Keyed.grouped (importLeads known f.path f.imports)) := by
  rw [List.map_eq_flatMap]
  refine get_ofFiles rfl ?_ ?_ hpaths
  · exact fun f path hpath => List.mem_singleton.1 hpath
  · exact fun g f hnew => edges_addImports hnew f.imports (Keyed.alter_of_not_mem hnew _)

/-! ## Keys -/

/-- Every file has one entry, and so has every file that it imports. -/
structure KeyedOnce (g : DependencyGraph) : Prop where
  sources : g.edges.keys.Nodup
  targets : ∀ e ∈ g.edges, e.2.keys.Nodup

theorem KeyedOnce.alter {g : DependencyGraph} (h : g.KeyedOnce) (path : String)
    {change : Option (Keyed String (List LineRange)) → Keyed String (List LineRange)}
    (hchange : ∀ targets, targets.keys.Nodup → (change (some targets)).keys.Nodup)
    (hnone : (change none).keys.Nodup) :
    KeyedOnce { g with edges := g.edges.alter path change } where
  sources := Keyed.nodup_keys_alter h.sources path change
  targets e he := by
    rcases Keyed.mem_alter he with hmem | hnew | ⟨d, hd, hold⟩
    · exact h.targets e hmem
    · rw [hnew]
      exact hnone
    · rw [hold]
      exact hchange d.2 (h.targets d hd)

theorem KeyedOnce.addImport {g : DependencyGraph} (h : g.KeyedOnce) (path : String)
    (ref : ImportRef) : (addImport known path g ref).KeyedOnce := by
  have hpush {targets : Keyed String (List LineRange)} (target : String)
      (htargets : targets.keys.Nodup) :
      (Keyed.push targets target (ref.first, ref.last)).keys.Nodup :=
    Keyed.nodup_keys_alter htargets target _
  unfold DependencyGraph.addImport
  split
  · split
    · exact ⟨h.sources, h.targets⟩
    · exact h
  · split
    · exact h
    · exact h.alter path (fun targets htargets => hpush _ htargets) (hpush _ List.nodup_nil)

theorem keyedOnce_ofFiles (files : List NormalizedFile) : (ofFiles files known).KeyedOnce := by
  refine List.foldlRecOn (motive := KeyedOnce) files _ ⟨List.nodup_nil, fun e he => by cases he⟩
    fun g hg f _ => ?_
  have hentry : KeyedOnce { g with edges := g.edges.alter f.path fun targets => targets.getD [] } :=
    hg.alter f.path (fun _ htargets => htargets) List.nodup_nil
  exact List.foldlRecOn (motive := KeyedOnce) f.imports _ hentry fun _ hg ref _ =>
    hg.addImport f.path ref

/-! ## Cycles -/

/-- The edges of an entry that have an edge back, with the first lines of both. -/
def reciprocal (g : DependencyGraph) (source : String) (targets : Keyed String (List LineRange)) :
    List Cycle :=
  targets.filterMap fun (target, forth) =>
    match forth, g.ranges target source with
    | f :: _, b :: _ => some { source, target, forth := f, back := b : Cycle }
    | _, _ => none

theorem mem_reciprocal {g : DependencyGraph} {source : String}
    {targets : Keyed String (List LineRange)} {c : Cycle} : c ∈ g.reciprocal source targets ↔
      c.source = source ∧ ∃ forth, (c.target, forth) ∈ targets ∧ forth.head? = some c.forth ∧
        (g.ranges c.target source).head? = some c.back := by
  unfold reciprocal
  rw [List.mem_filterMap]
  constructor
  · rintro ⟨⟨target, forth⟩, hmem, hc⟩
    dsimp only at hc
    split at hc
    · rename_i hback
      cases hc
      exact ⟨rfl, _, hmem, rfl, by rw [hback, List.head?_cons]⟩
    · cases hc
  · rintro ⟨rfl, forth, hmem, hforth, hback⟩
    obtain ⟨_, rfl⟩ := List.head?_eq_some_iff.1 hforth
    obtain ⟨_, hback⟩ := List.head?_eq_some_iff.1 hback
    refine ⟨_, hmem, ?_⟩
    dsimp only
    rw [hback]

/-- The edges with an edge back, in the order of the graph. -/
def directed (g : DependencyGraph) : List Cycle := g.edges.flatMap fun e => g.reciprocal e.1 e.2

theorem mem_directed {g : DependencyGraph} (hg : g.KeyedOnce) {c : Cycle} :
    c ∈ g.directed ↔ (g.ranges c.source c.target).head? = some c.forth ∧
      (g.ranges c.target c.source).head? = some c.back := by
  rw [directed, List.mem_flatMap]
  constructor
  · rintro ⟨⟨source, targets⟩, hsource, hc⟩
    obtain ⟨rfl, forth, htarget, hforth, hback⟩ := mem_reciprocal.1 hc
    refine ⟨?_, hback⟩
    rwa [ranges, Keyed.find?_of_mem hg.sources hsource, Option.bind_some,
      Keyed.find?_of_mem (hg.targets _ hsource) htarget, Option.getD_some]
  · rintro ⟨hforth, hback⟩
    -- A file with lines for another one has an entry, and in it one for the other file.
    unfold ranges at hforth
    cases hsource : g.edges.find? c.source with
    | none => simp [hsource] at hforth
    | some targets =>
      cases htarget : targets.find? c.target with
      | none => simp [hsource, htarget] at hforth
      | some lines =>
        rw [hsource, Option.bind_some, htarget, Option.getD_some] at hforth
        exact ⟨_, Keyed.mem_of_find? hsource,
          mem_reciprocal.2 ⟨rfl, _, Keyed.mem_of_find? htarget, hforth, hback⟩⟩

section
variable {α κ : Type} [BEq κ]

/-- The keys of some elements, and the elements whose key no earlier one has, both last first. -/
def sifted (key : α → κ) (as : List α) : List κ × List α :=
  as.foldl (fun (seen, found) a =>
    if seen.contains (key a) then (seen, found) else (key a :: seen, a :: found)) ([], [])

/-- The elements whose key no earlier element has. -/
def firstsBy (key : α → κ) (as : List α) : List α := (sifted key as).2.reverse

theorem sifted_concat (key : α → κ) (as : List α) (a : α) :
    sifted key (as ++ [a]) =
      if (sifted key as).1.contains (key a) then sifted key as
      else (key a :: (sifted key as).1, a :: (sifted key as).2) := by
  rw [sifted, List.foldl_concat]
  rfl

theorem firstsBy_subset (key : α → κ) (as : List α) : firstsBy key as ⊆ as := by
  induction as using List.reverseRecOn with
  | nil => exact List.Subset.refl _
  | append_singleton as a ih =>
    rw [firstsBy, sifted_concat]
    split
    · exact List.Subset.trans ih (List.subset_append_left _ _)
    · rw [List.reverse_cons]
      exact List.append_subset.2 ⟨List.Subset.trans ih (List.subset_append_left _ _),
        List.subset_append_right _ _⟩

variable [LawfulBEq κ]

theorem mem_sifted {key : α → κ} {as : List α} {k : κ} :
    k ∈ (sifted key as).1 ↔ ∃ a ∈ as, key a = k := by
  induction as using List.reverseRecOn generalizing k with
  | nil => simp [sifted]
  | append_singleton as a ih =>
    have hsplit : (∃ b ∈ as ++ [a], key b = k) ↔ (∃ b ∈ as, key b = k) ∨ key a = k := by
      simp [or_and_right, exists_or]
    rw [sifted_concat, hsplit, ← ih]
    split
    · rename_i hseen
      -- The key of the last element is there already.
      constructor
      · exact Or.inl
      · rintro (hk | rfl)
        · exact hk
        · exact List.contains_iff_mem.1 hseen
    · rw [List.mem_cons, or_comm, eq_comm]

/-- What is kept are the elements with a property, if these are the ones whose key no earlier
element has. -/
theorem firstsBy_eq_filter {key : α → κ} {p : α → Bool} {as : List α}
    (h : ∀ before a after, as = before ++ a :: after →
      (p a = true ↔ ∀ b ∈ before, key b ≠ key a)) : firstsBy key as = as.filter p := by
  induction as using List.reverseRecOn with
  | nil => rfl
  | append_singleton as a ih =>
    have hrest := ih fun before b after heq => h before b (after ++ [a]) (by simp [heq])
    have hlast := h as a [] rfl
    rw [firstsBy, sifted_concat, List.filter_append]
    by_cases hseen : key a ∈ (sifted key as).1
    · obtain ⟨b, hb, hba⟩ := mem_sifted.1 hseen
      have hp : ¬ p a = true := fun hp => hlast.1 hp b hb hba
      rw [if_pos (List.contains_iff_mem.2 hseen), List.filter_cons_of_neg hp, List.filter_nil,
        List.append_nil, ← hrest, firstsBy]
    · have hp : p a = true := hlast.2 fun b hb hba => hseen (mem_sifted.2 ⟨b, hb, hba⟩)
      rw [if_neg (mt List.contains_iff_mem.1 hseen), List.filter_cons_of_pos hp, List.filter_nil,
        ← hrest, firstsBy, List.reverse_cons]

end

theorem cycles_eq (g : DependencyGraph) :
    g.cycles = firstsBy (fun c => sortedPair c.source c.target) g.directed := rfl

/-- **A cycle** is an edge in each direction, with the first lines of both. -/
theorem mem_cycles {g : DependencyGraph} (hg : g.KeyedOnce) {c : Cycle} (hc : c ∈ g.cycles) :
    (g.ranges c.source c.target).head? = some c.forth ∧
      (g.ranges c.target c.source).head? = some c.back :=
  (mem_directed hg).1 (firstsBy_subset _ _ hc)

end DependencyGraph

end EvidenceLock
