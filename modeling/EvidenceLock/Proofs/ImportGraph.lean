import EvidenceLock.Proofs.Cycles
import EvidenceLock.Proofs.Sorting
import Mathlib.Data.Set.Card

/-!
# The graph of the imports, and who imports most

The graph holds what its files import and nothing else (`edge?_eq_some_iff`), and beside it what
leads nowhere (`unresolved_ofFiles`). Its summary counts every edge at both ends, and lists the
files with most edges at either of them (`exists_summary`). `ofFiles_exact` puts this together.
-/

namespace EvidenceLock

/-! ## Counting keys -/

namespace Keyed

variable {κ : Type} [BEq κ]

/-- How often each key comes. -/
def counted (ks : List κ) : Keyed κ Nat := ks.foldl (fun m k => m.alter k fun n => n.getD 0 + 1) []

theorem counted_concat (ks : List κ) (k : κ) :
    counted (ks ++ [k]) = (counted ks).alter k fun n => n.getD 0 + 1 :=
  List.foldl_concat ..

theorem sum_alter_succ (m : Keyed κ Nat) (k : κ) :
    ((m.alter k fun n => n.getD 0 + 1).map Prod.snd).sum = (m.map Prod.snd).sum + 1 := by
  induction m with
  | nil => rfl
  | cons e m ih =>
    obtain ⟨l, n⟩ := e
    rw [alter]
    split
    · simp only [List.map_cons, List.sum_cons, Option.getD_some]
      omega
    · simp only [List.map_cons, List.sum_cons, ih]
      omega

/-- All counts together are as many as the keys. -/
theorem sum_counted (ks : List κ) : ((counted ks).map Prod.snd).sum = ks.length := by
  induction ks using List.reverseRecOn with
  | nil => rfl
  | append_singleton ks k ih =>
    rw [counted_concat, sum_alter_succ, ih, List.length_append, List.length_singleton]

variable [LawfulBEq κ]

theorem nodup_keys_counted (ks : List κ) : (counted ks).keys.Nodup :=
  List.foldlRecOn (motive := fun m : Keyed κ Nat => m.keys.Nodup) ks _ List.nodup_nil
    fun _ hm k _ => nodup_keys_alter hm k _

theorem find?_counted (ks : List κ) (k : κ) :
    (counted ks).find? k = if ks.count k = 0 then none else some (ks.count k) := by
  induction ks using List.reverseRecOn with
  | nil => rfl
  | append_singleton ks l ih =>
    rw [counted_concat, find?_alter, List.count_append, List.count_singleton]
    by_cases hk : k = l
    · subst hk
      have hold : ((counted ks).find? k).getD 0 = ks.count k := by
        rw [ih]
        by_cases hzero : ks.count k = 0
        · rw [if_pos hzero, hzero, Option.getD_none]
        · rw [if_neg hzero, Option.getD_some]
      rw [if_pos (beq_self_eq_true k), hold, if_pos (beq_self_eq_true k),
        if_neg (Nat.succ_ne_zero _)]
    · have hlk : ¬ (l == k) = true := by simpa using Ne.symm hk
      simp only [if_neg hlk, Nat.add_zero]
      rw [if_neg (by simpa using hk), ih]

/-- Each key that comes has its count. -/
theorem mem_counted {ks : List κ} {k : κ} {n : Nat} :
    (k, n) ∈ counted ks ↔ ks.count k = n ∧ 0 < n := by
  have hfind : (k, n) ∈ counted ks ↔ (counted ks).find? k = some n :=
    ⟨find?_of_mem (nodup_keys_counted ks), mem_of_find?⟩
  rw [hfind, find?_counted]
  split
  · rename_i hzero
    rw [hzero]
    exact iff_of_false (by simp) (by omega)
  · rename_i hpos
    rw [Option.some_inj]
    exact ⟨fun h => ⟨h, by omega⟩, fun h => h.1⟩

end Keyed

namespace DependencyGraph

/-! ## Edges -/

/-- The lines of the imports of one file that lead to another, if there are any. -/
def edge? (g : DependencyGraph) (a b : String) : Option (List LineRange) :=
  (g.edges.find? a).bind fun targets => targets.find? b

section
variable {files : List NormalizedFile} {known : String → Bool}

variable (hpaths : (files.map NormalizedFile.path).Nodup)

include hpaths

/-- The entries of a graph are those of its files. -/
theorem keys_ofFiles : (ofFiles files known).edges.keys = files.map NormalizedFile.path := by
  rw [edges_ofFiles hpaths, Keyed.keys, List.map_map]
  rfl

/-- An edge has the lines that it is asked for, and some. -/
theorem edge?_eq_some_iff_ranges {a b : String} {lines : List LineRange} :
    (ofFiles files known).edge? a b = some lines ↔
      (ofFiles files known).ranges a b = lines ∧ lines ≠ [] := by
  have hranges : (ofFiles files known).ranges a b = ((ofFiles files known).edge? a b).getD [] := rfl
  constructor
  · intro hedge
    refine ⟨by rw [hranges, hedge, Option.getD_some], ?_⟩
    obtain ⟨targets, hsource, htarget⟩ := Option.bind_eq_some_iff.1 hedge
    have hentry := Keyed.mem_of_find? hsource
    rw [edges_ofFiles hpaths] at hentry
    obtain ⟨f, -, hentry⟩ := List.mem_map.1 hentry
    cases hentry
    exact Keyed.grouped_ne_nil _ _ (Keyed.mem_of_find? htarget)
  · rintro ⟨hlines, hne⟩
    cases hedge : (ofFiles files known).edge? a b with
    | none =>
      rw [hranges, hedge, Option.getD_none] at hlines
      exact absurd hlines.symm hne
    | some found => rw [← hlines, hranges, hedge, Option.getD_some]

/-- **The edges of a graph**: a file leads to another one if one of its imports does, by the lines
of these imports in their order. -/
theorem edge?_eq_some_iff {a b : String} {lines : List LineRange} :
    (ofFiles files known).edge? a b = some lines ↔
      b ≠ a ∧ ∃ f ∈ files, f.path = a ∧
        (∃ ref ∈ f.imports, resolveImport known a ref.specifier = some b) ∧
        lines = (f.imports.filter fun ref => resolveImport known a ref.specifier = some b).map
          fun ref => (ref.first, ref.last) := by
  rw [edge?_eq_some_iff_ranges hpaths]
  constructor
  · rintro ⟨rfl, hne⟩
    obtain ⟨range, hrange⟩ := List.exists_mem_of_ne_nil _ hne
    have hmem := hrange
    rw [ranges_ofFiles, List.mem_flatMap] at hmem
    obtain ⟨f, hf, hmem⟩ := hmem
    split at hmem
    · rename_i ha
      subst ha
      obtain ⟨ref, href, hleads, hother, -⟩ := mem_importRanges.1 hmem
      refine ⟨hother, f, hf, rfl, ⟨ref, href, hleads⟩, ?_⟩
      rw [ranges_of_mem hpaths hf, importRanges]
      simp only [hother, ne_eq, not_false_eq_true, and_true]
    · cases hmem
  · rintro ⟨hother, f, hf, rfl, ⟨ref, href, hleads⟩, rfl⟩
    rw [ranges_of_mem hpaths hf, importRanges]
    simp only [hother, ne_eq, not_false_eq_true, and_true, true_and]
    exact List.ne_nil_of_mem (List.mem_map_of_mem (List.mem_filter.2 ⟨href, decide_eq_true hleads⟩))

end

/-! ## Imports that lead nowhere -/

section
variable {files : List NormalizedFile} {known : String → Bool}

/-- The relative specifiers among some imports of a file that stand for no known file. -/
def strays (known : String → Bool) (path : String) (refs : List ImportRef) : List String :=
  (refs.filter fun ref =>
    isRelative ref.specifier && (resolveImport known path ref.specifier).isNone).map
      ImportRef.specifier

/-- A list under a key, unless it is empty. -/
def entryUnlessEmpty (path : String) (specifiers : List String) : Keyed String (List String) :=
  if specifiers = [] then [] else [(path, specifiers)]

theorem push_entryUnlessEmpty {before : Keyed String (List String)} {path : String}
    (hbefore : path ∉ before.keys) (specifiers : List String) (specifier : String) :
    Keyed.push (before ++ entryUnlessEmpty path specifiers) path specifier =
      before ++ entryUnlessEmpty path (specifiers ++ [specifier]) := by
  have hnew : entryUnlessEmpty path (specifiers ++ [specifier]) =
      [(path, specifiers ++ [specifier])] := if_neg (by simp)
  rw [hnew, entryUnlessEmpty, Keyed.push]
  split
  · rename_i hnone
    rw [hnone, List.append_nil, Keyed.alter_of_not_mem hbefore, Option.getD_none]
  · rw [Keyed.alter_concat hbefore, Option.getD_some]

theorem unresolved_addImport {path : String} {before : Keyed String (List String)}
    (hbefore : path ∉ before.keys) {g : DependencyGraph} {specifiers : List String}
    (hg : g.unresolved = before ++ entryUnlessEmpty path specifiers) (ref : ImportRef) :
    (addImport known path g ref).unresolved =
      before ++ entryUnlessEmpty path (specifiers ++ strays known path [ref]) := by
  unfold addImport strays
  cases hleads : resolveImport known path ref.specifier with
  | none =>
    by_cases hrelative : isRelative ref.specifier = true
    · simp [hrelative, hleads, hg, push_entryUnlessEmpty hbefore]
    · simp [hrelative, hg]
  | some target =>
    -- Where the import leads changes the edges only.
    have hkept : ([ref].filter fun ref => isRelative ref.specifier &&
        (resolveImport known path ref.specifier).isNone) = [] := by
      simp [hleads]
    rw [hkept, List.map_nil, List.append_nil, ← hg]
    dsimp only
    split <;> rfl

theorem unresolved_addImports {path : String} {before : Keyed String (List String)}
    (hbefore : path ∉ before.keys) (refs : List ImportRef) :
    ∀ {g : DependencyGraph} {specifiers : List String},
      g.unresolved = before ++ entryUnlessEmpty path specifiers →
      (refs.foldl (addImport known path) g).unresolved =
        before ++ entryUnlessEmpty path (specifiers ++ strays known path refs) := by
  induction refs with
  | nil =>
    intro g specifiers hg
    rw [List.foldl_nil, hg, strays, List.filter_nil, List.map_nil, List.append_nil]
  | cons ref refs ih =>
    intro g specifiers hg
    have hsplit : strays known path (ref :: refs) =
        strays known path [ref] ++ strays known path refs := by
      rw [strays, ← List.singleton_append, List.filter_append, List.map_append]
      rfl
    rw [List.foldl_cons, ih (unresolved_addImport hbefore hg ref), List.append_assoc, hsplit]

/-- **What leads nowhere** is kept file by file, in the order of the imports. -/
theorem unresolved_ofFiles (hpaths : (files.map NormalizedFile.path).Nodup) :
    (ofFiles files known).unresolved =
      files.flatMap fun f => entryUnlessEmpty f.path (strays known f.path f.imports) := by
  refine get_ofFiles rfl ?_ ?_ hpaths
  · intro f path hpath
    unfold entryUnlessEmpty at hpath
    split at hpath
    · cases hpath
    · exact List.mem_singleton.1 hpath
  · intro g f hnew
    have hentry : DependencyGraph.unresolved
        { g with edges := g.edges.alter f.path fun targets => targets.getD [] } =
          g.unresolved ++ entryUnlessEmpty f.path [] := (List.append_nil _).symm
    exact unresolved_addImports hnew f.imports hentry

end

/-! ## Degrees -/

/-- The number of files that a file imports. -/
noncomputable def outDegree (g : DependencyGraph) (a : String) : Nat :=
  {b | (g.edge? a b).isSome}.ncard

/-- The number of files that import a file. -/
noncomputable def inDegree (g : DependencyGraph) (b : String) : Nat :=
  {a | (g.edge? a b).isSome}.ncard

theorem ncard_mem_list {α : Type} [DecidableEq α] {l : List α} (h : l.Nodup) :
    {a | a ∈ l}.ncard = l.length := by
  have hset : {a | a ∈ l} = (l.toFinset : Set α) := by
    ext a
    simp
  rw [hset, Set.ncard_coe_finset, List.toFinset_card_of_nodup h]

/-- How many entries have a key, if each has it once at most. -/
theorem length_filter_mem_keys {edges : Keyed String (Keyed String (List LineRange))}
    (hedges : ∀ e ∈ edges, e.2.keys.Nodup) (b : String) :
    (edges.filter fun e => decide (b ∈ e.2.keys)).length =
      (edges.flatMap fun e => e.2.keys).count b := by
  induction edges with
  | nil => rfl
  | cons e edges ih =>
    obtain ⟨he, hedges⟩ := List.forall_mem_cons.1 hedges
    rw [List.filter_cons, List.flatMap_cons, List.count_append, ← ih hedges, he.count]
    by_cases hb : b ∈ e.2.keys
    · rw [if_pos (decide_eq_true hb), if_pos hb, List.length_cons, Nat.add_comm]
    · rw [if_neg (by simpa using hb), if_neg hb, Nat.zero_add]

section
variable {g : DependencyGraph} (hg : g.KeyedOnce)

include hg

theorem isSome_edge?_iff {a b : String} :
    (g.edge? a b).isSome ↔ ∃ targets, (a, targets) ∈ g.edges ∧ b ∈ targets.keys := by
  rw [edge?, Option.isSome_iff_exists]
  constructor
  · rintro ⟨lines, hlines⟩
    obtain ⟨targets, hsource, htarget⟩ := Option.bind_eq_some_iff.1 hlines
    exact ⟨targets, Keyed.mem_of_find? hsource, Keyed.mem_keys.2 ⟨lines, htarget⟩⟩
  · rintro ⟨targets, hsource, htarget⟩
    obtain ⟨lines, htarget⟩ := Keyed.mem_keys.1 htarget
    exact ⟨lines, Option.bind_eq_some_iff.2 ⟨targets, Keyed.find?_of_mem hg.sources hsource,
      htarget⟩⟩

theorem outDegree_eq (a : String) : g.outDegree a = ((g.edges.find? a).getD []).length := by
  cases hsource : g.edges.find? a with
  | none =>
    have hnone : {b | (g.edge? a b).isSome} = ∅ := by
      ext b
      simp [edge?, hsource]
    rw [outDegree, hnone, Set.ncard_empty, Option.getD_none, List.length_nil]
  | some targets =>
    have hset : {b | (g.edge? a b).isSome} = {b | b ∈ targets.keys} := by
      ext b
      rw [Set.mem_ofPred_eq, Set.mem_ofPred_eq, edge?, hsource, Option.bind_some,
        Option.isSome_iff_exists, Keyed.mem_keys]
    rw [outDegree, hset, ncard_mem_list (hg.targets _ (Keyed.mem_of_find? hsource)), Keyed.keys,
      List.length_map, Option.getD_some]

/-- A file is imported as often as it comes among what the files import. -/
theorem inDegree_eq (b : String) :
    g.inDegree b = (g.edges.flatMap fun e => e.2.keys).count b := by
  have hset : {a | (g.edge? a b).isSome} =
      {a | a ∈ (g.edges.filter fun e => decide (b ∈ e.2.keys)).map Prod.fst} := by
    ext a
    rw [Set.mem_ofPred_eq, Set.mem_ofPred_eq, isSome_edge?_iff hg]
    simp
  have hnodup : ((g.edges.filter fun e => decide (b ∈ e.2.keys)).map Prod.fst).Nodup :=
    hg.sources.sublist (List.filter_sublist.map Prod.fst)
  rw [inDegree, hset, ncard_mem_list hnodup, List.length_map, length_filter_mem_keys hg.targets]

end

/-! ## Rankings -/

/-- Larger counts come first, then the order of the paths. -/
def countKey (d : String × Nat) : ℤ ×ₗ String := toLex (-d.2, d.1)

theorem countKey_injective : Function.Injective countKey := by
  rintro ⟨a, m⟩ ⟨b, n⟩ h
  obtain ⟨hcount, rfl⟩ := Prod.ext_iff.1 (toLex.injective h)
  obtain rfl : m = n := by
    dsimp only at hcount
    omega
  rfl

theorem ranksBefore_iff (d e : String × Nat) :
    ranksBefore d e = true ↔ countKey d ≤ countKey e := by
  have hcount : (-(d.2 : ℤ) < -(e.2 : ℤ) ↔ e.2 < d.2) ∧ (-(d.2 : ℤ) = -(e.2 : ℤ) ↔ d.2 = e.2) := by
    omega
  rw [ranksBefore, countKey, countKey, Prod.Lex.toLex_le_toLex, hcount.1, hcount.2, Bool.or_eq_true,
    Bool.and_eq_true, decide_eq_true_eq, decide_eq_true_eq, beq_iff_eq]

/-- The files that have a degree in their order, and those of them that a summary lists. -/
structure Ranking (degree : String → Nat) (ranked top : List (String × Nat)) : Prop where
  mem {path : String} {n : Nat} : (path, n) ∈ ranked ↔ degree path = n ∧ 0 < n
  sorted : ranked.Pairwise fun d e => countKey d < countKey e
  listed : top = ranked.take topCount
  /-- What is left out does not stand before what is listed. -/
  omitted : ∀ d ∈ top, ∀ e ∈ ranked, e ∉ top → countKey d < countKey e

/-- Counts of different files are ranked. -/
theorem ranking_top {degree : String → Nat} {counts : Keyed String Nat} (hnodup : counts.keys.Nodup)
    (hcounts : ∀ {path n}, (path, n) ∈ counts ↔ degree path = n ∧ 0 < n) :
    Ranking degree (counts.mergeSort ranksBefore) (top counts) := by
  have hkeys : (counts.map countKey).Nodup := (List.Nodup.of_map _ hnodup).map countKey_injective
  have hsorted := pairwise_lt_mergeSort ranksBefore_iff hkeys
  refine ⟨?_, hsorted, rfl, ?_⟩
  · intro path n
    rw [List.mem_mergeSort, hcounts]
  · intro d hd e he hne
    rw [← List.take_append_drop topCount (counts.mergeSort ranksBefore)] at he hsorted
    have hdrop := (List.mem_append.1 he).resolve_left hne
    exact (List.pairwise_append.1 hsorted).2.2 d hd e hdrop

section
variable {g : DependencyGraph} (hg : g.KeyedOnce)

include hg

theorem nodup_keys_outDegrees : g.outDegrees.keys.Nodup := by
  rw [outDegrees, Keyed.keys, List.map_map]
  exact hg.sources.sublist (List.filter_sublist.map Prod.fst)

theorem mem_outDegrees {path : String} {n : Nat} :
    (path, n) ∈ g.outDegrees ↔ g.outDegree path = n ∧ 0 < n := by
  rw [outDegree_eq hg, outDegrees, List.mem_map]
  constructor
  · rintro ⟨⟨source, targets⟩, he, hentry⟩
    cases hentry
    obtain ⟨he, hsome⟩ := List.mem_filter.1 he
    rw [Keyed.find?_of_mem hg.sources he, Option.getD_some]
    exact ⟨rfl, List.length_pos_iff.2 (by simpa using hsome)⟩
  · rintro ⟨rfl, hpos⟩
    cases hsource : g.edges.find? path with
    | none => simp [hsource] at hpos
    | some targets =>
      rw [hsource, Option.getD_some] at hpos
      refine ⟨(path, targets), List.mem_filter.2 ⟨Keyed.mem_of_find? hsource, ?_⟩, rfl⟩
      simpa using List.length_pos_iff.1 hpos

theorem mem_inDegrees {path : String} {n : Nat} :
    (path, n) ∈ g.inDegrees ↔ g.inDegree path = n ∧ 0 < n := by
  rw [inDegree_eq hg]
  exact Keyed.mem_counted

omit hg in
theorem edgeCount_eq : g.edgeCount = (g.edges.map fun e => e.2.length).sum := by
  rw [edgeCount, List.sum_eq_foldl, List.foldl_map]

omit hg in
theorem sum_outDegrees : (g.outDegrees.map Prod.snd).sum = g.edgeCount := by
  rw [edgeCount_eq, outDegrees, List.map_map]
  induction g.edges with
  | nil => rfl
  | cons e edges ih =>
    rw [List.filter_cons, List.map_cons, List.sum_cons, ← ih]
    by_cases hempty : e.2 = []
    · simp [hempty]
    · simp [hempty]

omit hg in
theorem sum_inDegrees : (g.inDegrees.map Prod.snd).sum = g.edgeCount := by
  rw [edgeCount_eq, inDegrees, ← Keyed.counted, Keyed.sum_counted, List.length_flatMap]
  simp only [List.length_map]

/-- **The summary of a graph** counts every edge at both ends, and lists the files that rank first
by their numbers of edges. -/
theorem exists_summary (cycles : List Cycle) : ∃ importers imported,
    Ranking g.outDegree importers (g.summary cycles).topImporters ∧
    Ranking g.inDegree imported (g.summary cycles).topImported ∧
    (g.summary cycles).edges = (importers.map Prod.snd).sum ∧
    (g.summary cycles).edges = (imported.map Prod.snd).sum := by
  refine ⟨_, _, ranking_top (nodup_keys_outDegrees hg) (mem_outDegrees hg),
    ranking_top (Keyed.nodup_keys_counted _) (mem_inDegrees hg), ?_, ?_⟩
  · rw [((List.mergeSort_perm _ _).map Prod.snd).sum_eq, sum_outDegrees]
    rfl
  · rw [((List.mergeSort_perm _ _).map Prod.snd).sum_eq, sum_inDegrees]
    rfl

end

/-- **The graph of the imports loses and invents nothing.** Let the paths of the files be different.
The entries of the graph are those of the files, in their order. A file leads to another one exactly
if one of its imports does, by the lines of these imports in their order. Beside the edges stand,
for each file that has any, its relative specifiers that stand for no known file, in their order. The
summary of the graph, with any cycles, has as many edges as all files import and as all files are
imported, and lists the files that rank first by these numbers. -/
theorem ofFiles_exact {files : List NormalizedFile} (hpaths : (files.map NormalizedFile.path).Nodup)
    (known : String → Bool) :
    let g := ofFiles files known
    g.edges.keys = files.map NormalizedFile.path ∧
    (∀ a b lines, g.edge? a b = some lines ↔
      b ≠ a ∧ ∃ f ∈ files, f.path = a ∧
        (∃ ref ∈ f.imports, resolveImport known a ref.specifier = some b) ∧
        lines = (f.imports.filter fun ref => resolveImport known a ref.specifier = some b).map
          fun ref => (ref.first, ref.last)) ∧
    (g.unresolved =
      files.flatMap fun f => entryUnlessEmpty f.path (strays known f.path f.imports)) ∧
    ∀ cycles, ∃ importers imported,
      Ranking g.outDegree importers (g.summary cycles).topImporters ∧
      Ranking g.inDegree imported (g.summary cycles).topImported ∧
      (g.summary cycles).edges = (importers.map Prod.snd).sum ∧
      (g.summary cycles).edges = (imported.map Prod.snd).sum :=
  ⟨keys_ofFiles hpaths, fun _ _ _ => edge?_eq_some_iff hpaths, unresolved_ofFiles hpaths,
    exists_summary (keyedOnce_ofFiles files)⟩

/-- Two of the imports of the middle one of the three files lead to the same file, and one to
itself; there are four edges. -/
theorem ofFiles_exact_star : (starFiles.map NormalizedFile.path).Nodup ∧
    let g := ofFiles starFiles (starFiles.map NormalizedFile.path).contains
    g.edge? "a.py" "c.py" = some [(1, 1), (5, 5)] ∧ g.edge? "a.py" "a.py" = none ∧
    g.unresolved = [] ∧
    ∃ importers, Ranking g.outDegree importers (g.summary []).topImporters ∧
      (importers.map Prod.snd).sum = 4 := by
  have hpaths : (starFiles.map NormalizedFile.path).Nodup := by decide
  obtain ⟨-, hedge, hunresolved, hsummary⟩ :=
    ofFiles_exact hpaths (starFiles.map NormalizedFile.path).contains
  obtain ⟨importers, _, himporters, -, hsum, -⟩ := hsummary []
  refine ⟨hpaths, (hedge "a.py" "c.py" _).2 ?_, ?_, ?_, importers, himporters, ?_⟩
  · exact ⟨by decide, starFiles[1], by decide, rfl, by decide +kernel, by decide +kernel⟩
  · exact Option.eq_none_iff_forall_ne_some.2 fun lines h => ((hedge _ _ lines).1 h).1 rfl
  · rw [hunresolved]
    decide +kernel
  · rw [← hsum]
    decide +kernel

end DependencyGraph

end EvidenceLock
