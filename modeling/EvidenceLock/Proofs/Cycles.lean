import EvidenceLock.Proofs.DependencyGraph
import Mathlib.Data.List.Nodup
import Mathlib.Data.Sym.Sym2

/-!
# Import cycles

Two files make a cycle when each of them imports the other. The graph of the imports reports each
such pair once (`count_files`), from the file that comes first, with the first imports of both
files, in the order of the files and of their imports; in another order of the files the same pairs
are reported with the same lines (`cycles_exact`).

The edges with an edge back come in a strict order (`directed_pairwise`), in which the edge from the
file that comes first stands before the other one of the same pair. So what is left when each pair
is kept once are the edges that lead forward (`cycles_eq_filter`).
-/

namespace EvidenceLock

/-! ## What is said of cycles -/

/-- A file with the path `a` imports the file with the path `b`. -/
def Imports (files : List NormalizedFile) (known : String → Bool) (a b : String) : Prop :=
  ∃ f ∈ files, f.path = a ∧ ∃ ref ∈ f.imports, resolveImport known a ref.specifier = some b

instance (files : List NormalizedFile) (known : String → Bool) (a b : String) :
    Decidable (Imports files known a b) := by
  unfold Imports
  infer_instance

/-- The first import of the file `b` in the file `a` stands on some lines. -/
def FirstImport (files : List NormalizedFile) (known : String → Bool) (a b : String)
    (range : LineRange) : Prop :=
  ∃ f ∈ files, f.path = a ∧ ∃ ref,
    f.imports.find? (fun ref => resolveImport known a ref.specifier = some b) = some ref ∧
      (ref.first, ref.last) = range

/-- How many imports of a file stand before its first import of a target. -/
def NormalizedFile.importsBefore (f : NormalizedFile) (known : String → Bool) (target : String) :
    Nat :=
  f.imports.findIdx fun ref => resolveImport known f.path ref.specifier = some target

/-- The number of files before one in the order of the files. -/
abbrev fileIndex (files : List NormalizedFile) (path : String) : Nat :=
  (files.map NormalizedFile.path).idxOf path

namespace Cycle

/-- The two files of a cycle. -/
def files (c : Cycle) : Sym2 String := s(c.source, c.target)

/-- The two files of a cycle, each with the lines of its import of the other. -/
def sides (c : Cycle) : Sym2 (String × LineRange) := s((c.source, c.forth), (c.target, c.back))

/-- The source of the first cycle comes before that of the second one, or they are the same and its
first import of the first target stands before that of the second one. -/
def Before (files : List NormalizedFile) (known : String → Bool) (c d : Cycle) : Prop :=
  fileIndex files c.source < fileIndex files d.source ∨
    c.source = d.source ∧ ∃ f ∈ files, f.path = c.source ∧
      f.importsBefore known c.target < f.importsBefore known d.target

end Cycle

theorem sortedPair_eq_iff {a b c d : String} :
    sortedPair a b = sortedPair c d ↔ s(a, b) = s(c, d) := by
  rw [Sym2.eq_iff]
  have hswap : sortedPair a b = sortedPair b a := by
    unfold sortedPair
    by_cases hab : a < b
    · rw [if_pos hab, if_neg fun hba => String.lt_irrefl a (String.lt_trans hab hba)]
    · by_cases hba : b < a
      · rw [if_neg hab, if_pos hba]
      · rw [String.le_antisymm (String.not_lt.1 hba) (String.not_lt.1 hab)]
  constructor
  · intro h
    unfold sortedPair at h
    split at h <;> split at h <;> simp_all
  · rintro (⟨rfl, rfl⟩ | ⟨rfl, rfl⟩)
    · rfl
    · exact hswap

namespace DependencyGraph

/-! ## Edges and first imports -/

section
variable {files : List NormalizedFile} {known : String → Bool}
  (hpaths : (files.map NormalizedFile.path).Nodup)

include hpaths

theorem eq_of_path_eq {f g : NormalizedFile} (hf : f ∈ files) (hg : g ∈ files)
    (h : f.path = g.path) : f = g :=
  List.inj_on_of_nodup_map hpaths hf hg h

/-- The edges of a file are its imports. -/
theorem ranges_of_mem {f : NormalizedFile} (hf : f ∈ files) (b : String) :
    (ofFiles files known).ranges f.path b = importRanges known f.path f.imports b := by
  rw [ranges_ofFiles]
  induction files with
  | nil => cases hf
  | cons g files ih =>
    obtain ⟨hg, hrest⟩ := List.nodup_cons.1 hpaths
    have hnone {path : String} (hpath : path ∉ files.map NormalizedFile.path) :
        files.flatMap (fun g =>
          if path = g.path then importRanges known g.path g.imports b else []) = [] :=
      List.flatMap_eq_nil_iff.2 fun g hg =>
        if_neg fun heq => hpath (List.mem_map.2 ⟨g, hg, heq.symm⟩)
    rw [List.flatMap_cons]
    rcases List.mem_cons.1 hf with rfl | hf
    · rw [if_pos rfl, hnone hg, List.append_nil]
    · have hne : f.path ≠ g.path := fun heq => hg (List.mem_map.2 ⟨f, hf, heq⟩)
      rw [if_neg hne, List.nil_append, ih hrest hf]

/-- The first lines of an edge are those of the first import. -/
theorem head?_ranges_eq_some_iff {a b : String} {range : LineRange} :
    ((ofFiles files known).ranges a b).head? = some range ↔
      a ≠ b ∧ FirstImport files known a b range := by
  by_cases ha : ∃ f ∈ files, f.path = a
  · obtain ⟨f, hf, rfl⟩ := ha
    have hfirst : FirstImport files known f.path b range ↔ ∃ ref,
        f.imports.find? (fun ref => resolveImport known f.path ref.specifier = some b) = some ref ∧
          (ref.first, ref.last) = range := by
      constructor
      · rintro ⟨g, hg, hpath, hfind⟩
        rwa [eq_of_path_eq hpaths hg hf hpath] at hfind
      · exact fun hfind => ⟨f, hf, rfl, hfind⟩
    rw [ranges_of_mem hpaths hf, importRanges, List.head?_map, List.head?_filter, hfirst]
    by_cases hself : b = f.path
    · rw [List.find?_eq_none.2 (by simp [hself])]
      exact iff_of_false (by simp) fun h => h.1 hself.symm
    · simp [hself, Ne.symm hself, Option.map_eq_some_iff]
  · have hnone : (ofFiles files known).ranges a b = [] := by
      rw [ranges_ofFiles]
      exact List.flatMap_eq_nil_iff.2 fun f hf => if_neg fun heq => ha ⟨f, hf, heq.symm⟩
    rw [hnone]
    refine iff_of_false (by simp) ?_
    rintro ⟨-, f, hf, hpath, -⟩
    exact ha ⟨f, hf, hpath⟩

theorem mem_directed_ofFiles {c : Cycle} : c ∈ (ofFiles files known).directed ↔
    c.source ≠ c.target ∧ FirstImport files known c.source c.target c.forth ∧
      FirstImport files known c.target c.source c.back := by
  rw [mem_directed (keyedOnce_ofFiles files), head?_ranges_eq_some_iff hpaths,
    head?_ranges_eq_some_iff hpaths]
  constructor
  · rintro ⟨⟨hne, hforth⟩, -, hback⟩
    exact ⟨hne, hforth, hback⟩
  · rintro ⟨hne, hforth, hback⟩
    exact ⟨⟨hne, hforth⟩, hne.symm, hback⟩

end

end DependencyGraph

/-! ## The order of the edges -/

theorem findIdx_lt_of_filterMap {α β : Type} {g : α → Option β} {p q : β → Bool} {as : List α}
    (h : (as.filterMap g).findIdx p < (as.filterMap g).findIdx q) :
    as.findIdx (fun a => (g a).any p) < as.findIdx (fun a => (g a).any q) := by
  induction as with
  | nil => exact absurd h (Nat.lt_irrefl _)
  | cons a as ih =>
    rw [List.findIdx_cons, List.findIdx_cons]
    cases ha : g a with
    | none =>
      rw [List.filterMap_cons_none ha] at h
      exact Nat.succ_lt_succ (ih h)
    | some b =>
      rw [List.filterMap_cons_some ha, List.findIdx_cons, List.findIdx_cons] at h
      cases hq : q b with
      | true => simp [hq] at h
      | false =>
        cases hp : p b with
        | true => simp [hp, hq]
        | false =>
          rw [hp, hq] at h
          simpa [hp, hq] using ih (Nat.lt_of_succ_lt_succ h)

theorem pairwise_fileIndex {files : List NormalizedFile}
    (hpaths : (files.map NormalizedFile.path).Nodup) :
    files.Pairwise fun f g => fileIndex files f.path < fileIndex files g.path := by
  rw [List.pairwise_iff_getElem]
  intro i j hi hj hij
  have hindex {i : Nat} (hi : i < files.length) : fileIndex files files[i].path = i := by
    have := hpaths.idxOf_getElem i (by simpa using hi)
    simpa using this
  rw [hindex hi, hindex hj]
  exact hij

namespace DependencyGraph

/-- What a file imports is grouped in the order of its first imports. -/
theorem pairwise_importsBefore (f : NormalizedFile) (known : String → Bool) :
    (Keyed.grouped (importLeads known f.path f.imports)).Pairwise fun d e =>
      f.importsBefore known d.1 < f.importsBefore known e.1 := by
  have hkeys := Keyed.pairwise_keys_grouped (importLeads known f.path f.imports)
  rw [Keyed.keys, List.pairwise_map] at hkeys
  have hne {target : String}
      (htarget : target ∈ (Keyed.grouped (importLeads known f.path f.imports)).keys) :
      target ≠ f.path := by
    obtain ⟨e, he, rfl⟩ := Keyed.mem_keys_grouped.1 htarget
    obtain ⟨ref, -, he⟩ := List.mem_filterMap.1 he
    obtain ⟨target, -, he⟩ := Option.bind_eq_some_iff.1 he
    split at he
    · cases he
    · rename_i hne
      cases he
      exact hne
  have hindex {target : String} (htarget : target ≠ f.path) :
      f.importsBefore known target = f.imports.findIdx fun ref =>
        ((resolveImport known f.path ref.specifier).bind fun target =>
          if target = f.path then none else some (target, (ref.first, ref.last))).any
            fun e => target == e.1 := by
    unfold NormalizedFile.importsBefore
    congr 1
    funext ref
    cases resolveImport known f.path ref.specifier with
    | none => rfl
    | some other =>
      rw [Option.bind_some]
      by_cases hself : other = f.path
      · rw [if_pos hself]
        simpa [hself] using htarget.symm
      · rw [if_neg hself, Option.any_some, Bool.eq_iff_iff, decide_eq_true_eq, beq_iff_eq,
          Option.some_inj, eq_comm]
  refine hkeys.imp_of_mem fun {d e} hd he h => ?_
  rw [hindex (hne (List.mem_map_of_mem hd)), hindex (hne (List.mem_map_of_mem he))]
  exact findIdx_lt_of_filterMap h

section
variable {files : List NormalizedFile} {known : String → Bool}
  (hpaths : (files.map NormalizedFile.path).Nodup)

include hpaths

/-- **The order of the edges** with an edge back. -/
theorem directed_pairwise :
    (ofFiles files known).directed.Pairwise (Cycle.Before files known) := by
  unfold directed
  rw [List.pairwise_flatMap, edges_ofFiles hpaths]
  constructor
  · intro e he
    obtain ⟨f, hf, rfl⟩ := List.mem_map.1 he
    rw [reciprocal, List.pairwise_filterMap]
    refine (pairwise_importsBefore f known).imp fun {d e} hde c hc c' hc' => .inr ?_
    obtain ⟨target, forth⟩ := d
    obtain ⟨target', forth'⟩ := e
    dsimp only at hc hc'
    split at hc
    · cases hc
      split at hc'
      · cases hc'
        exact ⟨rfl, f, hf, rfl, hde⟩
      · cases hc'
    · cases hc
  · rw [List.pairwise_map]
    refine (pairwise_fileIndex hpaths).imp fun {f g} hfg c hc d hd => .inl ?_
    rw [(mem_reciprocal.1 hc).1, (mem_reciprocal.1 hd).1]
    exact hfg

/-! ## Each pair once -/

omit hpaths in
/-- Of two edges between the same files, the one that leads forward comes first. -/
theorem not_before_of_files_eq {c d : Cycle}
    (hforward : fileIndex files c.source < fileIndex files c.target) (hfiles : d.files = c.files) :
    ¬ d.Before files known c := by
  rcases Sym2.eq_iff.1 hfiles with ⟨hsource, htarget⟩ | ⟨hsource, htarget⟩
  · rintro (h | ⟨-, f, -, -, h⟩)
    · rw [hsource] at h
      exact Nat.lt_irrefl _ h
    · rw [htarget] at h
      exact Nat.lt_irrefl _ h
  · rintro (h | ⟨h, -⟩)
    · rw [hsource] at h
      exact Nat.lt_asymm h hforward
    · rw [← h, hsource] at hforward
      exact Nat.lt_irrefl _ hforward

theorem cycles_eq_filter : (ofFiles files known).cycles =
    (ofFiles files known).directed.filter fun c =>
      decide (fileIndex files c.source < fileIndex files c.target) := by
  rw [cycles_eq]
  refine firstsBy_eq_filter fun before c after heq => ?_
  have hc : c ∈ (ofFiles files known).directed := by simp [heq]
  have horder : (ofFiles files known).directed.Pairwise (Cycle.Before files known) :=
    directed_pairwise hpaths
  rw [heq, List.pairwise_append, List.pairwise_cons] at horder
  rw [decide_eq_true_eq]
  constructor
  · intro hforward d hd hpair
    exact not_before_of_files_eq hforward (sortedPair_eq_iff.1 hpair)
      (horder.2.2 d hd c List.mem_cons_self)
  · intro hnew
    by_contra hback
    obtain ⟨hne, hforth, hback'⟩ := (mem_directed_ofFiles hpaths).1 hc
    let m : Cycle := { source := c.target, target := c.source, forth := c.back, back := c.forth }
    have hm : m ∈ (ofFiles files known).directed :=
      (mem_directed_ofFiles hpaths).2 ⟨hne.symm, hback', hforth⟩
    rw [heq] at hm
    rcases List.mem_append.1 hm with hm | hm
    · exact hnew m hm (sortedPair_eq_iff.2 Sym2.eq_swap)
    · rcases List.mem_cons.1 hm with hm | hm
      · exact hne (congrArg Cycle.target hm)
      · -- An edge that leads back does not come before its mirror image.
        rcases horder.2.1.1 m hm with h | ⟨h, -⟩
        · exact hback h
        · exact hne h


theorem mem_cycles_iff {c : Cycle} : c ∈ (ofFiles files known).cycles ↔
    fileIndex files c.source < fileIndex files c.target ∧
      FirstImport files known c.source c.target c.forth ∧
      FirstImport files known c.target c.source c.back := by
  rw [cycles_eq_filter hpaths, List.mem_filter, mem_directed_ofFiles hpaths, decide_eq_true_eq]
  constructor
  · rintro ⟨⟨-, hforth, hback⟩, hforward⟩
    exact ⟨hforward, hforth, hback⟩
  · rintro ⟨hforward, hforth, hback⟩
    exact ⟨⟨fun heq => Nat.lt_irrefl _ (heq ▸ hforward), hforth, hback⟩, hforward⟩

theorem cycles_pairwise : (ofFiles files known).cycles.Pairwise (Cycle.Before files known) := by
  rw [cycles_eq_filter hpaths]
  exact (directed_pairwise hpaths).filter _

/-- No two cycles are between the same files. -/
theorem nodup_files : ((ofFiles files known).cycles.map Cycle.files).Nodup := by
  rw [List.Nodup, List.pairwise_map]
  refine (cycles_pairwise hpaths).imp_of_mem fun {d c} _ hc h hfiles => ?_
  exact not_before_of_files_eq ((mem_cycles_iff hpaths).1 hc).1 hfiles h

/-- Whichever file comes first, two files that import each other are reported with the lines of
their first imports. -/
theorem mem_sides {a b : String} {forth back : LineRange} :
    s((a, forth), (b, back)) ∈ (ofFiles files known).cycles.map Cycle.sides ↔
      a ≠ b ∧ FirstImport files known a b forth ∧ FirstImport files known b a back := by
  rw [List.mem_map]
  constructor
  · rintro ⟨c, hc, hsides⟩
    obtain ⟨hforward, hforth, hback⟩ := (mem_cycles_iff hpaths).1 hc
    have hne : c.source ≠ c.target := fun heq => Nat.lt_irrefl _ (heq ▸ hforward)
    rcases Sym2.eq_iff.1 hsides with ⟨ha, hb⟩ | ⟨hb, ha⟩
    · cases ha
      cases hb
      exact ⟨hne, hforth, hback⟩
    · cases ha
      cases hb
      exact ⟨hne.symm, hback, hforth⟩
  · rintro ⟨hne, hforth, hback⟩
    have hindex : fileIndex files a ≠ fileIndex files b := by
      obtain ⟨f, hf, rfl, -⟩ := hforth
      exact fun heq => hne ((List.idxOf_inj (List.mem_map_of_mem hf)).1 heq)
    rcases Nat.lt_or_gt_of_ne hindex with hforward | hforward
    · exact ⟨{ source := a, target := b, forth, back },
        (mem_cycles_iff hpaths).2 ⟨hforward, hforth, hback⟩, rfl⟩
    · exact ⟨{ source := b, target := a, forth := back, back := forth },
        (mem_cycles_iff hpaths).2 ⟨hforward, hback, hforth⟩, Sym2.eq_swap⟩

omit hpaths in
theorem imports_iff {a b : String} :
    Imports files known a b ↔ ∃ range, FirstImport files known a b range := by
  constructor
  · rintro ⟨f, hf, hpath, ref, href, hleads⟩
    have hsome : (f.imports.find? fun ref =>
        decide (resolveImport known a ref.specifier = some b)).isSome :=
      List.find?_isSome.2 ⟨ref, href, decide_eq_true hleads⟩
    obtain ⟨first, hfirst⟩ := Option.isSome_iff_exists.1 hsome
    exact ⟨_, f, hf, hpath, first, hfirst, rfl⟩
  · rintro ⟨range, f, hf, hpath, ref, hfind, -⟩
    exact ⟨f, hf, hpath, ref, List.mem_of_find?_eq_some hfind,
      of_decide_eq_true (List.find?_some hfind :)⟩

/-- **Each pair of files** that import each other is reported once, and no other pair. -/
theorem count_files {a b : String} (hne : a ≠ b) :
    ((ofFiles files known).cycles.map Cycle.files).count s(a, b) =
      if Imports files known a b ∧ Imports files known b a then 1 else 0 := by
  have hmem : s(a, b) ∈ (ofFiles files known).cycles.map Cycle.files ↔
      Imports files known a b ∧ Imports files known b a := by
    rw [imports_iff, imports_iff]
    constructor
    · intro hfiles
      obtain ⟨c, hc, hfiles⟩ := List.mem_map.1 hfiles
      obtain ⟨-, hforth, hback⟩ := (mem_cycles_iff hpaths).1 hc
      rcases Sym2.eq_iff.1 hfiles with ⟨rfl, rfl⟩ | ⟨rfl, rfl⟩
      · exact ⟨⟨_, hforth⟩, ⟨_, hback⟩⟩
      · exact ⟨⟨_, hback⟩, ⟨_, hforth⟩⟩
    · rintro ⟨⟨forth, hforth⟩, ⟨back, hback⟩⟩
      obtain ⟨c, hc, hsides⟩ := List.mem_map.1 ((mem_sides hpaths).2 ⟨hne, hforth, hback⟩)
      exact List.mem_map.2 ⟨c, hc, congrArg (Sym2.map Prod.fst) hsides⟩
  rw [(nodup_files hpaths).count]
  exact if_congr hmem rfl rfl

/-- In another order of the files the same pairs are reported, with the same lines. -/
theorem sides_perm {others : List NormalizedFile} (h : others.Perm files) :
    ((ofFiles others known).cycles.map Cycle.sides).Perm
      ((ofFiles files known).cycles.map Cycle.sides) := by
  have hothers : (others.map NormalizedFile.path).Nodup :=
    (h.map NormalizedFile.path).nodup_iff.2 hpaths
  have hnodup {fs : List NormalizedFile} (hfs : (fs.map NormalizedFile.path).Nodup) :
      ((ofFiles fs known).cycles.map Cycle.sides).Nodup := by
    refine List.Nodup.of_map (Sym2.map Prod.fst) ?_
    rw [List.map_map]
    exact nodup_files hfs
  refine (List.perm_ext_iff_of_nodup (hnodup hothers) (hnodup hpaths)).2 fun x => ?_
  induction x using Sym2.ind with
  | _ x y =>
    obtain ⟨a, forth⟩ := x
    obtain ⟨b, back⟩ := y
    rw [mem_sides hothers, mem_sides hpaths]
    simp only [FirstImport, h.mem_iff]

end

/-- **Cycle detection is exact.** Let the paths of the files be different. For two different paths
one cycle is reported if the file of each of them imports the other one, and none otherwise. A cycle
leads from the file that comes first and has the lines of the first import of each of its files in
the other. The cycles stand in the order of their sources, and those of one source in the order of
its first imports. In another order of the files, the same pairs are reported with the same
lines. -/
theorem cycles_exact {files : List NormalizedFile}
    (hpaths : (files.map NormalizedFile.path).Nodup) (known : String → Bool) :
    (∀ a b, a ≠ b → ((ofFiles files known).cycles.map Cycle.files).count s(a, b) =
      if Imports files known a b ∧ Imports files known b a then 1 else 0) ∧
    (∀ c ∈ (ofFiles files known).cycles,
      fileIndex files c.source < fileIndex files c.target ∧
        FirstImport files known c.source c.target c.forth ∧
        FirstImport files known c.target c.source c.back) ∧
    (ofFiles files known).cycles.Pairwise (Cycle.Before files known) ∧
    ∀ others : List NormalizedFile, others.Perm files →
      ((ofFiles others known).cycles.map Cycle.sides).Perm
        ((ofFiles files known).cycles.map Cycle.sides) :=
  ⟨fun _ _ hne => count_files hpaths hne, fun _ hc => (mem_cycles_iff hpaths).1 hc,
    cycles_pairwise hpaths, fun _ h => sides_perm hpaths h⟩

/-- Three files: `b.py` and `c.py` both import `a.py`, which imports `c.py`, itself, `b.py` and
`c.py` again. -/
def starFiles : List NormalizedFile :=
  [{ path := "b.py", lines := [], imports := [{ specifier := "./a", first := 2, last := 2 }] },
   { path := "a.py", lines := []
     imports :=
       [{ specifier := "./c", first := 1, last := 1 }, { specifier := "./a", first := 2, last := 2 },
        { specifier := "./b", first := 3, last := 4 },
        { specifier := "./c", first := 5, last := 5 }] },
   { path := "c.py", lines := [], imports := [{ specifier := "./a", first := 7, last := 7 }] }]

/-- The three files make two cycles, and their outer files none. -/
theorem cycles_exact_star : (starFiles.map NormalizedFile.path).Nodup ∧
    let cycles := (ofFiles starFiles (starFiles.map NormalizedFile.path).contains).cycles
    (cycles.map Cycle.files).count s("a.py", "b.py") = 1 ∧
    (cycles.map Cycle.files).count s("a.py", "c.py") = 1 ∧
    (cycles.map Cycle.files).count s("b.py", "c.py") = 0 := by
  have hpaths : (starFiles.map NormalizedFile.path).Nodup := by decide
  have hcount := (cycles_exact hpaths (starFiles.map NormalizedFile.path).contains).1
  refine ⟨hpaths, ?_, ?_, ?_⟩
  · rw [hcount "a.py" "b.py" (by decide), if_pos (by decide +kernel)]
  · rw [hcount "a.py" "c.py" (by decide), if_pos (by decide +kernel)]
  · rw [hcount "b.py" "c.py" (by decide), if_neg (by decide +kernel)]

end DependencyGraph

end EvidenceLock
