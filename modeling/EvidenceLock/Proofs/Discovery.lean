import EvidenceLock.Proofs.AcceptedRuns
import EvidenceLock.Proofs.Disk
import EvidenceLock.Proofs.PathWalk
import EvidenceLock.Proofs.Sorting

/-!
# The search finds the eligible files

The search goes down a tree of folders. What it collects is said by the paths of names that lead
down the tree (`Entry.mem_candidates`), and since the names in a folder are different, no path of a
file is that of another one (`pathOf_inj`). So it finds the eligible files, each of them once and in
the order of the paths, unless a setting cannot be used (`Host.discover_exact`): a limit that is
finite in megabytes need not be so in bytes (`Host.discover_overflows`). The extension by which a
file is found and the suffix of its path belong to the same language
(`Language.ofPath?_of_accepted`).
-/

namespace EvidenceLock

open EvidenceLock.Text

/-! ## Paths -/

/-- The path that is made of some names. -/
def pathOf (names : List String) : String :=
  String.ofList (Path.join (names.map String.toList))

/-- The name can stand for an entry of a folder. -/
def EntryName (name : String) : Prop := Path.IsName name.toList

instance (name : String) : Decidable (EntryName name) :=
  decidable_of_iff (name.toList ≠ [] ∧ name.toList ≠ Path.here ∧ '/' ∉ name.toList)
    ⟨fun h => ⟨h.1, h.2.1, h.2.2⟩, fun h => ⟨h.ne_nil, h.ne_here, h.plain⟩⟩

theorem pathOf_nil : pathOf [] = "" := rfl

theorem isName_of_mem_map {names : List String} (h : ∀ n ∈ names, EntryName n) :
    ∀ part ∈ names.map String.toList, Path.IsName part := by
  intro part hpart
  obtain ⟨n, hn, rfl⟩ := List.mem_map.1 hpart
  exact h n hn

theorem split_pathOf {names : List String} (h : ∀ n ∈ names, EntryName n) (hne : names ≠ []) :
    Path.split (pathOf names).toList = names.map String.toList := by
  rw [pathOf, String.toList_ofList]
  exact Path.split_join (fun part hpart => (isName_of_mem_map h part hpart).plain)
    (by simpa using hne)

/-- Different names make different paths. -/
theorem pathOf_inj {names names' : List String} (h : ∀ n ∈ names, EntryName n)
    (h' : ∀ n ∈ names', EntryName n) (hne : names ≠ []) (hne' : names' ≠ [])
    (heq : pathOf names = pathOf names') : names = names' := by
  have hmap : names.map String.toList = names'.map String.toList := by
    rw [← split_pathOf h hne, ← split_pathOf h' hne', heq]
  exact List.map_injective_iff.2 (fun _ _ => String.toList_inj.1) hmap

/-- Names that lead on from one folder are told apart by the paths that they make. -/
theorem append_inj_of_pathOf {outer names names' : List String} (houter : ∀ n ∈ outer, EntryName n)
    (h : ∀ n ∈ names, EntryName n) (h' : ∀ n ∈ names', EntryName n) (hne : names ≠ [])
    (hne' : names' ≠ []) (heq : pathOf (outer ++ names) = pathOf (outer ++ names')) :
    names = names' :=
  List.append_cancel_left (pathOf_inj (List.forall_mem_append.2 ⟨houter, h⟩)
    (List.forall_mem_append.2 ⟨houter, h'⟩) (List.append_ne_nil_of_right_ne_nil _ hne)
    (List.append_ne_nil_of_right_ne_nil _ hne') heq)

/-- One more name leads into a folder. -/
theorem pathIn_pathOf {outer : List String} (h : ∀ n ∈ outer, EntryName n) (name : String) :
    pathIn (pathOf outer) name = pathOf (outer ++ [name]) := by
  by_cases houter : outer = []
  · subst houter
    simp [pathIn, pathOf]
  · have hmap : outer.map String.toList ≠ [] := by simpa using houter
    have hjoin := Path.join_ne_nil (isName_of_mem_map h) hmap
    have hne : (pathOf outer).isEmpty = false := by
      simpa [pathOf, String.isEmpty_iff] using hjoin
    rw [pathIn, hne, if_neg Bool.false_ne_true, pathOf, pathOf, List.map_append, List.map_singleton,
      Path.join_concat hmap]
    apply String.toList_inj.1
    simp

/-! ## Trees -/

namespace Entry

/-- The names in every folder are different, and each of them can stand for an entry. -/
def IsTree (e : Entry) : Prop :=
  ∀ dirs entries, e.descend? dirs = some (.folder entries) →
    (Keyed.keys entries).Nodup ∧ ∀ name ∈ Keyed.keys entries, EntryName name

theorem isTree_file (bytes : List Nat) : (Entry.file bytes).IsTree := by
  intro dirs entries h
  cases dirs <;> cases h

theorem isTree_folder {entries : List (String × Entry)} (hnodup : (Keyed.keys entries).Nodup)
    (h : ∀ p ∈ entries, EntryName p.1 ∧ p.2.IsTree) : (Entry.folder entries).IsTree := by
  intro dirs below hdirs
  cases dirs with
  | nil =>
    cases hdirs
    refine ⟨hnodup, fun name hname => ?_⟩
    obtain ⟨p, hp, rfl⟩ := List.mem_map.1 hname
    exact (h p hp).1
  | cons name dirs =>
    obtain ⟨e, hchild, hdirs⟩ := Option.bind_eq_some_iff.1 hdirs
    exact (h _ (Keyed.mem_of_find? hchild)).2 dirs below hdirs

/-- What holds of files, and of folders when it holds of their entries, holds of all trees. -/
theorem induct {motive : Entry → Prop} (ofFile : ∀ bytes, motive (.file bytes))
    (ofFolder : ∀ entries, (∀ name e, (name, e) ∈ entries → motive e) →
      motive (.folder entries)) : ∀ e, motive e
  | .file bytes => ofFile bytes
  | .folder entries => ofFolder entries fun name e _ => induct ofFile ofFolder e
termination_by e => sizeOf e
decreasing_by
  have := List.sizeOf_lt_of_mem ‹(name, e) ∈ entries›
  simp only [folder.sizeOf_spec, Prod.mk.sizeOf_spec] at this ⊢
  omega

section
variable {entries : List (String × Entry)} (htree : (Entry.folder entries).IsTree)

include htree

theorem IsTree.nodup : (Keyed.keys entries).Nodup := (htree [] entries rfl).1

theorem IsTree.entryName {name : String} {e : Entry} (h : (name, e) ∈ entries) : EntryName name :=
  (htree [] entries rfl).2 name (List.mem_map_of_mem h)

theorem IsTree.child? {name : String} {e : Entry} :
    (Entry.folder entries).child? name = some e ↔ (name, e) ∈ entries :=
  ⟨Keyed.mem_of_find?, Keyed.find?_of_mem htree.nodup⟩

/-- What is in a tree is a tree. -/
theorem IsTree.of_mem {name : String} {e : Entry} (h : (name, e) ∈ entries) : e.IsTree := by
  intro dirs below hdirs
  refine htree (name :: dirs) below ?_
  rw [descend?, htree.child?.2 h, Option.bind_some, hdirs]

end

theorem IsTree.of_descend? {e e' : Entry} {names : List String} (htree : e.IsTree)
    (h : e.descend? names = some e') : ∀ name ∈ names, EntryName name := by
  induction names generalizing e with
  | nil => simp
  | cons name names ih =>
    cases e with
    | file bytes => cases h
    | folder entries =>
      obtain ⟨below, hchild, h⟩ := Option.bind_eq_some_iff.1 h
      have hmem := htree.child?.1 hchild
      exact List.forall_mem_cons.2 ⟨htree.entryName hmem, ih (htree.of_mem hmem) h⟩

end Entry

/-! ## What is collected -/

/-- An entry that is a source file. -/
def sourceIn? (s : Selection) (dir : String) : String × Entry → Option Candidate
  | (name, .file bytes) =>
    if s.accepts name then some { path := pathIn dir name, size := bytes.length } else none
  | (_, .folder _) => none

section
variable {s : Selection} {dir : String} {entries : List (String × Entry)} {c : Candidate}

theorem filesIn_eq : filesIn s dir entries = entries.filterMap (sourceIn? s dir) := by
  induction entries with
  | nil => rfl
  | cons entry rest ih =>
    obtain ⟨name, e⟩ := entry
    cases e with
    | folder below => rw [filesIn, ih, List.filterMap_cons, sourceIn?]
    | file bytes =>
      rw [filesIn, ih, List.filterMap_cons, sourceIn?]
      split <;> rfl

theorem belowFolders_eq : belowFolders s dir entries =
    (entries.filter fun p => s.enters p.1).flatMap fun p => p.2.candidates s (pathIn dir p.1) := by
  induction entries with
  | nil => rfl
  | cons entry rest ih =>
    rw [belowFolders, ih, List.filter_cons]
    split <;> rfl

theorem sourceIn?_eq_some {p : String × Entry} : sourceIn? s dir p = some c ↔
    ∃ bytes, p.2 = .file bytes ∧ s.accepts p.1 = true ∧
      c = { path := pathIn dir p.1, size := bytes.length } := by
  obtain ⟨name, e⟩ := p
  cases e with
  | folder below => simp [sourceIn?]
  | file bytes =>
    rw [sourceIn?]
    simp [eq_comm (a := c)]

theorem mem_candidates_folder : c ∈ (Entry.folder entries).candidates s dir ↔
    (∃ name bytes, (name, Entry.file bytes) ∈ entries ∧ s.accepts name = true ∧
      c = { path := pathIn dir name, size := bytes.length }) ∨
    ∃ name e, (name, e) ∈ entries ∧ s.enters name = true ∧
      c ∈ e.candidates s (pathIn dir name) := by
  rw [Entry.candidates, List.mem_append, filesIn_eq, belowFolders_eq, List.mem_filterMap,
    List.mem_flatMap]
  simp only [sourceIn?_eq_some, List.mem_filter, Prod.exists, and_assoc]
  refine or_congr_left (exists_congr fun name => ⟨?_, ?_⟩)
  · rintro ⟨e, hmem, bytes, rfl, h⟩
    exact ⟨bytes, hmem, h⟩
  · rintro ⟨bytes, hmem, h⟩
    exact ⟨_, hmem, bytes, rfl, h⟩

end

namespace Entry

/-- **The search collects** what is reached through folders that are entered and is accepted. -/
theorem mem_candidates {e : Entry} {s : Selection} {outer : List String} {c : Candidate}
    (htree : e.IsTree) (houter : ∀ n ∈ outer, EntryName n) :
    c ∈ e.candidates s (pathOf outer) ↔ ∃ dirs name bytes,
      e.descend? (dirs ++ [name]) = some (.file bytes) ∧ (∀ dir ∈ dirs, s.enters dir = true) ∧
      s.accepts name = true ∧
      c = { path := pathOf (outer ++ (dirs ++ [name])), size := bytes.length } := by
  induction e using Entry.induct generalizing outer with
  | ofFile bytes =>
    simp only [candidates, List.not_mem_nil, false_iff]
    rintro ⟨dirs, name, bytes', hfile, -⟩
    cases dirs <;> cases hfile
  | ofFolder entries ih =>
    have hin {name : String} {e : Entry} (hmem : (name, e) ∈ entries) :
        c ∈ e.candidates s (pathIn (pathOf outer) name) ↔ ∃ dirs last bytes,
          e.descend? (dirs ++ [last]) = some (.file bytes) ∧ (∀ dir ∈ dirs, s.enters dir = true) ∧
          s.accepts last = true ∧
          c = { path := pathOf (outer ++ (name :: dirs ++ [last])), size := bytes.length } := by
      rw [pathIn_pathOf houter, ih name e hmem (htree.of_mem hmem)]
      · simp only [List.append_assoc, List.cons_append, List.nil_append]
      · exact List.forall_mem_append.2 ⟨houter, by simpa using htree.entryName hmem⟩
    rw [mem_candidates_folder]
    constructor
    · rintro (⟨name, bytes, hmem, haccepts, rfl⟩ | ⟨name, e, hmem, henters, hc⟩)
      · refine ⟨[], name, bytes, ?_, by simp, haccepts, ?_⟩
        · rw [List.nil_append, descend?, htree.child?.2 hmem]
          rfl
        · rw [pathIn_pathOf houter, List.nil_append]
      · obtain ⟨dirs, last, bytes, hfile, hdirs, haccepts, rfl⟩ := (hin hmem).1 hc
        refine ⟨name :: dirs, last, bytes, ?_, List.forall_mem_cons.2 ⟨henters, hdirs⟩, haccepts,
          rfl⟩
        rw [List.cons_append, descend?, htree.child?.2 hmem, Option.bind_some, hfile]
    · rintro ⟨dirs, last, bytes, hfile, hdirs, haccepts, rfl⟩
      cases dirs with
      | nil =>
        obtain ⟨e, hchild, hfile⟩ := Option.bind_eq_some_iff.1 hfile
        cases hfile
        exact .inl ⟨last, bytes, htree.child?.1 hchild, haccepts,
          by rw [pathIn_pathOf houter, List.nil_append]⟩
      | cons name dirs =>
        obtain ⟨e, hchild, hfile⟩ := Option.bind_eq_some_iff.1 hfile
        have hmem := htree.child?.1 hchild
        obtain ⟨henters, hdirs⟩ := List.forall_mem_cons.1 hdirs
        exact .inr ⟨name, e, hmem, henters,
          (hin hmem).2 ⟨dirs, last, bytes, hfile, hdirs, haccepts, rfl⟩⟩

theorem exists_names {e : Entry} {s : Selection} {outer : List String} {c : Candidate}
    (htree : e.IsTree) (houter : ∀ n ∈ outer, EntryName n)
    (hc : c ∈ e.candidates s (pathOf outer)) :
    ∃ names, names ≠ [] ∧ (∀ n ∈ names, EntryName n) ∧ c.path = pathOf (outer ++ names) := by
  obtain ⟨dirs, name, bytes, hfile, -, -, rfl⟩ := (mem_candidates htree houter).1 hc
  exact ⟨dirs ++ [name], by simp, htree.of_descend? hfile, rfl⟩

/-- **No path is collected twice.** -/
theorem nodup_candidates {e : Entry} {s : Selection} {outer : List String} (htree : e.IsTree)
    (houter : ∀ n ∈ outer, EntryName n) :
    ((e.candidates s (pathOf outer)).map Candidate.path).Nodup := by
  rw [List.Nodup, List.pairwise_map]
  induction e using Entry.induct generalizing outer with
  | ofFile bytes => exact .nil
  | ofFolder entries ih =>
    have hname {p : String × Entry} (hp : p ∈ entries) : ∀ n ∈ [p.1], EntryName n := by
      simpa using htree.entryName hp
    have hbelow {p : String × Entry} (hp : p ∈ entries) : ∀ n ∈ outer ++ [p.1], EntryName n :=
      List.forall_mem_append.2 ⟨houter, hname hp⟩
    -- The path of a source in the folder, and that of one below a subfolder of it.
    have hsource {p : String × Entry} {c : Candidate}
        (hc : sourceIn? s (pathOf outer) p = some c) : c.path = pathOf (outer ++ [p.1]) := by
      obtain ⟨bytes, -, -, rfl⟩ := sourceIn?_eq_some.1 hc
      exact pathIn_pathOf houter p.1
    have hinner {p : String × Entry} (hp : p ∈ entries) {c : Candidate}
        (hc : c ∈ p.2.candidates s (pathIn (pathOf outer) p.1)) :
        ∃ names, names ≠ [] ∧ (∀ n ∈ p.1 :: names, EntryName n) ∧
          c.path = pathOf (outer ++ p.1 :: names) := by
      rw [pathIn_pathOf houter] at hc
      obtain ⟨names, hne, hnames, hpath⟩ := exists_names (htree.of_mem hp) (hbelow hp) hc
      exact ⟨names, hne, List.forall_mem_cons.2 ⟨htree.entryName hp, hnames⟩, by simpa using hpath⟩
    have hdistinct : entries.Pairwise fun p q => p.1 ≠ q.1 := List.pairwise_map.1 htree.nodup
    rw [candidates, filesIn_eq, belowFolders_eq, List.pairwise_append, List.pairwise_filterMap,
      List.pairwise_flatMap]
    refine ⟨?sources, ⟨?inside, ?across⟩, ?between⟩
    case sources =>
      refine hdistinct.imp_of_mem fun {p q} hp hq hne c hc c' hc' heq => hne ?_
      rw [hsource hc, hsource hc'] at heq
      exact List.head_eq_of_cons_eq
        (append_inj_of_pathOf houter (hname hp) (hname hq) (by simp) (by simp) heq)
    case inside =>
      intro p hp
      have hp := (List.mem_filter.1 hp).1
      rw [pathIn_pathOf houter]
      exact ih p.1 p.2 hp (htree.of_mem hp) (hbelow hp)
    case across =>
      refine (hdistinct.filter _).imp_of_mem fun {p q} hp hq hne c hc c' hc' heq => hne ?_
      obtain ⟨names, -, hnames, hpath⟩ := hinner (List.mem_filter.1 hp).1 hc
      obtain ⟨names', -, hnames', hpath'⟩ := hinner (List.mem_filter.1 hq).1 hc'
      rw [hpath, hpath'] at heq
      exact List.head_eq_of_cons_eq
        (append_inj_of_pathOf houter hnames hnames' (by simp) (by simp) heq)
    case between =>
      intro c hc c' hc' heq
      obtain ⟨p, hp, hc⟩ := List.mem_filterMap.1 hc
      obtain ⟨q, hq, hc'⟩ := List.mem_flatMap.1 hc'
      obtain ⟨names, hne, hnames, hpath⟩ := hinner (List.mem_filter.1 hq).1 hc'
      rw [hsource hc, hpath] at heq
      exact hne (List.tail_eq_of_cons_eq
        (append_inj_of_pathOf houter (hname hp) hnames (by simp) (by simp) heq)).symm

end Entry

/-! ## Extensions -/

namespace Path

theorem extension_join {outer : List (List Char)} {name : List Char} (h : '/' ∉ name) :
    extension (join (outer ++ [name])) = extension name := by
  have hslash : '/' ∉ name.reverse := by simpa using h
  have hlast : (join (outer ++ [name])).reverse.takeWhile (· != '/') = name.reverse := by
    by_cases hone : outer = []
    · rw [hone, List.nil_append, join_singleton, takeWhile_ne_self hslash]
    · rw [join_concat hone, List.reverse_append, List.reverse_cons, List.append_assoc]
      exact takeWhile_ne_append hslash _
  unfold extension
  rw [hlast, takeWhile_ne_self hslash]

/-- An extension follows the last dot of a name, and something stands before this dot. -/
theorem exists_stem_of_extension {name : List Char} (h : '/' ∉ name) (hne : extension name ≠ []) :
    ∃ stem ext, name = stem ++ '.' :: ext ∧ stem ≠ [] ∧ '.' ∉ ext ∧
      extension name = '.' :: ext := by
  have hlast : (name.reverse.takeWhile (· != '/')).reverse = name := by
    rw [takeWhile_ne_self (by simpa using h), List.reverse_reverse]
  unfold extension at hne ⊢
  rw [hlast] at hne ⊢
  dsimp only at hne ⊢
  -- The body begins with no dot, so the last dot of it has something before it.
  have hbody : (name.dropWhile (· == '.')).head? ≠ some '.' := by
    intro hdot
    have := List.head?_dropWhile_not (· == '.') name
    rw [hdot] at this
    simp at this
  have hname := (List.takeWhile_append_dropWhile (p := (· == '.')) (l := name)).symm
  generalize name.dropWhile (· == '.') = body at *
  have hdot : '.' ∈ body.reverse := by
    by_contra hnone
    exact hne (if_pos (by rw [takeWhile_ne_self hnone, List.length_reverse]))
  obtain ⟨tail, rest, hsplit, hplain⟩ := List.eq_append_cons_of_mem hdot
  have heq : body = rest.reverse ++ '.' :: tail.reverse := by
    rw [← List.reverse_reverse body, hsplit]
    simp
  have htail : body.reverse.takeWhile (· != '.') = tail := by
    rw [hsplit, takeWhile_ne_append hplain]
  have hlength : tail.length ≠ body.length := by
    rw [heq, List.length_append, List.length_cons, List.length_reverse, List.length_reverse]
    omega
  rw [htail, if_neg hlength]
  refine ⟨name.takeWhile (· == '.') ++ rest.reverse, tail.reverse, ?_, ?_, by simpa using hplain,
    rfl⟩
  · rw [List.append_assoc, ← heq]
    exact hname
  · intro hnil
    obtain ⟨-, hrest⟩ := List.append_eq_nil_iff.1 hnil
    rw [heq, hrest] at hbody
    exact hbody rfl

end Path

theorem Language.ofExtension?_of_mem {low : String} {language : Language}
    (h : low ∈ language.extensions) : Language.ofExtension? low = some language := by
  revert low
  cases language <;> decide

/-- **What is found by its extension** has the same language by the suffix of its path. -/
theorem Language.ofPath?_of_accepted {dirs : List String} {name : String}
    (hnames : ∀ n ∈ dirs ++ [name], EntryName n)
    (h : Path.extensionOf name ∈ Language.sourceExtensions) :
    ∃ language, Language.ofExtension? (Path.extensionOf name) = some language ∧
      Language.ofPath? (pathOf (dirs ++ [name])) = some language := by
  obtain ⟨language, -, hlanguage⟩ := List.mem_flatMap.1 h
  refine ⟨language, ofExtension?_of_mem hlanguage, ?_⟩
  have hname : EntryName name := hnames name (by simp)
  have hne : Path.extension name.toList ≠ [] := by
    intro hnone
    rw [Path.extensionOf, hnone] at hlanguage
    revert hlanguage
    cases language <;> decide
  obtain ⟨stem, ext, heq, hstem, hdot, hext⟩ := Path.exists_stem_of_extension hname.plain hne
  have hsplit := split_pathOf hnames (by simp)
  have hparts : Path.split (pathOf (dirs ++ [name])).toList =
      dirs.map String.toList ++ [stem ++ '.' :: ext] := by
    rw [hsplit, List.map_append, List.map_singleton, heq]
  refine ofPath?_of_extension hparts ?_ hstem hdot ?_
  · rw [hsplit]
    exact isName_of_mem_map hnames
  · rw [lowered, String.toList_ofList, ← hext]
    exact hlanguage

/-! ## The search -/

theorem extensionOf_pathOf {dirs : List String} {name : String} (h : EntryName name) :
    Path.extensionOf (pathOf (dirs ++ [name])) = Path.extensionOf name := by
  rw [Path.extensionOf, Path.extensionOf, pathOf, String.toList_ofList, List.map_append,
    List.map_singleton, Path.extension_join h.plain]

/-- A source file: the names of the folders that lead to it are not excluded, those that start with
a dot count only if asked for, and the extension belongs to a language. -/
structure Entry.Source (e : Entry) (excluded : String → Prop) (hidden : Bool) (dirs : List String)
    (name : String) (bytes : List Nat) : Prop where
  file : e.descend? (dirs ++ [name]) = some (.file bytes)
  entered : ∀ dir ∈ dirs, ¬ excluded dir ∧ (hidden = true ∨ dir.toList.head? ≠ some '.')
  visible : hidden = true ∨ name.toList.head? ≠ some '.'
  supported : Path.extensionOf name ∈ Language.sourceExtensions

theorem Selection.enters_iff {s : Selection} {dir : String} : s.enters dir = true ↔
    dir ∉ s.excluded ∧ (s.hidden = true ∨ dir.toList.head? ≠ some '.') := by
  simp [enters, visible]

theorem Selection.accepts_iff {s : Selection} {name : String} : s.accepts name = true ↔
    (s.hidden = true ∨ name.toList.head? ≠ some '.') ∧
      Path.extensionOf name ∈ Language.sourceExtensions := by
  simp [accepts, visible]

namespace Entry

/-- The search collects the source files. -/
theorem mem_candidates_iff {e : Entry} {s : Selection} {c : Candidate} (htree : e.IsTree) :
    c ∈ e.candidates s "" ↔ ∃ dirs name bytes,
      e.Source (· ∈ s.excluded) s.hidden dirs name bytes ∧
      c = { path := pathOf (dirs ++ [name]), size := bytes.length } := by
  rw [← pathOf_nil, mem_candidates htree fun _ h => absurd h List.not_mem_nil]
  refine exists_congr fun dirs => exists_congr fun name => exists_congr fun bytes => ?_
  constructor
  · rintro ⟨hfile, hdirs, haccepts, rfl⟩
    obtain ⟨hvisible, hsupported⟩ := Selection.accepts_iff.1 haccepts
    exact ⟨⟨hfile, fun dir hdir => Selection.enters_iff.1 (hdirs dir hdir), hvisible, hsupported⟩,
      rfl⟩
  · rintro ⟨hsource, rfl⟩
    exact ⟨hsource.file, fun dir hdir => Selection.enters_iff.2 (hsource.entered dir hdir),
      Selection.accepts_iff.2 ⟨hsource.visible, hsource.supported⟩, rfl⟩

theorem candidates_ne_nil_iff {e : Entry} {s : Selection} (htree : e.IsTree) :
    e.candidates s "" ≠ [] ↔
      ∃ dirs name bytes, e.Source (· ∈ s.excluded) s.hidden dirs name bytes := by
  constructor
  · intro hne
    obtain ⟨c, hc⟩ := List.exists_mem_of_ne_nil _ hne
    obtain ⟨dirs, name, bytes, hsource, -⟩ := (mem_candidates_iff htree).1 hc
    exact ⟨dirs, name, bytes, hsource⟩
  · rintro ⟨dirs, name, bytes, hsource⟩
    exact List.ne_nil_of_mem ((mem_candidates_iff htree).2 ⟨dirs, name, bytes, hsource, rfl⟩)

/-- The files that are recorded are the source files within the limit. -/
theorem mem_records {e : Entry} {s : Selection} {limit : Int} {r : FileRecord}
    (htree : e.IsTree) :
    r ∈ ((e.candidates s "").filter fun c => decide ((c.size : Int) ≤ limit)).map
        (fun c => FileRecord.ofPath c.path) ↔
      ∃ dirs name bytes, e.Source (· ∈ s.excluded) s.hidden dirs name bytes ∧
        (bytes.length : Int) ≤ limit ∧
        r = { path := pathOf (dirs ++ [name]), extension := Path.extensionOf name } := by
  have hrecord {dirs : List String} {name : String} {bytes : List Nat}
      (hfile : e.descend? (dirs ++ [name]) = some (.file bytes)) :
      FileRecord.ofPath (pathOf (dirs ++ [name])) =
        { path := pathOf (dirs ++ [name]), extension := Path.extensionOf name } := by
    rw [FileRecord.ofPath, extensionOf_pathOf (htree.of_descend? hfile name (by simp))]
  simp only [List.mem_map, List.mem_filter, decide_eq_true_eq, mem_candidates_iff htree]
  constructor
  · rintro ⟨c, ⟨⟨dirs, name, bytes, hsource, rfl⟩, hsize⟩, rfl⟩
    exact ⟨dirs, name, bytes, hsource, hsize, hrecord hsource.file⟩
  · rintro ⟨dirs, name, bytes, hsource, hsize, rfl⟩
    exact ⟨_, ⟨⟨dirs, name, bytes, hsource, rfl⟩, hsize⟩, hrecord hsource.file⟩

/-- The records stand in the strict order of their paths. -/
theorem records_pairwise {e : Entry} {s : Selection} {limit : Int} (htree : e.IsTree) :
    (sortRecords (((e.candidates s "").filter fun c => decide ((c.size : Int) ≤ limit)).map
      fun c => FileRecord.ofPath c.path)).Pairwise fun r r' => r.path < r'.path := by
  refine pairwise_lt_mergeSort (fun _ _ => decide_eq_true_iff) ?_
  rw [List.map_map]
  have hnodup : ((e.candidates s (pathOf [])).map Candidate.path).Nodup :=
    nodup_candidates htree fun _ h => absurd h List.not_mem_nil
  exact hnodup.sublist (List.filter_sublist.map Candidate.path)

end Entry

/-! ## Settings of a search -/

/-- The value lists the name: as one of its elements, of its characters or of its keys. -/
def Value.Lists : Value → String → Prop
  | .list items, name => .str name ∈ items
  | .str s, name => ∃ c ∈ s.toList, name = String.singleton c
  | .table fields, name => name ∈ fields.map Prod.fst
  | _, _ => False

theorem mem_namesAmong {items : List Value} {names : List String}
    (h : namesAmong items = .ok names) {name : String} : name ∈ names ↔ .str name ∈ items := by
  induction items generalizing names with
  | nil =>
    cases h
    simp
  | cons v items ih =>
    unfold namesAmong at h
    cases v with
    | list _ | table _ => cases h
    | str s =>
      obtain ⟨rest, hrest, h⟩ := Outcome.bind_eq_ok.1 h
      cases h
      simp [ih hrest]
    | null | bool _ | int _ | float _ | moment _ => simp [ih h]

theorem mem_namesListed {v : Value} {names : List String} (h : namesListed v = .ok names)
    {name : String} : name ∈ names ↔ v.Lists name := by
  cases v with
  | list items => exact mem_namesAmong h
  | str s =>
    cases h
    simp [Value.Lists, eq_comm]
  | table fields =>
    cases h
    rfl
  | null | bool _ | int _ | float _ | moment _ => cases h

namespace Settings

/-- A file of this size is not too large. -/
def Within (s : Settings) (size : Nat) : Prop :=
  ∃ limit, s.maxFileBytes = .ok limit ∧ (size : Int) ≤ limit

/-- A selection leaves out the names that the settings list. -/
theorem excluded_of_selection {s : Settings} {sel : Selection} (h : s.selection = .ok sel) :
    (· ∈ sel.excluded) = s.excluded.Lists ∧ sel.hidden = s.hidden.truthy := by
  obtain ⟨names, hnames, h⟩ := Outcome.bind_eq_ok.1 h
  cases h
  exact ⟨funext fun name => propext (mem_namesListed hnames), rfl⟩

end Settings

/-! ## The eligible files -/

/-- What a search has to find under a root: in strict order the source files within the limit, each
of which has one language by its extension and by the suffix of its path. -/
structure Discovery.Exact (d : Discovery) (e : Entry) (s : Settings) : Prop where
  ordered : d.records.Pairwise fun r r' => r.path < r'.path
  records : ∀ r, r ∈ d.records ↔ ∃ dirs name bytes,
    e.Source s.excluded.Lists s.hidden.truthy dirs name bytes ∧ s.Within bytes.length ∧
    r = { path := pathOf (dirs ++ [name]), extension := Path.extensionOf name }
  languages : ∀ r ∈ d.records, ∃ language, Language.ofExtension? r.extension = some language ∧
    Language.ofPath? r.path = some language

/-- A search that answers found nothing to measure, or measured what it found. -/
theorem Entry.discover_eq_ok {e : Entry} {s : Selection} {d : Discovery}
    (h : e.discover s = .ok d) : (e.candidates s "" = [] ∧ d.records = []) ∨
      ∃ limit, s.sizeLimit = .ok limit ∧ d.records = sortRecords (((e.candidates s "").filter
        fun c => decide ((c.size : Int) ≤ limit)).map fun c => FileRecord.ofPath c.path) := by
  unfold discover at h
  dsimp only at h
  split at h
  · rename_i hempty
    cases h
    exact .inl ⟨List.isEmpty_iff.1 hempty, rfl⟩
  · obtain ⟨limit, hlimit, h⟩ := Outcome.bind_eq_ok.1 h
    cases h
    exact .inr ⟨limit, hlimit, by rw [List.partition_eq_filter_filter]⟩

/-- **What a search finds** in a tree is what it has to find. -/
theorem Entry.exact_of_discover {e : Entry} {s : Settings} {sel : Selection} {d : Discovery}
    (htree : e.IsTree) (hsel : s.selection = .ok sel) (hd : e.discover sel = .ok d) :
    d.Exact e s := by
  obtain ⟨hexcluded, hhidden⟩ := Settings.excluded_of_selection hsel
  have hrecords : d.records.Pairwise (fun r r' => r.path < r'.path) ∧
      ∀ r, r ∈ d.records ↔ ∃ dirs name bytes,
        e.Source s.excluded.Lists s.hidden.truthy dirs name bytes ∧ s.Within bytes.length ∧
        r = { path := pathOf (dirs ++ [name]), extension := Path.extensionOf name } := by
    rw [← hexcluded, ← hhidden]
    rcases discover_eq_ok hd with ⟨hnone, hempty⟩ | ⟨limit, hlimit, hsorted⟩
    · rw [hempty]
      refine ⟨.nil, fun r => iff_of_false List.not_mem_nil ?_⟩
      rintro ⟨dirs, name, bytes, hsource, -⟩
      exact (candidates_ne_nil_iff htree).2 ⟨dirs, name, bytes, hsource⟩ hnone
    · rw [Settings.sizeLimit_of_selection hsel] at hlimit
      have hwithin (size : Nat) : s.Within size ↔ (size : Int) ≤ limit := by
        simp [Settings.Within, hlimit]
      rw [hsorted]
      refine ⟨records_pairwise htree, fun r => ?_⟩
      rw [mem_sortRecords, mem_records htree]
      simp only [hwithin]
  refine ⟨hrecords.1, hrecords.2, fun r hr => ?_⟩
  obtain ⟨dirs, name, bytes, hsource, -, rfl⟩ := (hrecords.2 r).1 hr
  exact Language.ofPath?_of_accepted (htree.of_descend? hsource.file) hsource.supported

/-- **The search finds the eligible files**, each of them once and in the order of the paths, and
the extension of a record and the suffix of its path belong to the same language. It is a fault
exactly where the names to leave out are not listed, or the size limit is not finite in bytes and
there is a source file to measure by it. -/
theorem Host.discover_exact {h : Host} {root : String} {entries : List (String × Entry)}
    (hfolder : h.HasFolder root entries) (htree : (Entry.folder entries).IsTree) (s : Settings) :
    (Faulty (h.discover root s.selection) ↔ ¬ s.excluded.Listable ∨
      ¬ s.maxFileSize.Sized ∧ ∃ dirs name bytes,
        (Entry.folder entries).Source s.excluded.Lists s.hidden.truthy dirs name bytes) ∧
    (¬ Faulty (h.discover root s.selection) →
      ∃ d, h.discover root s.selection = .ok d ∧ d.Exact (.folder entries) s) := by
  constructor
  · rw [hfolder.discover_faulty_iff]
    refine or_congr_right' fun hnames => ?_
    obtain ⟨sel, hsel⟩ := s.selection_unfailing.faulty_or_ok.resolve_left
      (mt s.selection_faulty_iff.1 hnames)
    obtain ⟨hexcluded, hhidden⟩ := Settings.excluded_of_selection hsel
    have hsources := @Entry.candidates_ne_nil_iff (.folder entries) sel htree
    rw [hexcluded, hhidden] at hsources
    rw [← hsources]
    simp [hsel, and_comm]
  · intro hfree
    obtain ⟨d, hd⟩ := hfolder.discover_unfailing.faulty_or_ok.resolve_left hfree
    refine ⟨d, hd, ?_⟩
    rw [hfolder.discover] at hd
    obtain ⟨sel, hsel, hd⟩ := Outcome.bind_eq_ok.1 hd
    exact Entry.exact_of_discover htree hsel hd

/-- The double, where a number is one. -/
def Number.double? : Number → Option Float
  | .float x => some x
  | _ => none

/-- **A limit that is positive and finite in megabytes** but not in bytes is accepted, and ends the
search once there is a source file. -/
theorem Host.discover_overflows : ∃ s x,
    (moduleHost "max_file_size_mb = 1e308\n").loadSettings none {} = .ok s ∧
    s.maxFileSize = .float x ∧
    Decimal.Binary.ofFloat x = .finite false 5010420900022432 971 ∧
    (moduleHost "max_file_size_mb = 1e308\n").discover "/src" s.selection =
      misuse .overflow "cannot convert float infinity to integer" := by
  obtain ⟨s, hs, hfault⟩ := Host.exists_fault (h := moduleHost "max_file_size_mb = 1e308\n")
    (x := fun s => (moduleHost "max_file_size_mb = 1e308\n").discover "/src" s.selection)
    (f := ⟨.overflow, "cannot convert float infinity to integer"⟩) (by decide +kernel)
  have hsize : (((moduleHost "max_file_size_mb = 1e308\n").loadSettings none {}).toOption.bind
      fun s => s.maxFileSize.double?.map Decimal.Binary.ofFloat) =
        some (.finite false 5010420900022432 971) := by decide +kernel
  rw [hs] at hsize
  cases hmax : s.maxFileSize with
  | float x =>
    exact ⟨s, x, hs, hmax, by simpa [Except.toOption, hmax, Number.double?] using hsize, hfault⟩
  | flag _ | int _ => simp [Except.toOption, hmax, Number.double?] at hsize

/-- A folder with a subfolder that stands between two files in the order of the paths, and with
things that are left out. -/
def nestedEntries : List (String × Entry) :=
  [("node_modules", .folder [("x.js", .file [])]),
    ("a0.py", .file [10]),
    ("a", .folder [("b.c.TS", .file [10]), (".hidden.py", .file [])]),
    ("a-.py", .file []),
    ("notes.md", .file [])]

/-- Settings with a size limit in whole megabytes. -/
def wholeLimit : Settings := { maxFileSize := .int 1, excluded := .list [.str "node_modules"] }

/-- A file is found in a subfolder, by an extension in upper case behind another dot, and one that
is excluded with its folder is not. -/
theorem Host.discover_exact_nested :
    let h : Host := { root := .folder [("p", .folder nestedEntries)] }
    h.HasFolder "/p" nestedEntries ∧ (Entry.folder nestedEntries).IsTree ∧
    ∃ d, h.discover "/p" wholeLimit.selection = .ok d ∧
      d.records.Pairwise (fun r r' => r.path < r'.path) ∧
      { path := "a/b.c.TS", extension := ".ts" } ∈ d.records ∧
      ∀ r ∈ d.records, r.path ≠ "node_modules/x.js" := by
  intro h
  have hfolder : h.HasFolder "/p" nestedEntries := rfl
  have htree : (Entry.folder nestedEntries).IsTree := by
    have hmodules : (Entry.folder [("x.js", .file [])]).IsTree :=
      Entry.isTree_folder (by decide) (by simpa [Entry.isTree_file] using by decide)
    have hsub : (Entry.folder [("b.c.TS", .file [10]), (".hidden.py", .file [])]).IsTree :=
      Entry.isTree_folder (by decide) (by simpa [Entry.isTree_file] using by decide)
    refine Entry.isTree_folder (by decide) ?_
    simpa [nestedEntries, Entry.isTree_file, hmodules, hsub] using by decide
  obtain ⟨hfaulty, hfinds⟩ := Host.discover_exact hfolder htree wholeLimit
  have hfree : ¬ Faulty (h.discover "/p" wholeLimit.selection) := by
    rw [hfaulty]
    rintro (hnames | ⟨hsize, -⟩)
    · exact hnames (.list (by simp [Toml.isCompound]))
    · exact hsize (.inl ⟨1, rfl⟩)
  obtain ⟨d, hd, hexact⟩ := hfinds hfree
  refine ⟨hfolder, htree, d, hd, hexact.ordered, ?_, fun r hr hpath => ?_⟩
  · refine (hexact.records _).2 ⟨["a"], "b.c.TS", [10], ?_, ⟨1048576, rfl, by decide⟩, by decide⟩
    exact ⟨rfl, by simp [Value.Lists, wholeLimit], by decide, by decide⟩
  · obtain ⟨dirs, name, bytes, hsource, -, rfl⟩ := (hexact.records r).1 hr
    have hnames : dirs ++ [name] = ["node_modules"] ++ ["x.js"] :=
      pathOf_inj (htree.of_descend? hsource.file) (by decide) (by simp) (by simp)
        (hpath.trans (by decide))
    obtain ⟨rfl, -⟩ := List.append_inj' hnames rfl
    exact (hsource.entered "node_modules" (by simp)).1 (by simp [Value.Lists, wholeLimit])

end EvidenceLock
