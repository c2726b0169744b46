import EvidenceLock.Proofs.PathWalk
import EvidenceLock.Signal.Dependency

/-!
# What an import stands for

A relative specifier is walked from the folder of the importing file. Where the walk ends
(`Path.walk`), a file is looked for in a fixed order: the place itself, the place with an extension,
and an index file in it (`placesTried`). `resolveImport_walk` says that this is what is found, and
that a walk which leaves the root finds nothing.
-/

namespace EvidenceLock

open EvidenceLock.Text

namespace Path

theorem isOrdinary_iff {part : List Char} :
    IsOrdinary part ↔ part ≠ [] ∧ part ≠ here ∧ '/' ∉ part ∧ ¬ above <+: part :=
  ⟨fun h => ⟨h.ne_nil, h.ne_here, h.plain, h.not_above⟩, fun h => ⟨⟨h.1, h.2.1, h.2.2.1⟩, h.2.2.2⟩⟩

instance (part : List Char) : Decidable (IsOrdinary part) := decidable_of_iff _ isOrdinary_iff.symm

end Path

/-- Every part of the path can stand for a file or a folder. -/
def HasOrdinaryParts (path : String) : Prop :=
  ∀ part ∈ Path.split path.toList, Path.IsOrdinary part

instance (path : String) : Decidable (HasOrdinaryParts path) :=
  inferInstanceAs (Decidable (∀ part ∈ Path.split path.toList, Path.IsOrdinary part))

/-- The path leads from the root through the folders `outer` to a source file of a language. -/
structure IsSource (path : String) (outer : List (List Char)) (language : Language) : Prop where
  ordinary : HasOrdinaryParts path
  file : ∃ stem ext, Path.split path.toList = outer ++ [stem ++ '.' :: ext] ∧ stem ≠ [] ∧
    '.' ∉ ext ∧ lowered (String.ofList ('.' :: ext)) ∈ language.extensions

/-- The files that an import which leads to a place may stand for: one of this name, one with an
extension behind it, and an index file in the folder of this name. The root has no name. -/
def placesTried (language : Language) (place : List (List Char)) : List String :=
  let named :=
    if place = [] then []
    else
      Path.join place :: language.resolveExtensions.map fun ext => Path.join place ++ ext.toList
  let indexes := language.indexStems.flatMap fun stem =>
    language.resolveExtensions.map fun ext => Path.join (place ++ [(stem ++ ext).toList])
  (named ++ indexes).map String.ofList

variable {known : String → Bool} {importer specifier : String} {outer : List (List Char)}
  {language : Language}

/-! ## The importing file -/

theorem IsSource.ofPath? (h : IsSource importer outer language) :
    Language.ofPath? importer = some language := by
  obtain ⟨stem, ext, hparts, hstem, hdot, hlanguage⟩ := h.file
  exact Language.ofPath?_of_extension hparts (fun part hpart => (h.ordinary part hpart).toIsName)
    hstem hdot hlanguage

theorem IsSource.outer_ordinary (h : IsSource importer outer language) :
    ∀ name ∈ outer, Path.IsOrdinary name := by
  obtain ⟨stem, ext, hparts, -⟩ := h.file
  intro name hname
  exact h.ordinary name (by rw [hparts]; exact List.mem_append_left _ hname)

theorem IsSource.outer_isName (h : IsSource importer outer language) :
    ∀ name ∈ outer, Path.IsName name :=
  fun name hname => (h.outer_ordinary name hname).toIsName

theorem IsSource.above_not_mem (h : IsSource importer outer language) : Path.above ∉ outer :=
  fun hmem => (h.outer_ordinary _ hmem).ne_above rfl

/-- A walk from the folder of a file passes names only. -/
theorem IsSource.place_isName (h : IsSource importer outer language) {p : List Char}
    {place : List (List Char)} (hplace : Path.walk outer (Path.split p) = some place) :
    (∀ name ∈ place, Path.IsName name) ∧ Path.above ∉ place :=
  ⟨Path.isName_of_walk (fun _ => Path.plain_of_mem_split) h.outer_isName hplace,
    (Path.foldl_pushPart_of_walk h.above_not_mem hplace).2⟩

theorem IsSource.folder_eq (h : IsSource importer outer language) :
    Path.folder importer.toList = Path.join outer := by
  obtain ⟨stem, ext, hparts, -⟩ := h.file
  have hfile : '/' ∉ stem ++ '.' :: ext :=
    Path.plain_of_mem_split (by rw [hparts]; exact List.mem_append_right _ (List.mem_singleton_self _))
  rw [← Path.join_split importer.toList, hparts]
  exact Path.folder_join h.outer_isName hfile

/-! ## Leaving the root -/

theorem escapes_join_above (rest : List (List Char)) :
    escapes (Path.join (Path.above :: rest)) = true := by
  cases rest with
  | nil => simp [escapes, Path.join, List.intercalate]
  | cons next rest =>
    rw [escapes, Path.join_cons_cons, Bool.or_eq_true]
    right
    rw [startsWith, List.isPrefixOf_iff_prefix]
    exact ⟨Path.join (next :: rest), by simp⟩

theorem escapes_toPlace {place : List (List Char)} (hname : ∀ name ∈ place, Path.IsName name)
    (habove : Path.above ∉ place) : escapes (Path.toPlace place) = false := by
  cases place with
  | nil => decide
  | cons name names =>
    have hsplit : Path.split (Path.join (name :: names)) = name :: names :=
      Path.split_join (fun n hn => (hname n hn).plain) (List.cons_ne_nil _ _)
    have hne : name ≠ Path.above := fun he => habove (he ▸ List.mem_cons_self)
    rw [Path.toPlace, if_neg (List.cons_ne_nil _ _), escapes, Bool.or_eq_false_iff]
    constructor
    · rw [beq_eq_false_iff_ne]
      intro hpath
      rw [hpath] at hsplit
      exact hne (List.cons.inj hsplit).1.symm
    · rw [startsWith, Bool.eq_false_iff, Ne, List.isPrefixOf_iff_prefix]
      rintro ⟨rest, hpath⟩
      rw [← hpath, List.append_assoc, List.singleton_append, Path.split_append_slash] at hsplit
      exact hne (List.cons.inj hsplit).1.symm

/-! ## Looking for a file -/

/-- An import is looked for where the walk from the folder of its file ends. -/
theorem resolveImport_eq (hsource : IsSource importer outer language)
    (hrelative : specifier.toList.head? = some '.') :
    resolveImport known importer specifier =
      (Path.walk outer (Path.split specifier.toList)).bind fun place =>
        ((importCandidates language (Path.toPlace place)).map String.ofList).find? known := by
  have hroot : specifier.toList.head? ≠ some '/' := by
    rw [hrelative]
    decide
  have hwalk := Path.walk_folder_append hsource.outer_isName hsource.above_not_mem hroot
  have hhead := Path.head?_append hsource.outer_isName hroot
  unfold resolveImport
  rw [if_pos (by rw [isRelative, hrelative]; rfl), hsource.ofPath?, hsource.folder_eq]
  change (if escapes (Path.normalize _) = true then none else _) = _
  rw [← hwalk]
  cases hplace : Path.walk [] (Path.split (Path.append (Path.join outer) specifier.toList)) with
  | none =>
    obtain ⟨rest, hrest⟩ := Path.normalize_of_leaving hhead hplace
    rw [hrest, if_pos (escapes_join_above rest), Option.bind_none]
  | some place =>
    obtain ⟨hname, habove⟩ := hsource.place_isName (hwalk ▸ hplace)
    rw [Path.normalize_of_walk hhead hplace, escapes_toPlace hname habove,
      if_neg Bool.false_ne_true, Option.bind_some]

/-- The name of an index file is an ordinary one. -/
theorem isOrdinary_index : ∀ stem ∈ language.indexStems, ∀ ext ∈ language.resolveExtensions,
    Path.IsOrdinary (stem ++ ext).toList := by
  cases language <;> decide +kernel

theorem importCandidates_toPlace {place : List (List Char)}
    (hname : ∀ name ∈ place, Path.IsName name) (habove : Path.above ∉ place) :
    importCandidates language (Path.toPlace place) =
      (Path.toPlace place ::
        language.resolveExtensions.map fun ext => Path.toPlace place ++ ext.toList) ++
      language.indexStems.flatMap fun stem =>
        language.resolveExtensions.map fun ext => Path.join (place ++ [(stem ++ ext).toList]) := by
  rw [importCandidates]
  congr 1
  refine List.flatMap_congr fun stem hstem => List.map_congr_left fun ext hext => ?_
  exact Path.normalize_append_name hname habove (isOrdinary_index stem hstem ext hext)

/-- At a place that has a name, everything that is tried has one. -/
theorem importCandidates_of_ne_nil {place : List (List Char)}
    (hname : ∀ name ∈ place, Path.IsName name) (habove : Path.above ∉ place) (hne : place ≠ []) :
    (importCandidates language (Path.toPlace place)).map String.ofList =
      placesTried language place := by
  rw [importCandidates_toPlace hname habove, Path.toPlace, if_neg hne, placesTried, if_neg hne]

/-- At the root only an index file is found: what stands for the root is no name of a file, with an
extension or without. -/
theorem find?_importCandidates_root (hknown : ∀ path, known path = true → HasOrdinaryParts path) :
    ((importCandidates language (Path.toPlace [])).map String.ofList).find? known =
      (placesTried language []).find? known := by
  have hodd : ∀ p ∈ Path.here :: language.resolveExtensions.map fun ext => Path.here ++ ext.toList,
      ¬ HasOrdinaryParts (String.ofList p) := by
    cases language <;> decide +kernel
  have hnone : ((Path.here :: language.resolveExtensions.map fun ext =>
      Path.here ++ ext.toList).map String.ofList).find? known = none := by
    rw [List.find?_eq_none]
    intro path hpath hfound
    obtain ⟨p, hp, rfl⟩ := List.mem_map.1 hpath
    exact hodd p hp (hknown _ hfound)
  rw [importCandidates_toPlace (by simp) List.not_mem_nil, List.map_append, List.find?_append]
  rw [Path.toPlace, if_pos rfl, hnone, Option.none_or, placesTried, if_pos rfl, List.nil_append]

/-- **An import is a walk** from the folder of its file. Let the parts of all known paths be
ordinary. A relative specifier stands for the first known path among those that are tried at the
place where the walk ends. There is none if the walk leaves the root, and none for a specifier that
is not relative. -/
theorem resolveImport_walk (known : String → Bool) (importer specifier : String) :
    (specifier.toList.head? ≠ some '.' → resolveImport known importer specifier = none) ∧
    ∀ {outer : List (List Char)} {language : Language}, IsSource importer outer language →
      (∀ path, known path = true → HasOrdinaryParts path) →
      specifier.toList.head? = some '.' →
      resolveImport known importer specifier =
        (Path.walk outer (Path.split specifier.toList)).bind fun place =>
          (placesTried language place).find? known := by
  constructor
  · intro hpackage
    rw [resolveImport, if_neg (by simpa [isRelative] using hpackage)]
  · intro outer language hsource hknown hrelative
    rw [resolveImport_eq hsource hrelative]
    cases hplace : Path.walk outer (Path.split specifier.toList) with
    | none => rfl
    | some place =>
      rw [Option.bind_some, Option.bind_some]
      by_cases hroot : place = []
      · rw [hroot]
        exact find?_importCandidates_root hknown
      · obtain ⟨hname, habove⟩ := hsource.place_isName hplace
        rw [importCandidates_of_ne_nil hname habove hroot]

/-- A file two folders below the root. -/
theorem mainFile_isSource :
    IsSource "src/lib/main.ts" ["src".toList, "lib".toList] .typescript where
  ordinary := by decide +kernel
  file := ⟨"main".toList, "ts".toList, by decide +kernel⟩

/-- From a file in `src/lib`, the index file of a folder beside `lib` and one at the root are found,
nothing is found above the root even if the path leads back, and a package is no file. -/
theorem resolveImport_walk_mainFile :
    let known := ["index.ts", "src/b/index.js", "src/b.d/x.ts"].contains
    resolveImport known "src/lib/main.ts" ".././/b/" = some "src/b/index.js" ∧
    resolveImport known "src/lib/main.ts" "./x/../../.." = some "index.ts" ∧
    resolveImport known "src/lib/main.ts" "../../../src/b" = none ∧
    resolveImport known "src/lib/main.ts" "src/b" = none := by
  intro known
  have hknown : ∀ path, known path = true → HasOrdinaryParts path := by
    intro path hpath
    have hall : ∀ path ∈ ["index.ts", "src/b/index.js", "src/b.d/x.ts"], HasOrdinaryParts path := by
      decide +kernel
    exact hall path (List.contains_iff_mem.1 hpath)
  refine ⟨?_, ?_, ?_, (resolveImport_walk known _ _).1 (by decide)⟩
  · rw [(resolveImport_walk known _ _).2 mainFile_isSource hknown (by decide)]
    decide +kernel
  · rw [(resolveImport_walk known _ _).2 mainFile_isSource hknown (by decide)]
    decide +kernel
  · rw [(resolveImport_walk known _ _).2 mainFile_isSource hknown (by decide)]
    decide +kernel

end EvidenceLock
