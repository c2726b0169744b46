import EvidenceLock.Proofs.Imports
import EvidenceLock.Syntax.Visitor

/-!
# Modules named from the importing one

A module that is named by points and names is written as a specifier with folders
(`specifiers_of_import`), and this one is looked for in a package as many folders further up as there
are points beyond the first (`imports_resolve`). The names are what stands between the points of the
text, white space included: a name with a space beside its point is the name of another file
(`imports_spaced`).
-/

namespace EvidenceLock.Syntax.Indented

open EvidenceLock.Path

/-- What stands between two points of a dotted name, as long as it can be a name. -/
structure IsPiece (piece : List Char) : Prop where
  ne_nil : piece ≠ []
  pointless : '.' ∉ piece
  plain : '/' ∉ piece

instance (piece : List Char) : Decidable (IsPiece piece) :=
  decidable_of_iff (piece ≠ [] ∧ '.' ∉ piece ∧ '/' ∉ piece)
    ⟨fun h => ⟨h.1, h.2.1, h.2.2⟩, fun h => ⟨h.ne_nil, h.pointless, h.plain⟩⟩

/-- The texts of the parts of a kind. -/
def textsOf (code : Code) (n : Node) (kind : Kind) : List (List Char) :=
  (n.children.filter (·.kind == kind)).map fun part => (part.text code).toList

/-- The name that is imported, whether it is given another one or not. -/
def takenName? (code : Code) (n : Node) : Option (List Char) :=
  (if n.kind = .aliasedImport then n.child? .name else some n).map fun name =>
    (name.text code).toList

/-- The node imports from a module that is named by `level` points and a dotted name, or by points
only when there are no pieces of one. It takes some names from there. -/
structure FromImport (code : Code) (n : Node) (level : Nat) (pieces names : List (List Char)) :
    Prop where
  kind : n.kind = .importFrom
  source : ∃ source ∈ n.child? .moduleName, source.kind = .relativeImport ∧
    (textsOf code source .importPrefix).map (·.count '.') = [level] ∧
    textsOf code source .dottedName =
      if pieces = [] then [] else [List.intercalate ['.'] pieces]
  taken : (n.childrenAs .name).map (takenName? code) = names.map some

instance (code : Code) (n : Node) (level : Nat) (pieces names : List (List Char)) :
    Decidable (FromImport code n level pieces names) :=
  decidable_of_iff
    (n.kind = .importFrom ∧
      (∃ source ∈ n.child? .moduleName, source.kind = .relativeImport ∧
        (textsOf code source .importPrefix).map (·.count '.') = [level] ∧
        textsOf code source .dottedName =
          if pieces = [] then [] else [List.intercalate ['.'] pieces]) ∧
      (n.childrenAs .name).map (takenName? code) = names.map some)
    ⟨fun h => ⟨h.1, h.2.1, h.2.2⟩, fun h => ⟨h.kind, h.source, h.taken⟩⟩

/-- What an import is to stand for, seen from the package it starts in: the module with its pieces,
or each name if there are none. -/
def importedPlaces (pieces names : List (List Char)) : List (List (List Char)) :=
  if pieces = [] then names.map ([·]) else [pieces]

/-- The files that a module can be: one of its name, and a package of its name. -/
def moduleFiles (place : List (List Char)) : List String :=
  [String.ofList (join place ++ ".py".toList),
    String.ofList (join (place ++ ["__init__.py".toList]))]

theorem IsPiece.isName {piece : List Char} (h : IsPiece piece) : IsName piece where
  ne_nil := h.ne_nil
  ne_here he := h.pointless (he ▸ List.mem_singleton_self _)
  plain := h.plain

theorem above_not_mem_pieces {pieces : List (List Char)} (h : ∀ piece ∈ pieces, IsPiece piece) :
    above ∉ pieces :=
  fun hmem => (h _ hmem).pointless List.mem_cons_self

theorem mem_importedPlaces {pieces names place : List (List Char)}
    (hpieces : ∀ piece ∈ pieces, IsPiece piece) (hnames : ∀ name ∈ names, IsPiece name)
    (h : place ∈ importedPlaces pieces names) : place ≠ [] ∧ ∀ piece ∈ place, IsPiece piece := by
  unfold importedPlaces at h
  split at h
  · obtain ⟨name, hname, rfl⟩ := List.mem_map.1 h
    exact ⟨List.cons_ne_nil _ _, fun piece hpiece => List.mem_singleton.1 hpiece ▸ hnames name hname⟩
  · rename_i hne
    rw [List.mem_singleton.1 h]
    exact ⟨hne, hpieces⟩

/-! ## Specifiers -/

variable {code : Code} {n : Node} {level : Nat} {pieces names : List (List Char)}

theorem toList_asFolders (s : String) :
    (asFolders s).toList = s.toList.map fun c => if c == '.' then '/' else c :=
  String.toList_map

theorem map_of_pointless {cs : List Char} (h : '.' ∉ cs) :
    (cs.map fun c => if c == '.' then '/' else c) = cs := by
  refine (List.map_congr_left fun c hc => ?_).trans (List.map_id cs)
  have hne : c ≠ '.' := fun he => h (he ▸ hc)
  rw [if_neg (by simpa using hne), id_eq]

/-- Points between pieces become slashes. -/
theorem asFolders_of_pieces {s : String} (hs : s.toList = List.intercalate ['.'] pieces)
    (h : ∀ piece ∈ pieces, '.' ∉ piece) : asFolders s = String.ofList (join pieces) := by
  have hmap : (List.intercalate ['.'] pieces).map (fun c => if c == '.' then '/' else c) =
      join pieces := by
    clear hs
    induction pieces with
    | nil => rfl
    | cons piece pieces ih =>
      obtain ⟨hpiece, hpieces⟩ := List.forall_mem_cons.1 h
      cases pieces with
      | nil => rw [List.intercalate_singleton, join_singleton, map_of_pointless hpiece]
      | cons next pieces =>
        rw [join_cons_cons, ← ih hpieces, List.intercalate_cons_cons, List.map_append,
          List.map_append, map_of_pointless hpiece, List.append_assoc]
        rfl
  apply String.toList_injective
  rw [toList_asFolders, hs, hmap, String.toList_ofList]

/-- The names that an import takes, as they are written in specifiers. -/
theorem importedNames_of_import (h : FromImport code n level pieces names)
    (hnames : ∀ name ∈ names, IsPiece name) : importedNames code n = names.map String.ofList := by
  have htaken := h.taken
  clear h
  unfold importedNames
  generalize n.childrenAs .name = children at htaken
  induction children generalizing names with
  | nil =>
    rw [List.map_nil, eq_comm, List.map_eq_nil_iff] at htaken
    rw [htaken]
    rfl
  | cons child children ih =>
    rw [List.map_cons, eq_comm, List.map_eq_cons_iff] at htaken
    obtain ⟨name, names, rfl, hname, htaken⟩ := htaken
    obtain ⟨hpiece, hrest⟩ := List.forall_mem_cons.1 hnames
    obtain ⟨named, hnamed, rfl⟩ := Option.map_eq_some_iff.1 hname.symm
    have hfolders : asFolders (named.text code) = String.ofList (named.text code).toList := by
      apply String.toList_injective
      rw [toList_asFolders, map_of_pointless hpiece.pointless, String.toList_ofList]
    rw [List.map_cons, ← ih hrest htaken.symm, ← hfolders, List.filterMap_cons_some]
    simpa using ⟨named, hnamed, rfl⟩

/-- **The specifiers of an import** lead up for each point beyond the first, and then down. -/
theorem specifiers_of_import (h : FromImport code n level pieces names) (hlevel : 1 ≤ level)
    (hpieces : ∀ piece ∈ pieces, IsPiece piece) (hnames : ∀ name ∈ names, IsPiece name) :
    relativeSpecifiers code n =
      (importedPlaces pieces names).map fun place =>
        upwards level ++ String.ofList (join place) := by
  obtain ⟨source, hsource, hkind, hprefix, hdotted⟩ := h.source
  rw [Option.mem_def] at hsource
  rw [textsOf, List.map_map, List.map_eq_singleton_iff] at hprefix
  obtain ⟨points, hpoints, hcount⟩ := hprefix
  have hlength : ((points.text code).toList.filter (· == '.')).length = level := by
    rw [← hcount, Function.comp_apply, List.count_eq_length_filter]
  rw [textsOf] at hdotted
  have hup : ¬ level = 0 := by omega
  simp only [relativeSpecifiers, hsource, hkind, hpoints, List.getLast?_singleton, hlength,
    if_neg hup, bne_self_eq_false, Bool.false_eq_true, if_false]
  unfold importedPlaces
  by_cases hmodule : pieces = []
  · rw [if_pos hmodule, List.map_eq_nil_iff] at hdotted
    simp only [hdotted, List.getLast?_nil, if_pos hmodule, importedNames_of_import h hnames,
      List.map_map]
    refine List.map_congr_left fun name _ => ?_
    rw [Function.comp_apply, Function.comp_apply, join_singleton]
  · rw [if_neg hmodule, List.map_eq_singleton_iff] at hdotted
    obtain ⟨dotted, hdotted, htext⟩ := hdotted
    have hfolders := asFolders_of_pieces htext fun piece hpiece => (hpieces piece hpiece).pointless
    simp only [hdotted, List.getLast?_singleton, if_neg hmodule, hfolders, List.map_singleton]

/-- The parts of what leads up. -/
theorem split_upwards (level : Nat) (p : List Char) :
    split ((upwards level).toList ++ p) =
      (if level = 1 then [here] else List.replicate (level - 1) above) ++ split p := by
  have hrepeat (k : Nat) : split ((List.replicate k "../".toList).flatten ++ p) =
      List.replicate k above ++ split p := by
    induction k with
    | zero => rfl
    | succ k ih =>
      rw [List.replicate_succ, List.flatten_cons, List.append_assoc]
      have hstep (q : List Char) : split ("../".toList ++ q) = above :: split q :=
        split_append_slash above q
      rw [hstep, ih, List.replicate_succ, List.cons_append]
  unfold upwards
  split
  · exact split_append_slash here p
  · rw [String.toList_join, ← hrepeat, List.flatMap_replicate]

theorem head?_upwards (hlevel : 1 ≤ level) (p : List Char) :
    ((upwards level).toList ++ p).head? = some '.' := by
  unfold upwards
  split
  · rfl
  · obtain ⟨k, hk⟩ : ∃ k, level - 1 = k + 1 := ⟨level - 2, by omega⟩
    rw [String.toList_join, hk, List.replicate_succ]
    rfl

/-! ## Where an import leads -/

variable {known : String → Bool} {importer : String} {outer : List (List Char)}

/-- Each point beyond the first leads out of a folder, and the root ends this. -/
theorem walk_specifier (outer : List (List Char)) {place : List (List Char)} (hne : place ≠ [])
    (hplace : ∀ piece ∈ place, IsPiece piece) (level : Nat) :
    walk outer (split ((upwards level).toList ++ join place)) =
      if level - 1 ≤ outer.length then some (outer.take (outer.length - (level - 1)) ++ place)
      else none := by
  have hdown (start : List (List Char)) : walk start place = some (start ++ place) :=
    walk_of_isName (fun piece hpiece => (hplace piece hpiece).isName) (above_not_mem_pieces hplace)
  rw [split_upwards, split_join (fun piece hpiece => (hplace piece hpiece).plain) hne]
  by_cases hone : level = 1
  · have hhere : enter outer here = some outer := if_pos (.inr rfl)
    rw [hone, if_pos rfl, List.singleton_append, walk_cons, hhere, Option.bind_some, hdown,
      Nat.sub_self, if_pos (Nat.zero_le _), Nat.sub_zero, List.take_length]
  · rw [if_neg hone, walk_append, walk_replicate_above]
    split
    · rw [Option.bind_some, hdown]
    · rfl

/-- What ends in a piece of a dotted name does not end in an extension. -/
theorem not_suffix_join (place : List (List Char)) {piece : List Char} (h : IsPiece piece) :
    ¬ ".py".toList <:+ join (place ++ [piece]) := by
  obtain ⟨before, hbefore, hslash⟩ : ∃ before, join (place ++ [piece]) = before ++ piece ∧
      ∀ c, before.getLast? = some c → c = '/' := by
    by_cases hroot : place = []
    · exact ⟨[], by simp [hroot], by simp⟩
    · refine ⟨join place ++ ['/'], ?_, fun c hc => ?_⟩
      · rw [join_concat hroot, List.append_assoc, List.singleton_append]
      · rw [List.getLast?_concat] at hc
        exact (Option.some.inj hc).symm
  rintro ⟨u, hu⟩
  rw [hbefore] at hu
  rcases List.append_eq_append_iff.1 hu with ⟨extra, rfl, hext⟩ | ⟨extra, rfl, rfl⟩
  · -- The extension begins before the piece, so that a slash is part of it or of nothing.
    rcases List.eq_nil_or_concat' extra with rfl | ⟨rest, c, rfl⟩
    · rw [List.nil_append] at hext
      exact h.pointless (hext ▸ List.mem_cons_self)
    · have hc : c = '/' := hslash c (by rw [← List.append_assoc, List.getLast?_concat])
      have hmem : '/' ∈ ".py".toList := by
        rw [hext, hc]
        simp
      revert hmem
      decide
  · exact h.pointless (List.mem_append_right _ List.mem_cons_self)

/-- Where all known files have the extension, a module is a file with it or a package. -/
theorem find?_placesTried (hknown : ∀ path, known path = true → ".py".toList <:+ path.toList)
    (base : List (List Char)) {place : List (List Char)} (hne : place ≠ [])
    (hplace : ∀ piece ∈ place, IsPiece piece) :
    (placesTried .python (base ++ place)).find? known = (moduleFiles (base ++ place)).find? known := by
  have hunknown : known (String.ofList (join (base ++ place))) = false := by
    obtain ⟨rest, piece, rfl⟩ := (List.eq_nil_or_concat' place).resolve_left hne
    rw [Bool.eq_false_iff]
    intro hfound
    have hsuffix := hknown _ hfound
    have htext : (String.ofList (join (base ++ (rest ++ [piece])))).toList =
        join (base ++ rest ++ [piece]) := by rw [String.toList_ofList, List.append_assoc]
    rw [htext] at hsuffix
    exact not_suffix_join (base ++ rest) (hplace piece (by simp)) hsuffix
  have hplaces : placesTried .python (base ++ place) =
      String.ofList (join (base ++ place)) :: moduleFiles (base ++ place) := by
    rw [placesTried, if_neg (by simp [hne])]
    rfl
  rw [hplaces, List.find?_cons_of_neg (by simp [hunknown])]

/-- **A module named from the importing one** is looked for in the package that the points lead to:
that of the importing file for one point, and one further up for each other point. There it is the
file of its name, or else the package; without a dotted name this holds of each imported name. There
is none above the root. -/
theorem imports_resolve {p : Place} (himport : FromImport code p.node level pieces names)
    (hlevel : 1 ≤ level) (hpieces : ∀ piece ∈ pieces, IsPiece piece)
    (hnames : ∀ name ∈ names, IsPiece name) (hsource : IsSource importer outer .python)
    (hknown : ∀ path, known path = true → ".py".toList <:+ path.toList) :
    (imports code p).map (fun ref => resolveImport known importer ref.specifier) =
      (importedPlaces pieces names).map fun place =>
        if level - 1 ≤ outer.length then
          (moduleFiles (outer.take (outer.length - (level - 1)) ++ place)).find? known
        else none := by
  rw [imports, if_pos (by rw [himport.kind]; rfl),
    specifiers_of_import himport hlevel hpieces hnames, List.map_map, List.map_map]
  refine List.map_congr_left fun place hmem => ?_
  obtain ⟨hne, hplace⟩ := mem_importedPlaces hpieces hnames hmem
  have htext : (upwards level ++ String.ofList (join place)).toList =
      (upwards level).toList ++ join place := by
    rw [String.toList_append, String.toList_ofList]
  have hrelative := head?_upwards hlevel (join place)
  rw [← htext] at hrelative
  rw [Function.comp_apply, Function.comp_apply, resolveImport_eq hsource hrelative, htext,
    walk_specifier outer hne hplace level]
  split
  · have hnames (name : List Char)
        (hname : name ∈ outer.take (outer.length - (level - 1)) ++ place) : IsName name := by
      rcases List.mem_append.1 hname with hname | hname
      · exact hsource.outer_isName name (List.mem_of_mem_take hname)
      · exact (hplace name hname).isName
    have habove : above ∉ outer.take (outer.length - (level - 1)) ++ place := by
      rw [List.mem_append, not_or]
      exact ⟨fun hmem => hsource.above_not_mem (List.mem_of_mem_take hmem),
        above_not_mem_pieces hplace⟩
    rw [Option.bind_some, importCandidates_of_ne_nil hnames habove (by simp [hne]),
      find?_placesTried hknown _ hne hplace]
  · rfl

/-- The statements of a program that is one row. -/
def statements (code : Code) : List Node :=
  ((parse code).children.flatMap Node.children).flatMap Node.children

theorem appMain_isSource : IsSource "app/main.py" ["app".toList] .python where
  ordinary := by decide +kernel
  file := ⟨"main".toList, "py".toList, by decide +kernel⟩

/-- From `app/main.py`, two points lead out of `app`, and three lead nowhere. Names that are taken
from `app` itself are modules or packages in it. -/
theorem imports_resolve_app :
    let known := ["core/base.py", "app/utils/__init__.py", "app/shared.py"].contains
    let found (content : String) := (statements (Code.ofString content)).map fun n =>
      (imports (Code.ofString content) ⟨n, []⟩).map fun ref =>
        resolveImport known "app/main.py" ref.specifier
    found "from ..core.base import Base" = [[some "core/base.py"]] ∧
    found "from . import utils, shared as s" =
      [[some "app/utils/__init__.py", some "app/shared.py"]] ∧
    found "from ...app.shared import x" = [[none]] := by
  intro known found
  have hknown : ∀ path, known path = true → ".py".toList <:+ path.toList := by
    intro path hpath
    have hall : ∀ path ∈ ["core/base.py", "app/utils/__init__.py", "app/shared.py"],
        ".py".toList <:+ path.toList := by decide
    exact hall path (List.contains_iff_mem.1 hpath)
  have hone {content : String} {level : Nat} {pieces names : List (List Char)}
      (hread : (statements (Code.ofString content)).length = 1 ∧
        ∀ n ∈ statements (Code.ofString content),
          FromImport (Code.ofString content) n level pieces names)
      (hlevel : 1 ≤ level) (hpieces : ∀ piece ∈ pieces, IsPiece piece)
      (hnames : ∀ name ∈ names, IsPiece name) :
      found content = [(importedPlaces pieces names).map fun place =>
        if level - 1 ≤ 1 then
          (moduleFiles (["app".toList].take (1 - (level - 1)) ++ place)).find? known
        else none] := by
    obtain ⟨n, hn⟩ := List.length_eq_one_iff.1 hread.1
    have hresolve := imports_resolve (p := ⟨n, []⟩) (hread.2 n (by rw [hn]; simp)) hlevel hpieces
      hnames appMain_isSource hknown
    simp only [found, hn, List.map_singleton, hresolve]
    rfl
  refine ⟨?_, ?_, ?_⟩
  · rw [@hone _ 2 ["core".toList, "base".toList] ["Base".toList] (by decide +kernel) (by decide)
      (by decide) (by decide)]
    decide +kernel
  · rw [@hone _ 1 [] ["utils".toList, "shared".toList] (by decide +kernel) (by decide)
      (by decide) (by decide)]
    decide +kernel
  · rw [@hone _ 3 ["app".toList, "shared".toList] ["x".toList] (by decide +kernel) (by decide)
      (by decide) (by decide)]
    decide +kernel

/-- White space beside the point of a dotted name is taken to be part of the names, so that the file
of the module is not found. -/
theorem imports_spaced :
    let known := ["x.py", "a/b.py"].contains
    let found (content : String) := (factsOf .python content "x.py").imports.map fun ref =>
      resolveImport known "x.py" ref.specifier
    found "from .a.b import c\n" = [some "a/b.py"] ∧ found "from .a . b import c\n" = [none] := by
  decide +kernel

end EvidenceLock.Syntax.Indented
