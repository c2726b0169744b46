import EvidenceLock.Keyed
import EvidenceLock.Language
import EvidenceLock.Source.Normalized

/-
  Imports between files. A relative specifier is resolved against the folder of
  the importing file and tried as it stands, with the extensions of the language,
  and as a folder with an index file; the resolved imports make a graph, in which
  two files that import each other are a cycle.
-/

namespace EvidenceLock

/-- The first and last line of an import. -/
abbrev LineRange := Int × Int

/-- A specifier that names a file and not a package. -/
def isRelative (specifier : String) : Bool := specifier.toList.head? == some '.'

/-- The path leads out of the folder it is seen from. -/
def escapes (path : List Char) : Bool :=
  path == Path.above || Text.startsWith path (Path.above ++ ['/'])

/-- The paths that a specifier may stand for, in the order in which they are tried. -/
def importCandidates (language : Language) (combined : List Char) : List (List Char) :=
  combined ::
    language.resolveExtensions.map (fun ext => combined ++ ext.toList) ++
    language.indexStems.flatMap fun stem =>
      language.resolveExtensions.map fun ext =>
        Path.normalize (Path.append combined (stem ++ ext).toList)

/-- The known path that an import of a file stands for. -/
def resolveImport (known : String → Bool) (importer specifier : String) : Option String := do
  if isRelative specifier then
    let language ← Language.ofPath? importer
    let combined :=
      Path.normalize (Path.append (Path.folder importer.toList) specifier.toList)
    if escapes combined then none
    else ((importCandidates language combined).map String.ofList).find? known
  else none

/-- The resolved imports of a set of files. -/
structure DependencyGraph where
  /-- For each file the files it imports, with the lines of the imports. -/
  edges : Keyed String (Keyed String (List LineRange)) := []
  /-- For each file its relative imports that lead to no known file. -/
  unresolved : Keyed String (List String) := []
  deriving Repr, Inhabited

namespace DependencyGraph

/-- Adds one import of a file to the graph; the file has its entry already. -/
def addImport (known : String → Bool) (path : String) (g : DependencyGraph) (ref : ImportRef) :
    DependencyGraph :=
  match resolveImport known path ref.specifier with
  | none =>
    if isRelative ref.specifier then
      { g with unresolved := g.unresolved.push path ref.specifier }
    else g
  | some target =>
    if target = path then g
    else
      { g with
        edges := g.edges.alter path fun targets =>
          Keyed.push (targets.getD []) target (ref.first, ref.last) }

/-- Adds a file and its imports. -/
def addFile (known : String → Bool) (g : DependencyGraph) (f : NormalizedFile) :
    DependencyGraph :=
  f.imports.foldl (addImport known f.path)
    { g with edges := g.edges.alter f.path fun targets => targets.getD [] }

/-- The graph of the imports among files, of which `known` holds. -/
def ofFiles (files : List NormalizedFile) (known : String → Bool) : DependencyGraph :=
  files.foldl (addFile known) {}

/-- The imports of one file that lead to another. -/
def ranges (g : DependencyGraph) (source target : String) : List LineRange :=
  ((g.edges.find? source).bind fun targets => targets.find? target).getD []

/-- The number of pairs of an importing and an imported file. -/
def edgeCount (g : DependencyGraph) : Nat :=
  g.edges.foldl (fun n e => n + e.2.length) 0

end DependencyGraph

/-- Two files that import each other, with the first import in each direction. -/
structure Cycle where
  /-- The file that comes first. -/
  source : String
  /-- The other file. -/
  target : String
  /-- The lines of the first import of `target` in `source`. -/
  forth : LineRange
  /-- The lines of the first import of `source` in `target`. -/
  back : LineRange
  deriving DecidableEq, Repr, Inhabited

/-- A pair of paths, the smaller one first. -/
def sortedPair (a b : String) : String × String := if a < b then (a, b) else (b, a)

/-- The pairs of files that import each other, each pair once, in the order of the graph. -/
def DependencyGraph.cycles (g : DependencyGraph) : List Cycle :=
  let directed := g.edges.flatMap fun (source, targets) =>
    targets.filterMap fun (target, forth) =>
      match forth, g.ranges target source with
      | f :: _, b :: _ => some { source, target, forth := f, back := b : Cycle }
      | _, _ => none
  (directed.foldl
    (fun (seen, found) c =>
      let pair := sortedPair c.source c.target
      if seen.contains pair then (seen, found) else (pair :: seen, c :: found))
    (([] : List (String × String)), ([] : List Cycle))).2.reverse

/-- The size of a graph and its most connected files. -/
structure DependencySummary where
  /-- The number of files. -/
  nodes : Nat := 0
  /-- The number of edges. -/
  edges : Nat := 0
  /-- The files that import most, with their numbers. -/
  topImporters : List (String × Nat) := []
  /-- The files that are imported most, with their numbers. -/
  topImported : List (String × Nat) := []
  /-- The number of cycles. -/
  cycles : Nat := 0
  /-- The two files of the first cycle. -/
  sampleCycle : Option (String × String) := none
  deriving DecidableEq, Repr, Inhabited

/-- How many files are listed at most. -/
def topCount : Nat := 5

/-- Larger counts come first, and equal ones in the order of the paths. -/
def ranksBefore (a b : String × Nat) : Bool :=
  decide (b.2 < a.2) || (a.2 == b.2 && decide (a.1 ≤ b.1))

/-- The files with the largest counts. -/
def top (counts : List (String × Nat)) : List (String × Nat) :=
  (counts.mergeSort ranksBefore).take topCount

namespace DependencyGraph

/-- For each imported file the number of files that import it. -/
def inDegrees (g : DependencyGraph) : Keyed String Nat :=
  (g.edges.flatMap fun e => e.2.map Prod.fst).foldl
    (fun m target => m.alter target fun n => n.getD 0 + 1) []

/-- For each importing file the number of files it imports. -/
def outDegrees (g : DependencyGraph) : Keyed String Nat :=
  (g.edges.filter fun e => !e.2.isEmpty).map fun e => (e.1, e.2.length)

/-- The summary of a graph. -/
def summary (g : DependencyGraph) (cycles : List Cycle) : DependencySummary :=
  { nodes := g.edges.length
    edges := g.edgeCount
    topImporters := top g.outDegrees
    topImported := top g.inDegrees
    cycles := cycles.length
    sampleCycle := cycles.head?.map fun c => (c.source, c.target) }

end DependencyGraph

end EvidenceLock
