import EvidenceLock.Source.Function
import EvidenceLock.Source.Normalized
import EvidenceLock.Source.Record

/-
  Indexing: each record is read, its structure extracted and its lines normalized.
  A record that cannot be read, parsed or assigned to a language is skipped and
  leaves the others as they are.
-/

namespace EvidenceLock

/-- The structure of a source file as far as analysis needs it. -/
structure FileFacts where
  /-- The functions with a body, outer before inner. -/
  functions : List FunctionSpan := []
  /-- The imports in order. -/
  imports : List ImportRef := []
  deriving DecidableEq, Repr, Inhabited

/-- Extracts the structure of a text, given its path. -/
abbrev Visitor := (content path : String) → Outcome FileFacts

/-- The extractor of each language. -/
abbrev Visitors := Language → Visitor

/-- Everything that analysis needs from a file. -/
structure IndexedFile where
  /-- The record. -/
  record : FileRecord
  /-- The lines and imports. -/
  normalized : NormalizedFile
  /-- The functions. -/
  functions : List FunctionSpan
  deriving Repr

/-- Indexes one record. -/
def indexFile (read : Reader) (visit : Visitors) (r : FileRecord) : Outcome IndexedFile := do
  match Language.ofExtension? r.extension with
  | none => fail (.unsupportedExtension r.extension)
  | some language =>
    let content ← read r.path
    let facts ← visit language content r.path
    .ok {
      record := r
      normalized :=
        { path := r.path, lines := normalizedLines language content, imports := facts.imports }
      functions := facts.functions }

/-- Why a record may be skipped; other errors end the indexing. -/
def skippable (e : Error) : Option Failure :=
  match e with
  | .failure f =>
    match f with
    | .fileAccess .. | .parsing .. | .unsupportedExtension _ => some f
    | _ => none
  | .fault _ => none

/-- The outcome for one record. -/
inductive Indexing where
  /-- The record was indexed. -/
  | done (f : IndexedFile)
  /-- The record was skipped. -/
  | skipped (path : String) (why : Failure)
  deriving Repr

/-- Indexes one record or skips it. -/
def indexOrSkip (read : Reader) (visit : Visitors) (r : FileRecord) : Outcome Indexing :=
  match indexFile read visit r with
  | .ok f => .ok (.done f)
  | .error e =>
    match skippable e with
    | some why => .ok (.skipped r.path why)
    | none => .error e

/-- Indexes every record in the order of the paths. -/
def indexAll (read : Reader) (visit : Visitors) (rs : List FileRecord) : Outcome (List Indexing) :=
  (sortRecords rs).mapM (indexOrSkip read visit)

/-- An indexer: where it reads, its extractors, and what its last run skipped. -/
structure Indexer where
  /-- The folder that paths are looked up in. -/
  root : String
  /-- Texts that are read instead of those on disk. -/
  overlay : Overlay := []
  /-- The extractors. -/
  visit : Visitors
  /-- The paths that could not be indexed in the last run. -/
  skipped : List String := []

namespace Indexer

/-- How texts are read: from the overlay first, from disk otherwise. -/
def reader (x : Indexer) (h : Host) : Reader := (h.reader x.root).through x.overlay

/-- Indexes the records one after the other, after those that are `done`. -/
def indexFrom (x : Indexer) (h : Host) (done : List IndexedFile) :
    List FileRecord → Outcome (List IndexedFile) × Indexer
  | [] => (.ok done, x)
  | r :: rest =>
    match indexFile (x.reader h) x.visit r with
    | .ok f => x.indexFrom h (done ++ [f]) rest
    | .error e =>
      match skippable e with
      | some _ => { x with skipped := x.skipped ++ [r.path] }.indexFrom h done rest
      | none => (.error e, x)

/-- Indexes every record in the order of the paths, and notes anew what is skipped. -/
def indexAll (x : Indexer) (h : Host) (rs : List FileRecord) :
    Outcome (List IndexedFile) × Indexer :=
  { x with skipped := [] }.indexFrom h [] (sortRecords rs)

end Indexer

/-- The indexed file, unless the record was skipped. -/
def Indexing.file? : Indexing → Option IndexedFile
  | .done f => some f
  | .skipped _ _ => none

/-- The path of a skipped record. -/
def Indexing.skippedPath? : Indexing → Option String
  | .done _ => none
  | .skipped path _ => some path

/-- What is logged about a record. -/
def Indexing.log : Indexing → Log
  | .done _ => []
  | .skipped path why =>
    let logger := "coderoast.scanning.indexer"
    match why with
    | .fileAccess _ reason => [.warning logger s!"Skipping unreadable file {path}: {reason}"]
    | .parsing _ _ reason => [.warning logger s!"Skipping unparsable file {path}: {reason}"]
    | _ => [.debug logger s!"Skipping {path}: unsupported extension"]

end EvidenceLock
