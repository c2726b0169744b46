import EvidenceLock.Source.Record

/-
  Finding source files. A file is eligible when no folder on the way to it is left
  out, its own name may be looked at and its extension belongs to a language; of
  the eligible files those within the size limit are recorded, in the order of
  their paths.
-/

namespace EvidenceLock

/-- Which files are looked at. -/
structure Selection where
  /-- Names of folders that are never entered. -/
  excluded : List String
  /-- Names that start with a dot are looked at as well. -/
  hidden : Bool
  /-- The largest size in bytes; asked for only when there is an eligible file. -/
  sizeLimit : Outcome Int

namespace Selection

/-- A name that is looked at. -/
def visible (s : Selection) (name : String) : Bool := s.hidden || name.toList.head? != some '.'

/-- A folder that is entered. -/
def enters (s : Selection) (name : String) : Bool := !s.excluded.contains name && s.visible name

/-- A file whose name makes it a source file. -/
def accepts (s : Selection) (name : String) : Bool :=
  s.visible name && Language.sourceExtensions.contains (Path.extensionOf name)

end Selection

/-- An eligible file. -/
structure Candidate where
  /-- The path from the analysed folder. -/
  path : String
  /-- The size in bytes. -/
  size : Nat
  deriving DecidableEq, Repr

/-- The path of a name in a folder; the analysed folder itself is the empty path. -/
def pathIn (dir name : String) : String := if dir.isEmpty then name else dir ++ "/" ++ name

mutual

/-- The eligible files below an entry, files of a folder before those of its subfolders. -/
def Entry.candidates (s : Selection) (dir : String) : Entry → List Candidate
  | .file _ => []
  | .folder entries => filesIn s dir entries ++ belowFolders s dir entries

/-- The eligible files among the entries of a folder. -/
def filesIn (s : Selection) (dir : String) : List (String × Entry) → List Candidate
  | [] => []
  | (name, .file bytes) :: rest =>
    if s.accepts name then { path := pathIn dir name, size := bytes.length } :: filesIn s dir rest
    else filesIn s dir rest
  | (_, .folder _) :: rest => filesIn s dir rest

/-- The eligible files below the subfolders of a folder. -/
def belowFolders (s : Selection) (dir : String) : List (String × Entry) → List Candidate
  | [] => []
  | (name, e) :: rest =>
    if s.enters name then e.candidates s (pathIn dir name) ++ belowFolders s dir rest
    else belowFolders s dir rest

end

/-- The outcome of looking for source files. -/
structure Discovery where
  /-- The files found, in the order of their paths. -/
  records : List FileRecord
  /-- The eligible files that are too large. -/
  oversized : List Candidate

/-- The eligible files of a folder, divided by the size limit. -/
def Entry.discover (e : Entry) (s : Selection) : Outcome Discovery := do
  let found := e.candidates s ""
  if found.isEmpty then .ok { records := [], oversized := [] }
  else
    let limit ← s.sizeLimit
    let (small, large) := found.partition fun c => decide ((c.size : Int) ≤ limit)
    .ok { records := sortRecords (small.map fun c => FileRecord.ofPath c.path), oversized := large }

/-- The source files under a folder. -/
def Host.discover (h : Host) (root : String) (s : Outcome Selection) : Outcome Discovery := do
  let dir := String.ofList (Path.tidy root.toList)
  match h.find dir with
  | .ok (.folder entries) => (Entry.folder entries).discover (← s)
  | .error .nameTooLong => AccessError.nameTooLong.misused dir
  | _ => fail (.configuration s!"Not a directory: {dir}" [])

/-- What is logged about a search. -/
def Discovery.log (d : Discovery) (root : String) : Log :=
  d.oversized.map fun c =>
    .debug "coderoast.scanning.discovery"
      s!"Skipping {Path.resolveUnder root c.path}: {c.size} bytes exceeds limit"

end EvidenceLock
