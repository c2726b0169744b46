import EvidenceLock.Failure
import EvidenceLock.Keyed
import EvidenceLock.Path
import EvidenceLock.Text.Quoted
import EvidenceLock.Text.Utf8

/-
  The surroundings of a run as a value: a finite tree of folders and files, the
  working folder, the home folder and the environment. Looking up a path walks the
  tree part by part, and fails for the reason that the first part which leads
  nowhere gives. A path that holds a null character is not looked up at all.
-/

namespace EvidenceLock

/-- A file with its bytes, or a folder with its entries. -/
inductive Entry where
  /-- A file. -/
  | file (bytes : List Nat)
  /-- A folder. -/
  | folder (entries : List (String × Entry))
  deriving Inhabited

namespace Entry

/-- The entry is a folder. -/
def isFolder : Entry → Bool
  | .folder _ => true
  | .file _ => false

/-- The entry of a folder under a name. -/
def child? (e : Entry) (name : String) : Option Entry :=
  match e with
  | .folder entries => List.lookup name entries
  | .file _ => none

/-- An entry put under a path of names; folders on the way are made, and files on it replaced. -/
def put (e : Entry) (names : List String) (new : Entry) : Entry :=
  match names with
  | [] => new
  | n :: rest =>
    let entries : Keyed String Entry :=
      match e with
      | .folder es => es
      | .file _ => []
    .folder (entries.insert n (((List.lookup n entries).getD (.folder [])).put rest new))

/-- The tree without the entry under a path of names. -/
def remove (e : Entry) (names : List String) : Entry :=
  match names, e with
  | [n], .folder es => .folder (Keyed.erase es n)
  | n :: m :: rest, .folder es =>
    match List.lookup n es with
    | some child => .folder (Keyed.insert es n (child.remove (m :: rest)))
    | none => e
  | _, _ => e

end Entry

/-- Why a path leads to no file. -/
inductive AccessError where
  /-- A part does not exist. -/
  | missing
  /-- A part before the last is a file. -/
  | notFolder
  /-- The path leads to a folder. -/
  | isFolder
  /-- A part is longer than 255 bytes. -/
  | nameTooLong
  /-- The path holds a null character. -/
  | nullCharacter
  deriving DecidableEq, Repr

namespace AccessError

/-- The number of the error; a path that is not looked up gives none. -/
def code? : AccessError → Option Nat
  | .missing => some 2
  | .notFolder => some 20
  | .isFolder => some 21
  | .nameTooLong => some 36
  | .nullCharacter => none

/-- The error in words. -/
def reason : AccessError → String
  | .missing => "No such file or directory"
  | .notFolder => "Not a directory"
  | .isFolder => "Is a directory"
  | .nameTooLong => "File name too long"
  | .nullCharacter => "embedded null byte"

/-- The error and the path it is about. -/
def report (e : AccessError) (path : String) : String :=
  match e.code? with
  | some n => s!"[Errno {n}] {e.reason}: {Text.Quoted.encode path}"
  | none => e.reason

/-- The fault of asking for such a path where no failure is foreseen. -/
def misused {α : Type} (e : AccessError) (path : String) : Outcome α :=
  misuse (if e = .nullCharacter then .value else .system) (e.report path)

end AccessError

/-- The surroundings of a run. -/
structure Host where
  /-- The folder at the top. -/
  root : Entry := .folder []
  /-- The working folder, as an absolute path. -/
  workdir : String := "/"
  /-- The home folder, as an absolute path. -/
  home : String := "/"
  /-- The environment variables. -/
  environment : List (String × String) := []

namespace Host

/-- Walks on from the folder on top of `trail`, which also holds the folders above it. -/
def walk (trail : List Entry) : List String → Except AccessError Entry
  | [] => .ok (trail.headD default)
  | name :: rest =>
    match trail with
    | [] => .error .missing
    | .file _ :: _ => .error .notFolder
    | here :: up =>
      if name = ".." then walk (if up.isEmpty then trail else up) rest
      else if 255 < name.utf8ByteSize then .error .nameTooLong
      else
        match here.child? name with
        | some e => walk (e :: trail) rest
        | none => .error .missing

/-- The entry that a path leads to, seen from the working folder. -/
def find (h : Host) (path : String) : Except AccessError Entry :=
  if Path.holdsNull path then .error .nullCharacter
  else if path.isEmpty then .error .missing
  else
    let full := Path.append h.workdir.toList path.toList
    walk [h.root] ((Path.names full).map String.ofList)

/-- The bytes of the file that a path leads to. -/
def readBytes (h : Host) (path : String) : Except AccessError (List Nat) := do
  match ← h.find path with
  | .file bytes => .ok bytes
  | .folder _ => .error .isFolder

/-- A path leads somewhere; whether one with a name that is too long does cannot be told. -/
def isPresent (h : Host) (path : String) : Outcome Bool :=
  match h.find path with
  | .ok _ => .ok true
  | .error .nameTooLong => AccessError.nameTooLong.misused path
  | .error _ => .ok false

/-- A path leads to a folder. -/
def isFolder (h : Host) (path : String) : Bool :=
  match h.find path with
  | .ok e => e.isFolder
  | .error _ => false

/-- The path seen from the working folder in normal form; one with a null character has none. -/
def resolve (h : Host) (path : String) : Outcome String :=
  if Path.holdsNull path then AccessError.nullCharacter.misused path
  else .ok (Path.absolute h.workdir path)

/-- The names from the top to what a path stands for, without looking at the tree. -/
def namesTo (h : Host) (path : String) : List String :=
  (Path.names (Path.absolute h.workdir path).toList).map String.ofList

/-- A file written under a path; the folders on the way are made. -/
def write (h : Host) (path : String) (bytes : List Nat) : Host :=
  { h with root := h.root.put (h.namesTo path) (.file bytes) }

/-- A folder made under a path unless something is there. -/
def makeFolder (h : Host) (path : String) : Host :=
  match h.find path with
  | .ok _ => h
  | .error _ => { h with root := h.root.put (h.namesTo path) (.folder []) }

/-- The tree without what a path leads to. -/
def delete (h : Host) (path : String) : Host :=
  { h with root := h.root.remove (h.namesTo path) }

/-- The value of an environment variable. -/
def environmentValue? (h : Host) (name : String) : Option String := List.lookup name h.environment

end Host

end EvidenceLock
