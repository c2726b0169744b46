import EvidenceLock.Failure
import EvidenceLock.Host
import EvidenceLock.Language
import EvidenceLock.Log

/-
  Source files as records, and how their texts are read: from an overlay of
  replacement texts first, from disk otherwise.
-/

namespace EvidenceLock

/-- A candidate source file. -/
structure FileRecord where
  /-- The path relative to the analysed folder. -/
  path : String
  /-- The extension, dot included. -/
  extension : String
  deriving DecidableEq, Repr, Inhabited

/-- A record with the extension of its path. -/
def FileRecord.ofPath (path : String) : FileRecord := { path, extension := Path.extensionOf path }

/-- Records in the order of their paths by code point; equal paths keep their order. -/
def sortRecords (rs : List FileRecord) : List FileRecord :=
  rs.mergeSort fun a b => decide (a.path ≤ b.path)

/-- Replacement texts by path. -/
abbrev Overlay := Keyed String String

/-- How the text of a path is read. -/
abbrev Reader := String → Outcome String

/-- Reads from disk, bytes that are not text replaced. -/
def Host.reader (h : Host) (root : String) : Reader := fun path =>
  let full := Path.resolveUnder root path
  match h.readBytes full with
  | .ok bytes => .ok (Text.Utf8.decodeLossy bytes)
  | .error .nullCharacter => AccessError.nullCharacter.misused full
  | .error e => fail (.fileAccess full (e.report full))

/-- Reads from an overlay first. -/
def Reader.through (read : Reader) (overlay : Overlay) : Reader := fun path =>
  match overlay.find? path with
  | some text => .ok text
  | none => read path

theorem Reader.through_nil (read : Reader) : read.through [] = read := by
  funext path
  simp [through]

end EvidenceLock
