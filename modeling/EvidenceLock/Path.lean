import EvidenceLock.Text.Blank
import EvidenceLock.Text.LowerCase

/-
  Slash-separated paths: normal form, joining, the parts of a path and the
  extension of its last part. The functions on character lists are the rules;
  those on strings apply them.
-/

namespace EvidenceLock.Path

open EvidenceLock.Text

/-- A part that stands for the folder itself. -/
def here : List Char := ['.']

/-- A part that stands for the folder above. -/
def above : List Char := ['.', '.']

/-- The text between the slashes. -/
def split (p : List Char) : List (List Char) := splitOnChar '/' p

/-- The parts with slashes between them. -/
def join (parts : List (List Char)) : List Char := List.intercalate ['/'] parts

/-- One step of normalization: `stack` holds the parts so far, last first. -/
def pushPart (rooted : Bool) (stack : List (List Char)) (part : List Char) : List (List Char) :=
  if part = [] ∨ part = here then stack
  else if part ≠ above then part :: stack
  else
    match stack with
    | [] => if rooted then [] else [above]
    | top :: rest => if top = above then above :: stack else rest

/-- The parts of a path in normal form: no empty ones, no `.`, and `..` only at the start of a path
that has no root. -/
def normalParts (rooted : Bool) (parts : List (List Char)) : List (List Char) :=
  (parts.foldl (pushPart rooted) []).reverse

/-- The slashes a path starts with, as far as they matter: exactly two are kept, more count as
one. -/
def rootOf (p : List Char) : List Char :=
  match p with
  | '/' :: '/' :: '/' :: _ => ['/']
  | '/' :: '/' :: _ => ['/', '/']
  | '/' :: _ => ['/']
  | _ => []

/-- The normal form of a path; `.` when nothing is left. -/
def normalize (p : List Char) : List Char :=
  let root := rootOf p
  let q := root ++ join (normalParts (!root.isEmpty) (split p))
  if q.isEmpty then here else q

/-- The path `b` as seen from the folder `a`. -/
def append (a b : List Char) : List Char :=
  if b.head? = some '/' then b
  else if a.isEmpty || a.getLast? == some '/' then a ++ b
  else a ++ '/' :: b

/-- Everything up to the last slash. -/
def throughLastSlash (p : List Char) : List Char :=
  (p.reverse.dropWhile (· != '/')).reverse

/-- The folder of a path: what stands before its last slash, slashes at its end left out unless
there is nothing else. -/
def folder (p : List Char) : List Char :=
  let head := throughLastSlash p
  if head.all (· == '/') then head else (head.reverse.dropWhile (· == '/')).reverse

/-- The parts of a path that name something: neither empty nor `.`. -/
def names (p : List Char) : List (List Char) :=
  (split p).filter fun part => !part.isEmpty && part != here

/-- The parts of a path, its root included. -/
def parts (p : List Char) : List (List Char) :=
  let root := rootOf p
  if root.isEmpty then names p else root :: names p

/-- The path with single slashes and without `.` parts; `..` parts stay. -/
def tidy (p : List Char) : List Char :=
  let q := rootOf p ++ join (names p)
  if q.isEmpty then here else q

/-- A tidy path under a folder, part by part; a leading slash of `p` does not lead out of it. -/
def under (dir p : List Char) : List Char :=
  let base := tidy dir
  let below := names p
  if below.isEmpty then base
  else if base = here then join below
  else if base.getLast? = some '/' then base ++ join below
  else base ++ '/' :: join below

/-- What follows the last dot of a name together with the dot, when characters stand on both sides
of it. -/
def nameSuffix (name : List Char) : List Char :=
  let tail := name.reverse.takeWhile (· != '.')
  if tail.length = name.length then []
  else if tail.isEmpty || tail.length + 1 == name.length then []
  else '.' :: tail.reverse

/-- The suffix of the last part of a path. -/
def suffix (p : List Char) : List Char := nameSuffix ((names p).getLast?.getD [])

/-- What follows the last dot of the last part together with the dot; the dots that a name starts
with do not count. -/
def extension (p : List Char) : List Char :=
  let name := (p.reverse.takeWhile (· != '/')).reverse
  let body := name.dropWhile (· == '.')
  let tail := body.reverse.takeWhile (· != '.')
  if tail.length = body.length then [] else '.' :: tail.reverse

/-- The lower-case extension of a path. -/
def extensionOf (p : String) : String := String.ofList (lowerCase (extension p.toList))

/-- A tidy path under a folder. -/
def resolveUnder (dir p : String) : String := String.ofList (under dir.toList p.toList)

/-- The path holds a null character, so that nothing can stand under it. -/
def holdsNull (p : String) : Bool := p.toList.contains '\x00'

/-- A path seen from a working folder, in normal form. -/
def absolute (workdir p : String) : String :=
  String.ofList (normalize (append workdir.toList p.toList))

example : normalize "a/../../b".toList = "../b".toList := by decide +kernel
example : normalize "//a/./b/".toList = "//a/b".toList := by decide +kernel
example : extension ".a.b".toList = ".b".toList ∧ extension "...a".toList = [] := by decide +kernel
example : suffix "x/a.".toList = [] ∧ extension "x/a.".toList = ".".toList := by decide +kernel
example : folder "/a".toList = "/".toList ∧ folder "a/b//c".toList = "a/b".toList := by
  decide +kernel

end EvidenceLock.Path
