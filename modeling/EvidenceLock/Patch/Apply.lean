import EvidenceLock.Log
import EvidenceLock.Patch.Basic
import EvidenceLock.Source.Record
import EvidenceLock.Text.Lines

/-
  Applying patches to texts in memory. The hunks of a patch are read in the
  coordinates of the old text, in ascending order and without overlap; a context
  or removed line must equal the line of the text up to white space at its end.
  Nothing is written to disk: the result is an overlay.
-/

namespace EvidenceLock

open EvidenceLock.Text

/-- The two lines are equal up to white space at their ends. -/
def sameLine (a b : String) : Bool := trimEnd a.toList == trimEnd b.toList

/-- The number of old lines before the first line of a hunk; a hunk without old lines stands after
the line that it names. -/
def Hunk.offset (h : Hunk) : Int := if 0 < h.oldCount then h.oldStart - 1 else h.oldStart

/-- How far a patch has been applied. -/
structure Applying where
  /-- The number of old lines passed. -/
  passed : Nat
  /-- The old lines that remain. -/
  rest : List String
  /-- The new lines, last first. -/
  output : List String
  deriving DecidableEq, Repr

namespace Applying

/-- Keeps the next `n` old lines. -/
def keep (a : Applying) (n : Nat) : Applying :=
  { passed := a.passed + n, rest := a.rest.drop n, output := (a.rest.take n).reverse ++ a.output }

/-- Applies the lines of a hunk. -/
def applyLines (file : String) (start : Int) (a : Applying) :
    List HunkLine → Outcome Applying
  | [] => .ok a
  | l :: ls =>
    match l.kind with
    | .add => applyLines file start { a with output := l.text :: a.output } ls
    | kind =>
      match a.rest with
      | [] =>
        fail (.hunkRange s!"Hunk at line {start} runs past the end of {file}" file (a.passed + 1))
      | old :: rest =>
        if sameLine old l.text then
          let output := if kind = .context then old :: a.output else a.output
          applyLines file start { passed := a.passed + 1, rest, output } ls
        else
          fail (.hunkMismatch s!"Line {a.passed + 1} of {file} does not match the patch" file
            (a.passed + 1))

/-- Applies a hunk to a text of `total` lines. -/
def applyHunk (file : String) (total : Nat) (a : Applying) (h : Hunk) : Outcome Applying :=
  let start := h.offset
  if start < 0 ∨ (total : Int) < start then do
    let number ← written h.oldStart
    fail (.hunkRange s!"Hunk start {number} is out of range for {file} ({total} lines)" file
      h.oldStart)
  else if start < a.passed then
    fail (.hunkRange s!"Hunk at line {h.oldStart} overlaps the previous hunk in {file}" file
      h.oldStart)
  else applyLines file h.oldStart (a.keep (start.toNat - a.passed)) h.lines

/-- The new lines, once the remaining old ones are kept. -/
def finish (a : Applying) : List String := a.output.reverse ++ a.rest

end Applying

/-- The lines that a patch makes of the given ones. -/
def FilePatch.applyLines (p : FilePatch) (lines : List String) : Outcome (List String) := do
  let done ← p.hunks.foldlM (Applying.applyHunk p.file lines.length)
    { passed := 0, rest := lines, output := [] }
  .ok done.finish

/-- The text that a patch makes of a text; its lines end in line feeds only. -/
def FilePatch.apply (p : FilePatch) (content : String) : Outcome String :=
  (p.applyLines (linesOf content)).map joinLines

section
variable {m : Type → Type} [Monad m] [MonadLiftT Outcome m]

/-- Applies a patch to the text of its file: the overlay's if it has one, what is read otherwise.
Reading may do more than give an answer. -/
def applyToOverlay (read : String → m String) (overlay : Overlay) (p : FilePatch) : m Overlay := do
  let base ←
    match overlay.find? p.file with
    | some text => pure text
    | none => read p.file
  let text ← liftM (p.apply base)
  return overlay.insert p.file text

/-- The new texts of all files that patches touch. -/
def buildOverlay (read : String → m String) (ps : List FilePatch) : m Overlay :=
  ps.foldlM (applyToOverlay read) []

end

/-- A patch is applied to what is read through the overlay. -/
theorem applyToOverlay_eq (read : Reader) (o : Overlay) (p : FilePatch) :
    applyToOverlay read o p =
      read.through o p.file >>= fun base => (p.apply base).map (o.insert p.file) := by
  unfold applyToOverlay Reader.through
  cases Keyed.find? o p.file with
  | some base => rfl
  | none => rfl

/-- The patches before the first one that fails. -/
def appliedPatches (read : Reader) (overlay : Overlay) : List FilePatch → List FilePatch
  | [] => []
  | p :: ps =>
    match applyToOverlay read overlay p with
    | .ok next => p :: appliedPatches read next ps
    | .error _ => []

/-- What is logged while patches are applied. -/
def applyLog (read : Reader) (ps : List FilePatch) : Log :=
  (appliedPatches read [] ps).map fun p =>
    .debug "coderoast.fixes.applicator" s!"Applied {p.hunks.length} hunks to {p.file}"

end EvidenceLock
