import EvidenceLock.Failure
import EvidenceLock.Log

/-
  Computations that log. What was logged before an error stays logged.
-/

namespace EvidenceLock

/-- An outcome together with what was logged on the way to it. -/
structure Logged (α : Type) where
  /-- What was logged. -/
  log : Log
  /-- The outcome. -/
  result : Outcome α

namespace Logged

/-- Goes on with the answer of a computation; the logs follow each other. -/
def andThen {α β : Type} (x : Logged α) (f : α → Logged β) : Logged β :=
  match x.result with
  | .ok a =>
    let y := f a
    { log := x.log ++ y.log, result := y.result }
  | .error e => { log := x.log, result := .error e }

instance : Monad Logged where
  pure a := { log := [], result := .ok a }
  bind := andThen

/-- Logs records. -/
def write (log : Log) : Logged Unit := { log, result := .ok () }

/-- An outcome that logs nothing. -/
def of {α : Type} (result : Outcome α) : Logged α := { log := [], result }

end Logged

end EvidenceLock
