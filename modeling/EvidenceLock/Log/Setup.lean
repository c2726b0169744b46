import EvidenceLock.Failure
import EvidenceLock.Settings.Basic

/-
  Where records go. A setup keeps the records from a level on, and writes them to
  the terminal and, if it has one, to the end of a file; the loggers of the chat
  service are let through only when everything is logged.
-/

namespace EvidenceLock

/-- The name of the logger above all others of the library. -/
def rootLogger : String := "coderoast"

/-- The name of a logger within the library. -/
def loggerName (name : Option String) : String :=
  match name with
  | none => rootLogger
  | some n => if Text.startsWith n.toList rootLogger.toList then n else rootLogger ++ "." ++ n

/-- The logger is the root logger or below it. -/
def belowRoot (logger : String) : Bool :=
  logger == rootLogger || Text.startsWith logger.toList (rootLogger ++ ".").toList

/-- Where records are written. -/
inductive LogTarget where
  /-- The terminal. -/
  | terminal
  /-- The end of a file. -/
  | file
  deriving DecidableEq, Repr

/-- Which records are kept, and where they are written. -/
structure LogSetup where
  /-- The level from which on records are kept. -/
  level : Level
  /-- Where they are written. -/
  targets : List LogTarget
  /-- The level from which on records of the chat service are kept. -/
  serviceLevel : Level
  deriving DecidableEq, Repr

/-- The setup of a verbosity. -/
def LogSetup.of (v : Verbosity) (file : Bool) : LogSetup :=
  { level := v.level
    targets := if file then [.terminal, .file] else [.terminal]
    serviceLevel := if v = .verbose then .debug else .warning }

/-- The setup of the verbosity with a name, which must be one. -/
def LogSetup.named (name : Value) (file : Bool) : Outcome LogSetup :=
  match name.str?.bind Verbosity.named? with
  | some v => .ok (.of v file)
  | none => misuse .key name.quoted

/-- The record is written to the file. -/
def LogSetup.files (s : LogSetup) (r : LogRecord) : Bool :=
  s.targets.contains .file && belowRoot r.logger && decide (s.level.number ≤ r.level.number)

/-- A log file while setups change: nothing until a setup makes it, then its lines. -/
structure LogFile where
  /-- The setup, if there was one. -/
  setup : Option LogSetup := none
  /-- The lines of the file, if there is one. -/
  lines : Option (List String) := none
  deriving Repr

namespace LogFile

/-- Changes the setup. -/
def use (f : LogFile) (s : LogSetup) : LogFile :=
  { setup := some s
    lines := if s.targets.contains .file then some (f.lines.getD []) else f.lines }

/-- Writes a record. -/
def write (f : LogFile) (r : LogRecord) : LogFile :=
  if f.setup.any fun s => s.files r then
    { f with lines := some (f.lines.getD [] ++ [r.line]) }
  else f

/-- Writes records in order. -/
def writeAll (f : LogFile) (log : Log) : LogFile := log.foldl write f

end LogFile

end EvidenceLock
