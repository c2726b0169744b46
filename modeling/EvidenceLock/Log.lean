/-
  Log records: who says what at which level. A log is a list of records in the
  order in which they were written.
-/

namespace EvidenceLock

/-- How serious a record is. -/
inductive Level where
  /-- For finding mistakes. -/
  | debug
  /-- For following a run. -/
  | info
  /-- Something is not as it should be. -/
  | warning
  /-- Something failed. -/
  | error
  /-- Nothing can go on. -/
  | critical
  deriving DecidableEq, Repr

namespace Level

/-- The number of a level. -/
def number : Level → Nat
  | .debug => 10
  | .info => 20
  | .warning => 30
  | .error => 40
  | .critical => 50

/-- The name of a level. -/
def name : Level → String
  | .debug => "DEBUG"
  | .info => "INFO"
  | .warning => "WARNING"
  | .error => "ERROR"
  | .critical => "CRITICAL"

/-- All levels. -/
def all : List Level := [.debug, .info, .warning, .error, .critical]

/-- The level of a name. -/
def named? (name : String) : Option Level := all.find? fun l => l.name == name

end Level

/-- One thing that was logged. -/
structure LogRecord where
  /-- The name of the logger. -/
  logger : String
  /-- The level. -/
  level : Level
  /-- The message. -/
  message : String
  deriving DecidableEq, Repr

/-- Records in the order in which they were written. -/
abbrev Log := List LogRecord

namespace LogRecord

/-- The record as a line of a log file, without its time. -/
def line (r : LogRecord) : String := s!"{r.logger} - {r.level.name} - {r.message}"

/-- A record for finding mistakes. -/
def debug (logger message : String) : LogRecord := { logger, level := .debug, message }

/-- A record for following a run. -/
def info (logger message : String) : LogRecord := { logger, level := .info, message }

/-- A record of something that is not as it should be. -/
def warning (logger message : String) : LogRecord := { logger, level := .warning, message }

/-- A record of something that failed. -/
def error (logger message : String) : LogRecord := { logger, level := .error, message }

end LogRecord

end EvidenceLock
