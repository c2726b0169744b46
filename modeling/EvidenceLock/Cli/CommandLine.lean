import EvidenceLock.Cli.Arguments
import EvidenceLock.Cli.Screen
import EvidenceLock.Log.Setup
import EvidenceLock.Settings.Load
import EvidenceLock.Value.Json

/-
  The command line: from arguments to what is printed, what is logged, and the
  number with which the program ends. It ends with 2 when the arguments make no
  sense and with 1 when the settings or the run fail.
-/

namespace EvidenceLock

/-- The version of the program. -/
def version : String := "0.1.0"

/-- How a command line ended. -/
structure CommandResult where
  /-- The number with which the program ends. -/
  exitCode : Nat := 0
  /-- What is printed. -/
  stdout : String := ""
  /-- Which records are kept; nothing when that was never set. -/
  setup : Option LogSetup := none
  /-- What was logged. -/
  log : Log := []
  deriving Repr, Inhabited

/-- The level from which on records are kept in the end. -/
def CommandResult.logLevel (r : CommandResult) : Level := (r.setup.map LogSetup.level).getD .warning

/-- The lines that the terminal shows of what was logged. -/
def CommandResult.terminalLines (r : CommandResult) : List String :=
  match r.setup with
  | none => []
  | some s =>
    if s.targets.contains .terminal then
      (r.log.filter fun x => decide (s.level.number ≤ x.level.number)).map LogRecord.line
    else []

/-- The lines that are printed. -/
def CommandResult.stdoutLines (r : CommandResult) : List (List Char) :=
  Text.splitOnChar '\n' r.stdout.toList

/-- What a request overrides in the settings. -/
def Request.overrides (r : Request) : Overrides :=
  let switch (on : Bool) (name : String) : NamedValues := if on then [(name, .bool true)] else []
  { fields :=
      switch r.fix "enable_fixes" ++ (r.maxFixes.map fun n => ("max_fixes", Value.int n)).toList ++
        switch r.verbose "verbose" ++ switch r.quiet "quiet" }

/-- An error message as it is printed, and whether it can be shown. -/
def errorOutput (f : Failure) : String :=
  Screen.output (Screen.lines [Screen.text s!"[red]Error:[/red] {f.text}"]).1

namespace Host

/-- The path leads to a file. -/
def isFile (h : Host) (path : String) : Bool :=
  match h.find path with
  | .ok (.file _) => true
  | _ => false

/-- Text can be added to the file under a path, which need not exist yet. -/
def canAppend (h : Host) (path : String) : Bool :=
  let full := Path.absolute h.workdir path
  match h.find full with
  | .ok e => !e.isFolder
  | .error .missing => h.isFolder (String.ofList (Path.folder full.toList))
  | .error _ => false

/-- The setup of the log that settings ask for; nothing when its file cannot be used. -/
def logSetup? (h : Host) (s : Settings) : Option LogSetup :=
  if !s.logFile.truthy then some (.of s.verbosity false)
  else
    match s.logFile with
    | .str path => if h.canAppend path then some (.of s.verbosity true) else none
    | _ => none

/-- What a finished run prints, and how it ends. -/
def resultOutput (r : Request) (s : Settings) (x : RunResult) : String × Nat :=
  if r.json then (Json.encode x.summary ++ "\n", 0)
  else
    let (lines, complete) := Screen.lines (Screen.result (s.verbosity == .verbose) x)
    (Screen.output lines, if complete then 0 else 1)

/-- Answers a request with settings. -/
def answer (h : Host) (visit : Visitors) (r : Request) (s : Settings)
    (injected : Option (List Answer)) : CommandResult :=
  match h.logSetup? s with
  | none => { exitCode := 1 }
  | some setup =>
    let run := h.run visit s r.path injected
    match run.result with
    | .ok x =>
      let (stdout, exitCode) := resultOutput r s x
      { exitCode, stdout, setup, log := run.log }
    | .error (.failure f) =>
      { exitCode := 1, stdout := errorOutput f, setup
        log := run.log ++ [.error rootLogger s!"{f.name}: {f.text}"] }
    | .error (.fault _) => { exitCode := 1, setup, log := run.log }

/-- Answers a request whose paths exist. -/
def request (h : Host) (visit : Visitors) (r : Request) (injected : Option (List Answer)) :
    CommandResult :=
  if !h.isFolder r.path || (r.settingsFile.any fun f => !h.isFile f) then { exitCode := 2 }
  else
    match h.loadSettings r.settingsFile r.overrides with
    | .ok s => h.answer visit r s injected
    | .error (.failure f) => { exitCode := 1, stdout := errorOutput f }
    | .error (.fault _) => { exitCode := 1 }

/-- Carries out a command line; the answers of the generator may be given. -/
def commandLine (h : Host) (visit : Visitors) (args : List String)
    (injected : Option (List Answer)) : CommandResult :=
  match Command.ofArguments args with
  | .version => { stdout := s!"coderoast version {version}\n" }
  | .help => {}
  | .unclear => { exitCode := 2 }
  | .analyze r => h.request visit r injected

end Host

end EvidenceLock
