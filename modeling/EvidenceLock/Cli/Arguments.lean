import EvidenceLock.Decimal.Reading

/-
  The arguments of the command line. Options may stand before and after the path;
  a long option takes its value after an equals sign or from the next argument, and
  short options may be written together. After `--` nothing is an option.
-/

namespace EvidenceLock

/-- What is asked for when a folder is analysed. -/
structure Request where
  /-- The folder. -/
  path : String := "."
  /-- Fixes are attempted. -/
  fix : Bool := false
  /-- For how many issues at most. -/
  maxFixes : Option Int := none
  /-- The result is written as JSON. -/
  json : Bool := false
  /-- A settings file. -/
  settingsFile : Option String := none
  /-- Everything is logged and shown. -/
  verbose : Bool := false
  /-- Only errors are logged. -/
  quiet : Bool := false
  deriving DecidableEq, Repr, Inhabited

/-- What a command line asks for. -/
inductive Command where
  /-- The version. -/
  | version
  /-- An explanation. -/
  | help
  /-- The analysis of a folder. -/
  | analyze (r : Request)
  /-- Nothing that can be understood. -/
  | unclear
  deriving DecidableEq, Repr, Inhabited

namespace Arguments

/-- The options of an analysis. -/
inductive Choice where
  /-- Explain. -/
  | help
  /-- Attempt fixes. -/
  | fix
  /-- Write JSON. -/
  | json
  /-- Log and show everything. -/
  | verbose
  /-- Log errors only. -/
  | quiet
  /-- Limit the fixes. -/
  | maxFixes
  /-- Name a settings file. -/
  | settingsFile
  deriving DecidableEq, Repr

/-- The long options. -/
def long? (name : String) : Option Choice :=
  [("--help", Choice.help), ("--fix", .fix), ("--json", .json), ("--verbose", .verbose),
   ("--quiet", .quiet), ("--max-fixes", .maxFixes), ("--config", .settingsFile)].lookup name

/-- The short options. -/
def short? (c : Char) : Option Choice :=
  [('v', Choice.verbose), ('q', .quiet), ('c', .settingsFile)].lookup c

/-- The option needs a value. -/
def Choice.takesValue : Choice → Bool
  | .maxFixes | .settingsFile => true
  | _ => false

/-- What has been read so far. -/
structure Draft where
  /-- The request, apart from what follows. -/
  request : Request := {}
  /-- The arguments that are no options. -/
  operands : List String := []
  /-- The text of the limit. -/
  limit : Option String := none
  /-- An explanation is asked for. -/
  help : Bool := false

namespace Draft

/-- Takes an option into account; the value matters only where one is needed. -/
def take (d : Draft) (c : Choice) (value : String) : Draft :=
  match c with
  | .help => { d with help := true }
  | .fix => { d with request := { d.request with fix := true } }
  | .json => { d with request := { d.request with json := true } }
  | .verbose => { d with request := { d.request with verbose := true } }
  | .quiet => { d with request := { d.request with quiet := true } }
  | .maxFixes => { d with limit := some value }
  | .settingsFile => { d with request := { d.request with settingsFile := some value } }

/-- Takes a long option with what stands behind its equals sign; gives the arguments that are
left. -/
def takeLong (d : Draft) (c : Choice) (given : Option String) (rest : List String) :
    Option (Draft × List String) :=
  if c.takesValue then
    match given, rest with
    | some v, rest => some (d.take c v, rest)
    | none, v :: rest => some (d.take c v, rest)
    | none, [] => none
  else if given.isSome then none
  else some (d.take c "", rest)

/-- Takes short options written together; gives the arguments that are left. -/
def takeShort (d : Draft) (rest : List String) : List Char → Option (Draft × List String)
  | [] => some (d, rest)
  | c :: cs => do
    let choice ← short? c
    if choice.takesValue then
      if cs.isEmpty then d.takeLong choice none rest
      else some (d.take choice (String.ofList cs), rest)
    else (d.take choice "").takeShort rest cs

/-- Takes one argument that starts with a dash. -/
def takeOption (d : Draft) (arg : String) (rest : List String) : Option (Draft × List String) :=
  let cs := arg.toList
  let name := cs.takeWhile (· != '=')
  let given :=
    if name.length < cs.length then some (String.ofList (cs.drop (name.length + 1))) else none
  match long? (String.ofList name) with
  | some c => d.takeLong c given rest
  | none => if cs.take 2 = ['-', '-'] then none else d.takeShort rest (cs.drop 1)

/-- Takes all arguments. -/
def takeAll : (fuel : Nat) → Draft → List String → Option Draft
  | 0, d, _ => some d
  | fuel + 1, d, args =>
    match args with
    | [] => some d
    | a :: rest =>
      if a = "--" then some { d with operands := d.operands ++ rest }
      else if a.length > 1 && a.toList.head? == some '-' then do
        let (d, rest) ← d.takeOption a rest
        takeAll fuel d rest
      else takeAll fuel { d with operands := d.operands ++ [a] } rest

/-- The command that the arguments of an analysis ask for. -/
def command (d : Draft) : Command :=
  if d.help then .help
  else
    match d.operands, d.limit with
    | _ :: _ :: _, _ => .unclear
    | operands, limit =>
      let r := { d.request with path := operands.headD "." }
      match limit with
      | none => .analyze r
      | some text =>
        match Decimal.readInteger text with
        | .ok n => if n < 0 then .unclear else .analyze { r with maxFixes := some n }
        | .error _ => .unclear

end Draft

/-- The command that arguments ask for; `version` says that the version was asked for before. -/
def read (version : Bool) : List String → Command
  | [] => if version then .version else .help
  | a :: rest =>
    if a = "--version" then read true rest
    else if a = "--help" then .help
    else
      let args := if a = "--" then rest else a :: rest
      match args with
      | [] => if version then .version else .help
      | name :: rest =>
        if name = "analyze" then
          if version then .version
          else
            match Draft.takeAll (rest.length + 1) {} rest with
            | some d => d.command
            | none => .unclear
        else .unclear

end Arguments

/-- The command that arguments ask for. -/
def Command.ofArguments (args : List String) : Command := Arguments.read false args

end EvidenceLock
