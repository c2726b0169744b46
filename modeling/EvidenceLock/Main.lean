import EvidenceLock.Cli.CommandLine
import EvidenceLock.Syntax.Visitor

/-
  The program. It reads the paths of the files that may be looked at from standard
  input, one on a line, and carries out its arguments over these files and the settings
  files. What was logged goes to the error output.
-/

namespace EvidenceLock

/-- The lines of a stream up to its end. -/
partial def readLines (stream : IO.FS.Stream) (lines : Array String) : IO (Array String) := do
  let line ← stream.getLine
  if line.isEmpty then return lines
  readLines stream (lines.push (String.ofList (line.toList.filter (· != '\n'))))

/-- A host with the file under a path added, if that can be read. -/
def withFile (h : Host) (path : String) : IO Host := do
  try
    let bytes ← IO.FS.readBinFile path
    return h.write path (bytes.toList.map UInt8.toNat)
  catch _ => return h

/-- The host of the program over some files. -/
def hostWith (paths : List String) : IO Host := do
  let workdir := (← IO.getEnv "PWD").getD "/"
  let home := (← IO.getEnv "HOME").getD "/"
  let environment ← variableNames.filterMapM fun name => do
    return (← IO.getEnv name).map ((name, ·))
  let empty : Host := { workdir, home, environment }
  let h := (empty.makeFolder workdir).makeFolder home
  (paths ++ [h.homeSettings, h.workSettings]).foldlM withFile h

end EvidenceLock

open EvidenceLock in
/-- Carries out the arguments. -/
def main (args : List String) : IO UInt32 := do
  let paths ← readLines (← IO.getStdin) #[]
  let named := match Command.ofArguments args with
    | .analyze r => r.settingsFile.toList
    | _ => []
  let h ← hostWith (paths.toList ++ named)
  let result := h.commandLine Syntax.visitors args none
  IO.print result.stdout
  for line in result.terminalLines do
    IO.eprintln line
  return result.exitCode.toUInt32
