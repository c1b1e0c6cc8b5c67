import Overhaul.CommandLine.Run
import Overhaul.Id.Fresh

/-!
# The program

Everything that touches the world outside: files, the environment, the clock and chance.
-/

namespace Overhaul.CommandLine

/-- What is found at a path. There is nothing where the path leads nowhere. -/
def contentAt (path : String) : IO FileContent := do
  try
    discard (IO.FS.realPath path)
  catch _ => return .missing
  try
    return .text (← IO.FS.readFile path)
  catch _ => return .unreadable

/-- What the environment says of the caller. -/
def environment : IO Environment := do
  return {
    tenant := ← IO.getEnv "HANGAR_ACTOR_TENANT"
    user := ← IO.getEnv "HANGAR_ACTOR_USER"
    role := ← IO.getEnv "HANGAR_ACTOR_ROLE" }

/-- The present time: a file made just now bears it. -/
def presentTime : IO Timestamp := do
  let (_, path) ← IO.FS.createTempFile
  let made := (← path.metadata).modified
  IO.FS.removeFile path
  match Timestamp.at? (made.sec * nanosPerSecond + made.nsec.toNat) 0 with
  | some t => return t
  | none => throw (IO.userError "the clock is out of range")

/-- A number that nobody can foresee. -/
def randomNumber : IO Nat := do
  return (← IO.getRandomBytes 16).foldl (fun n b => n * 256 + b.toNat) 0

/-- Writes a file and the folders that it is in. -/
def writeFile (path text : String) : IO (Except ScheduleFileError Unit) := do
  let folder := (ScheduleFile.folder? path).getD ""
  try
    if folder ≠ "" then IO.FS.createDirAll folder
  catch _ => return .error (.noFolder folder)
  try
    IO.FS.writeFile path text
    return .ok ()
  catch _ => return .error (.notWritten path)

/-- Runs the invocation that the words spell. -/
def runWords (words : List String) : IO (Except RunError Unit) := do
  match Invocation.ofWords? words with
  | none => return .error .usage
  | some inv =>
    let clock ← presentTime
    let fresh := Id.freshBits (clock.unixNanos / 1000000).toNat (← randomNumber)
    match inv.run (← environment) (← contentAt inv.settingsPath) (← contentAt inv.schedulePath)
        clock fresh with
    | .error e => return .error e
    | .ok report =>
      IO.println report.output
      match report.saving with
      | none => return .ok ()
      | some (.error e) => return .error (.schedule e)
      | some (.ok text) => return (← writeFile inv.schedulePath text).mapError .schedule

end Overhaul.CommandLine

/-- Schedules aircraft maintenance tasks over a file. -/
def main (words : List String) : IO UInt32 := do
  match ← Overhaul.CommandLine.runWords words with
  | .ok () => return 0
  | .error .usage =>
    IO.eprintln ("Error: " ++ Overhaul.CommandLine.RunError.usage.message)
    return 2
  | .error e =>
    IO.eprintln ("Error: " ++ e.message)
    return 1
