import Overhaul.CommandLine.Caller
import Overhaul.Service.Operation
import Overhaul.Timestamp.Rfc3339

/-!
# Invocations

The words of a command line are options, the name of a command, and options of the command. Who
calls can be said in either place. An invocation that is not understood is refused as a whole.
-/

namespace Overhaul.CommandLine

/-- What is to be done. -/
inductive Command
  /-- List the tasks in the given states. -/
  | tasks (states : List TaskState)
  | depend (task prerequisite : TaskId) (kind : Option DependencyKind)
  | undepend (id : DependencyId)
  | dependencies (task : TaskId)
  | dependents (task : TaskId)
  | reschedule (move : Move)
  | history (task : TaskId)
  | conflicts
  | transition (task : TaskId) (target : TaskState) (conditions : Conditions)
  deriving DecidableEq, Repr

/-- The command changes the schedule when it succeeds. -/
def Command.changesSchedule : Command → Bool
  | .depend _ _ _ | .undepend _ | .reschedule _ | .transition _ _ _ => true
  | .tasks _ | .dependencies _ | .dependents _ | .history _ | .conflicts => false

/-- A command line that was understood. -/
structure Invocation where
  /-- The folder of the project. -/
  folder : String
  /-- The file with the schedule, if it is not at its usual place. -/
  file : Option String
  /-- Changes are to be saved. -/
  write : Bool
  caller : CallerFlags
  command : Command
  deriving DecidableEq, Repr

namespace Command

/-- The options of a command. -/
def options? (name : String) : Option Options :=
  match name with
  | "tasks" => some { single := CallerFlags.options, repeated := ["state"] }
  | "conflicts" => some { single := CallerFlags.options }
  | "depend" => some { single := CallerFlags.options ++ ["task", "on", "kind"] }
  | "undepend" => some { single := CallerFlags.options ++ ["dependency"] }
  | "deps" => some { single := CallerFlags.options ++ ["task"] }
  | "dependents" => some { single := CallerFlags.options ++ ["task"] }
  | "history" => some { single := CallerFlags.options ++ ["task"] }
  | "reschedule" => some {
      flags := ["cascade"]
      single := CallerFlags.options ++ ["task", "start", "end", "reason"] }
  | "transition" => some {
      flags := ["reservations-closed", "require-parts-used", "parts-used", "signed-off",
        "allow-early-completion", "allow-late-cancel"]
      single := CallerFlags.options ++ ["task", "state", "aircraft", "notes"] }
  | _ => none

/-- The conditions that the given options describe. -/
def conditions? (given : Given) : Option Conditions := do
  let aircraft ← given.optional? "aircraft" Named.ofName?
  let notes ← given.optional? "notes" some
  return {
    aircraft := aircraft.getD .grounded
    reservationsClosed := given.has "reservations-closed"
    requirePartsUsed := given.has "require-parts-used"
    partsUsed := given.has "parts-used"
    signedOff := given.has "signed-off"
    allowEarlyCompletion := given.has "allow-early-completion"
    allowLateCancel := given.has "allow-late-cancel"
    notes := notes.getD "" }

/-- The command with the given options. -/
def ofGiven? (name : String) (given : Given) : Option Command := do
  match name with
  | "tasks" => return .tasks (← (given.values "state").mapM CallerFlags.name?)
  | "conflicts" => return .conflicts
  | "depend" =>
    return .depend (← given.required? "task" Id.ofText?) (← given.required? "on" Id.ofText?)
      (← given.optional? "kind" CallerFlags.name?)
  | "undepend" => return .undepend (← given.required? "dependency" Id.ofText?)
  | "deps" => return .dependencies (← given.required? "task" Id.ofText?)
  | "dependents" => return .dependents (← given.required? "task" Id.ofText?)
  | "history" => return .history (← given.required? "task" Id.ofText?)
  | "reschedule" =>
    return .reschedule {
      task := ← given.required? "task" Id.ofText?
      start := ← given.required? "start" Timestamp.ofText?
      finish := ← given.required? "end" Timestamp.ofText?
      reason := ← given.required? "reason" some
      cascade := given.has "cascade" }
  | "transition" =>
    return .transition (← given.required? "task" Id.ofText?)
      (← given.required? "state" CallerFlags.name?) (← conditions? given)
  | _ => none

end Command

namespace Invocation

/-- The options in front of the name of the command. -/
def options : Options where
  flags := ["write"]
  single := ["workdir", "fixture"] ++ CallerFlags.options

/-- A path, which is never empty. -/
def path? (s : String) : Option String := if s = "" then none else some s

/-- The invocation that the words spell. -/
def ofWords? (words : List String) : Option Invocation := do
  let (given, rest) ← options.read? words
  match rest with
  | [] => none
  | name :: rest =>
    let (given', left) ← (← Command.options? name).read? rest
    if left ≠ [] then none
    return {
      folder := (← given.optional? "workdir" path?).getD "."
      file := ← given.optional? "fixture" path?
      write := given.has "write"
      caller := (← CallerFlags.ofGiven? given').orElse (← CallerFlags.ofGiven? given)
      command := ← Command.ofGiven? name given' }

/-- The path of something inside a folder. -/
def inFolder (folder path : String) : String :=
  if folder.toList.getLast? = some '/' then folder ++ path else folder ++ "/" ++ path

/-- The path of the file with the settings. -/
def settingsPath (inv : Invocation) : String := inFolder inv.folder ".hangar/config.toml"

/-- The path of the file with the schedule. -/
def schedulePath (inv : Invocation) : String :=
  inv.file.getD (inFolder inv.folder ".hangar/schedule.json")

end Invocation

end Overhaul.CommandLine
