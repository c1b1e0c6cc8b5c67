import Overhaul.CommandLine.FileTree
import Overhaul.CommandLine.Invocation
import Overhaul.Settings.File
import Overhaul.World

/-!
# Running an invocation

An invocation is run on what is found in the files of the settings and of the schedule: the store in
the file is loaded, the service does one operation on it and announces changes in its outbox, and
what it answers is printed. The store is saved if that was asked for and the command can have
changed it. Main definitions: `Invocation.run` and, among files, `Invocation.runAmong`.
-/

namespace Overhaul.CommandLine

/-- Why a run ends without having done everything. -/
inductive RunError
  | usage
  | caller (cause : CallerError)
  | settingsUnreadable (path : String)
  | settings (path : String) (cause : SettingsError)
  | schedule (cause : ScheduleFileError)
  | operation (cause : Failure)
  | unprintable
  deriving DecidableEq, Repr

/-- The text of the message. -/
def RunError.message : RunError → String
  | .usage => "the command line is not understood"
  | .caller cause => cause.message
  | .settingsUnreadable path => "failed to read " ++ path
  | .settings path cause => "failed to load " ++ path ++ ": " ++ cause.message
  | .schedule cause => cause.message
  | .operation (.error cause) => cause.message
  | .operation .beyondUtc => "a time is past the years that UTC can show"
  | .unprintable => "failed to encode output"

/-- What a run gives. -/
structure Report where
  /-- What is printed. -/
  output : String
  /-- The text that the file of the schedule gets, or why it gets none; nothing when the file
  stays. -/
  saving : Option (Except ScheduleFileError String)

/-- Records as one value; none when one of them cannot be written. -/
def listed? (records : List (Option Fields)) : Option Json :=
  (records.mapM id).map fun rs => .arr (rs.map Fields.json)

/-- The printed form of an answer; none when it holds a time that cannot be written. -/
def answerJson? : Answer → Option Json
  | .dependency d => d.fields?.map Fields.json
  | .removed id => some (.obj [("dependency", id.json)])
  | .dependencies ds => listed? (ds.map Dependency.fields?)
  | .change c => c.fields?.map Fields.json
  | .changes cs => listed? (cs.map ScheduleChange.fields?)
  | .conflicts cs => listed? (cs.map fun c => some c.fields)
  | .task t => t.fields?.map Fields.json

namespace Command

/-- The operation that the command asks for; none when it just lists tasks. -/
def operation? (ctx : Context) : Command → Option (Except Failure Operation)
  | tasks _ => none
  | depend task prerequisite kind => some (.ok (.depend task prerequisite kind))
  | undepend id => some (.ok (.undepend id))
  | dependencies task => some (.ok (.dependencies task))
  | dependents task => some (.ok (.dependents task))
  | reschedule move => some (.ok (.reschedule move))
  | history task => some (.ok (.history task))
  | conflicts => some (.ok .conflicts)
  | transition task target conditions =>
    some (do return .transition task target ⟨conditions, ← ctx.now⟩)

/-- The states to list. -/
def states : Command → List TaskState
  | tasks states => states
  | _ => []

/-- What the command prints, and the store that it leaves. -/
def run (command : Command) (setup : Setup) (ctx : Context) (store : Store) :
    Except RunError (Option Json × Store) :=
  match command.operation? ctx with
  | none =>
    let found := store.tasksWhere { scope := ctx.scope, states := command.states }
    .ok (listed? (found.map Task.fields?), store)
  | some operation => do
    let operation ← operation.mapError .operation
    let (result, world) := World.runOperation { store } setup ctx operation
    let answer ← result.mapError .operation
    return (answerJson? answer, world.store)

end Command

namespace Invocation

/-- The settings in their file. -/
def loadSettings (path : String) : FileContent → Except RunError Settings
  | .missing => .ok {}
  | .unreadable => .error (.settingsUnreadable path)
  | .text s => (Settings.ofText s).mapError (.settings path)

/-- What the invocation gives, and what it leaves in the file of the schedule. -/
def run (inv : Invocation) (env : Environment) (settingsFile scheduleFile : FileContent)
    (clock : Timestamp) (fresh : BitVec 128) : Except RunError Report := do
  let actor ← (inv.caller.actor env).mapError .caller
  let settings ← loadSettings inv.settingsPath settingsFile
  let store ← (ScheduleFile.loadIfAny inv.schedulePath scheduleFile).mapError .schedule
  let (printed, store) ← inv.command.run { settings } { actor, clock, fresh } store
  match printed with
  | none => throw .unprintable
  | some v =>
    return {
      output := v.page
      saving := if inv.write && inv.command.changesSchedule then
          some (ScheduleFile.save inv.schedulePath store)
        else none }

/-- What the invocation prints among the files, or why it fails, and the files that it leaves. What
is saved is a change of a schedule that was found in its file, so the file is there. -/
def runAmong (inv : Invocation) (env : Environment) (tree : FileTree) (clock : Timestamp)
    (fresh : BitVec 128) : Except RunError String × FileTree :=
  match inv.run env (tree.content inv.settingsPath) (tree.content inv.schedulePath) clock fresh with
  | .error e => (.error e, tree)
  | .ok report =>
    match report.saving with
    | none => (.ok report.output, tree)
    | some (.error e) => (.error (.schedule e), tree)
    | some (.ok text) => (.ok report.output, tree.overwrite inv.schedulePath text)

end Invocation

end Overhaul.CommandLine
