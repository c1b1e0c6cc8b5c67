import Overhaul.Json.Printer
import Overhaul.Store.Snapshot
import Overhaul.Toml.Document
import Overhaul.Toml.Printer

/-!
# Files with schedules

A file holds a snapshot, in TOML when its name says so and otherwise in JSON. Main definitions:
`ScheduleFile.load` and `ScheduleFile.save`.
-/

namespace Overhaul.CommandLine

/-- What is found at a path. -/
inductive FileContent
  | missing
  /-- Something that is no text. -/
  | unreadable
  | text (s : String)
  deriving DecidableEq, Repr

/-- How a snapshot is written. -/
inductive Format
  | json
  | toml
  deriving DecidableEq, Repr

namespace Format

/-- What messages call the format. -/
def noun : Format → String
  | json => "JSON"
  | toml => "TOML"

/-- The parts of a path; a part that stands for its own folder is none. -/
def parts (path : String) : List (List Char) :=
  ((path.toList.splitOn '/').filter (· ≠ [])).filter (· ≠ ['.'])

/-- What follows the last point of a name that has something in front of it. -/
def extension? (name : List Char) : Option (List Char) :=
  let after := (name.reverse.takeWhile (· ≠ '.')).reverse
  if after.length + 1 < name.length ∧ name ≠ ['.', '.'] then some after else none

/-- The format of the file at a path. -/
def ofPath (path : String) : Format :=
  match (parts path).getLast?.bind extension? with
  | some e => if e.map Char.toLower = ['t', 'o', 'm', 'l'] then toml else json
  | none => json

/-- The snapshot that a text in the format spells. -/
def read? : Format → String → Option Snapshot
  | json, s => Snapshot.ofJsonText? s
  | toml, s => (Toml.ofText? s).bind (Snapshot.ofNode? .toml)

/-- The snapshot as a text in the format. -/
def write? : Format → Snapshot → Option String
  | json, x => x.json?.map Json.page
  | toml, x => do
    let lists ← x.lists?
    Toml.ofFields? (lists.map fun l => (l.1, .arr (l.2.map fun r => .obj r.held)))

end Format

/-- Why the schedule in a file cannot be used, or not be saved. -/
inductive ScheduleFileError
  | unreadable (path : String)
  | invalid (path : String) (format : Format)
  | inconsistent (path : String) (cause : StoreError)
  | unwritable (format : Format)
  | noFolder (folder : String)
  | notWritten (path : String)
  deriving DecidableEq, Repr

/-- The text of the message. -/
def ScheduleFileError.message : ScheduleFileError → String
  | .unreadable path => "failed to read fixture " ++ path
  | .invalid path format =>
    "failed to parse fixture " ++ path ++ ": invalid " ++ format.noun ++ " fixture"
  | .inconsistent path cause => "inconsistent fixture " ++ path ++ ": " ++ cause.message
  | .unwritable format => "failed to encode " ++ format.noun ++ " fixture"
  | .noFolder folder => "failed to create " ++ folder
  | .notWritten path => "failed to write fixture " ++ path

namespace ScheduleFile

/-- The store in the file at a path. -/
def load (path : String) : FileContent → Except ScheduleFileError Store
  | .text s =>
    match (Format.ofPath path).read? s with
    | none => .error (.invalid path (Format.ofPath path))
    | some x => (Store.ofSnapshot x).mapError (.inconsistent path)
  | .missing | .unreadable => .error (.unreadable path)

/-- The store in the file at a path, which is empty when there is no file. -/
def loadIfAny (path : String) : FileContent → Except ScheduleFileError Store
  | .missing => .ok .empty
  | content => load path content

/-- The text of a file at a path that holds the store. -/
def save (path : String) (store : Store) : Except ScheduleFileError String :=
  match (Format.ofPath path).write? store.snapshot with
  | some s => .ok s
  | none => .error (.unwritable (Format.ofPath path))

/-- The folder that a file at a path is in; none for a path without parts. -/
def folder? (path : String) : Option String :=
  let trimmed := path.toList.reverse.dropWhile (· = '/')
  if trimmed = [] then none
  else some (String.ofList ((trimmed.dropWhile (· ≠ '/')).dropWhile (· = '/')).reverse)

end ScheduleFile

end Overhaul.CommandLine
