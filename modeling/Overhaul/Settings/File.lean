import Overhaul.Record.Scalar
import Overhaul.Settings
import Overhaul.Toml.Document

/-!
# Files of settings

Settings are kept in TOML, in two tables. What is left out has its usual value. Settings in a file
have to be in range.
-/

namespace Overhaul

/-- Why a file of settings is refused. -/
inductive SettingsError
  | unreadable
  | outOfRange (cause : SettingOutOfRange)
  deriving DecidableEq, Repr

/-- The text of the message. -/
def SettingsError.message : SettingsError → String
  | .unreadable => "invalid configuration TOML"
  | .outOfRange cause => cause.message

namespace Settings

/-- The settings with those of the table on transitions. -/
def withLifecycle? (s : Settings) (v : Node) : Option Settings := do
  let r ← Record.read? .toml ["early_start_grace_minutes", "late_cancel_window_hours"] v
  return { s with
    graceMinutes := ← r.optional? "early_start_grace_minutes" s.graceMinutes Node.int?
    windowHours := ← r.optional? "late_cancel_window_hours" s.windowHours Node.int? }

/-- The settings with those of the table on moves. -/
def withSchedule? (s : Settings) (v : Node) : Option Settings := do
  let r ← Record.read? .toml ["cascade_failure"] v
  return { s with
    cascade := ← r.optional? "cascade_failure" s.cascade (Node.named? .toml) }

/-- The settings that a document describes. -/
def ofNode? (v : Node) : Option Settings := do
  let r ← Record.read? .toml ["lifecycle", "schedule"] v
  let s : Settings := {}
  let s ← r.optional? "lifecycle" s (withLifecycle? s)
  r.optional? "schedule" s (withSchedule? s)

/-- The settings in a file with the given text. -/
def ofText (text : String) : Except SettingsError Settings :=
  match (Toml.ofText? text).bind ofNode? with
  | none => .error .unreadable
  | some s =>
    match s.outOfRange? with
    | some cause => .error (.outOfRange cause)
    | none => .ok s

end Settings

end Overhaul
