import Overhaul.Text.Name
import Overhaul.Task.Transition

/-!
# Settings

A project sets how far from the plan work may start and be cancelled, and what becomes of a cascade
that fails half-way. Settings that were read from a file are checked to be in range
(`Settings.check`); any others are brought into range when they are used (`Settings.tolerances`).
-/

namespace Overhaul

/-- What becomes of the tasks that a cascade has moved when it fails half-way. -/
inductive CascadePolicy
  /-- They stay moved, and the change is recorded with them. -/
  | keepApplied
  /-- They are moved back. -/
  | rollBack
  deriving DecidableEq, Repr

instance : Named CascadePolicy where
  noun := "cascade policy"
  name
    | .keepApplied => "keep_applied"
    | .rollBack => "roll_back"
  all := [.keepApplied, .rollBack]

instance : LawfulNamed CascadePolicy where
  ofName?_name a := by cases a <;> decide

/-- What a project can set. -/
structure Settings where
  /-- How many minutes before its planned start a task may be started. -/
  graceMinutes : Int := 5
  /-- For how many hours after its planned start a task may be cancelled as a matter of course. -/
  windowHours : Int := 24
  cascade : CascadePolicy := .keepApplied
  deriving DecidableEq, Repr

/-- A setting that is out of range. -/
inductive SettingOutOfRange
  | graceMinutes (value : Int)
  | windowHours (value : Int)
  deriving DecidableEq, Repr

namespace Settings

/-- The minutes in a year. -/
abbrev maxGraceMinutes : Int := 525600

/-- The hours in a year. -/
abbrev maxWindowHours : Int := 8760

/-- The first setting that is out of range. -/
def outOfRange? (s : Settings) : Option SettingOutOfRange :=
  if ¬(0 ≤ s.graceMinutes ∧ s.graceMinutes ≤ maxGraceMinutes) then
    some (.graceMinutes s.graceMinutes)
  else if ¬(0 ≤ s.windowHours ∧ s.windowHours ≤ maxWindowHours) then
    some (.windowHours s.windowHours)
  else none

/-- The nearest number that is neither negative nor above `top`. -/
def within (n top : Int) : Int := max 0 (min n top)

/-- The tolerances that the settings stand for, brought into range. -/
def tolerances (s : Settings) : Tolerances where
  earlyStart := within s.graceMinutes maxGraceMinutes * 60
  lateCancel := within s.windowHours maxWindowHours * 3600

end Settings

/-- The text of the message. -/
def SettingOutOfRange.message : SettingOutOfRange → String
  | .graceMinutes n =>
    "lifecycle.early_start_grace_minutes must be between 0 and " ++
      toString Settings.maxGraceMinutes ++ ", got " ++ toString n
  | .windowHours n =>
    "lifecycle.late_cancel_window_hours must be between 0 and " ++
      toString Settings.maxWindowHours ++ ", got " ++ toString n

end Overhaul
