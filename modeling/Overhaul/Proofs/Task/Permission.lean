import Mathlib.Order.Lattice
import Overhaul.Proofs.Demand
import Overhaul.Settings

/-!
# Who may take a task where

`Transition.demands` is the table of what an actor has to meet to take a task to a state, in the order
in which it is looked at, and `Transition.Permitted` says what this comes to. Both compare times as
whole numbers, of which there is one before and after every other. The check moves the planned start
instead, which not every clock can show; near the ends of the calendar this makes no difference. Main
statement: the check is as the table says, whatever the settings are (`Transition.check_decides`).
-/

namespace Overhaul

namespace Settings

/-- For how many minutes before its planned start a task may be started, at most a year. -/
def earlyMinutes (s : Settings) : Int := max 0 (min s.graceMinutes 525600)

/-- For how many hours after its planned start a task may be cancelled, at most a year. -/
def lateHours (s : Settings) : Int := max 0 (min s.windowHours 8760)

theorem earlyStart_tolerances (s : Settings) : s.tolerances.earlyStart = s.earlyMinutes * 60 := rfl

theorem lateCancel_tolerances (s : Settings) : s.tolerances.lateCancel = s.lateHours * 3600 := rfl

theorem earlyMinutes_nonneg (s : Settings) : 0 ≤ s.earlyMinutes := le_max_left _ _

theorem lateHours_nonneg (s : Settings) : 0 ≤ s.lateHours := le_max_left _ _

end Settings

namespace Transition

/-- Somebody is to do the work, and no other mechanic takes it on. -/
def staffing (actor : Actor) (task : Task) : List Demand := [
  ⟨task.mechanic ≠ none, .conflict .noMechanic⟩,
  ⟨∀ mechanic, task.mechanic = some mechanic → actor.role = .mechanic → actor.user = mechanic,
    .forbidden .workOfAnother⟩]

/-- What it takes to bring a task to another state. -/
def demands (settings : Settings) (actor : Actor) (task : Task) (c : Circumstances) :
    TaskState → List Demand
  | .inProgress =>
    ⟨task.state = .scheduled, .conflict (.wrongState task.state .inProgress)⟩ ::
    staffing actor task ++ [
    ⟨c.aircraft = .grounded, .conflict .notGrounded⟩,
    ⟨task.start.unixNanos - settings.earlyMinutes * nanosPerMinute ≤ c.now.unixNanos,
      .conflict (.tooEarly settings.earlyMinutes)⟩]
  | .completed =>
    ⟨task.state = .inProgress, .conflict (.wrongState task.state .completed)⟩ ::
    staffing actor task ++ [
    ⟨task.finish.unixNanos ≤ c.now.unixNanos ∨
      c.allowEarlyCompletion = true ∧ (actor.role = .scheduler ∨ actor.role = .admin),
      .conflict .notOver⟩,
    ⟨c.reservationsClosed = true, .conflict .reservationsOpen⟩,
    ⟨c.requirePartsUsed = true → c.partsUsed = true, .conflict .partsNotUsed⟩,
    ⟨c.signedOff = true, .conflict .notSignedOff⟩,
    ⟨Text.trimmed c.notes ≠ "", .invalid .notesMissing⟩]
  | .cancelled => [
    ⟨task.state ≠ .completed, .conflict .alreadyCompleted⟩,
    ⟨actor.role = .scheduler ∨ actor.role = .admin, .forbidden .cancelling⟩,
    ⟨c.now.unixNanos ≤ task.start.unixNanos + settings.lateHours * nanosPerHour ∨
      c.allowLateCancel = true, .conflict (.tooLate settings.lateHours)⟩]
  | .scheduled => [⟨False, .invalid (.notATarget task.id .scheduled)⟩]

/-- Somebody is to do the work of the task, and the actor is no other mechanic. -/
def Staffed (actor : Actor) (task : Task) : Prop :=
  ∃ mechanic, task.mechanic = some mechanic ∧ ¬(actor.role = .mechanic ∧ actor.user ≠ mechanic)

/-- The actor may take the task to the state. -/
inductive Permitted (settings : Settings) (actor : Actor) (task : Task) (c : Circumstances) :
    TaskState → Prop
  /-- Any task may stay where it is. -/
  | stays {target : TaskState} : target = task.state → Permitted settings actor task c target
  | begins :
      task.state = .scheduled → Staffed actor task → c.aircraft = .grounded →
      task.start.unixNanos - settings.earlyMinutes * nanosPerMinute ≤ c.now.unixNanos →
      Permitted settings actor task c .inProgress
  | completes :
      task.state = .inProgress → Staffed actor task →
      task.finish.unixNanos ≤ c.now.unixNanos ∨
        c.allowEarlyCompletion = true ∧ (actor.role = .scheduler ∨ actor.role = .admin) →
      c.reservationsClosed = true → (c.requirePartsUsed = true → c.partsUsed = true) →
      c.signedOff = true → Text.trimmed c.notes ≠ "" → Permitted settings actor task c .completed
  | ends :
      task.state = .scheduled ∨ task.state = .inProgress →
      actor.role = .scheduler ∨ actor.role = .admin →
      c.now.unixNanos ≤ task.start.unixNanos + settings.lateHours * nanosPerHour ∨
        c.allowLateCancel = true →
      Permitted settings actor task c .cancelled

variable {settings : Settings} {actor : Actor} {task : Task} {c : Circumstances}

theorem met_staffing {rest : List Demand} :
    Demand.Met (staffing actor task ++ rest) ↔ Staffed actor task ∧ Demand.Met rest := by
  simp only [staffing, List.cons_append, List.nil_append, Demand.met_cons, ← and_assoc, Staffed]
  refine and_congr_left fun _ => ?_
  cases task.mechanic with
  | none => simp
  | some mechanic => simp

/-- A task that is not in the state may be taken there when all that it takes is met. -/
theorem permitted_iff_met {target : TaskState} (hne : task.state ≠ target) :
    Permitted settings actor task c target ↔ Demand.Met (demands settings actor task c target) := by
  have hnil : Demand.Met [] := by simp [Demand.Met]
  cases target with
  | scheduled =>
      simp only [demands, Demand.met_cons, false_and, iff_false]
      intro h
      cases h with
      | stays hsame => exact hne hsame.symm
  | inProgress =>
      simp only [demands, List.cons_append, Demand.met_cons, met_staffing, hnil, and_true]
      constructor
      · intro h
        cases h with
        | stays hsame => exact absurd hsame.symm hne
        | begins hstate hstaffed haircraft hstart => exact ⟨hstate, hstaffed, haircraft, hstart⟩
      · rintro ⟨hstate, hstaffed, haircraft, hstart⟩
        exact .begins hstate hstaffed haircraft hstart
  | completed =>
      simp only [demands, List.cons_append, Demand.met_cons, met_staffing, hnil, and_true]
      constructor
      · intro h
        cases h with
        | stays hsame => exact absurd hsame.symm hne
        | completes hstate hstaffed hover hreservations hparts hsigned hnotes =>
            exact ⟨hstate, hstaffed, hover, hreservations, hparts, hsigned, hnotes⟩
      · rintro ⟨hstate, hstaffed, hover, hreservations, hparts, hsigned, hnotes⟩
        exact .completes hstate hstaffed hover hreservations hparts hsigned hnotes
  | cancelled =>
      have hopen : task.state ≠ .completed ↔ task.state = .scheduled ∨ task.state = .inProgress := by
        cases hstate : task.state <;> simp_all
      simp only [demands, Demand.met_cons, hnil, and_true, hopen]
      constructor
      · intro h
        cases h with
        | stays hsame => exact absurd hsame.symm hne
        | ends hstate hrole htime => exact ⟨hstate, hrole, htime⟩
      · rintro ⟨hstate, hrole, htime⟩
        exact .ends hstate hrole htime

/-! ### Near the ends of the calendar -/

section

variable {t now : Timestamp} {nanos : Int}

/-- Where a clock in UTC cannot show a time that is moved, this lies before all that such clocks can
show, or after it. -/
theorem beyond_of_shift?_eq_none (hnow : now.offset = 0) (ht : t.offset = 0)
    (h : t.shift? nanos = none) : nanos < 0 ∧ t.unixNanos + nanos < now.unixNanos ∨
      0 < nanos ∧ now.unixNanos < t.unixNanos + nanos := by
  have hnone := Timestamp.shift?_isSome_iff.not.mp (by rw [h]; decide)
  have hrange := now.in_years
  have hrange' := t.in_years
  rw [Timestamp.clockNanos, ht] at hnone
  rw [hnow] at hrange
  rw [ht] at hrange'
  omega

/-- A time that is moved back is later than the present when its number is. -/
theorem lt_shift?_iff (hnow : now.offset = 0) (ht : t.offset = 0) (hback : nanos ≤ 0) :
    (match t.shift? nanos with
      | some u => decide (now.unixNanos < u.unixNanos)
      | none => false) = true ↔ now.unixNanos < t.unixNanos + nanos := by
  cases hshift : t.shift? nanos with
  | some u => simp [(Timestamp.shift?_eq_some_iff.mp hshift).1]
  | none =>
      have hbeyond := beyond_of_shift?_eq_none hnow ht hshift
      simp only [Bool.false_eq_true, false_iff]
      omega

/-- A time that is moved on is before the present when its number is. -/
theorem shift?_lt_iff (hnow : now.offset = 0) (ht : t.offset = 0) (hon : 0 ≤ nanos) :
    (match t.shift? nanos with
      | some u => decide (u.unixNanos < now.unixNanos)
      | none => false) = true ↔ t.unixNanos + nanos < now.unixNanos := by
  cases hshift : t.shift? nanos with
  | some u => simp [(Timestamp.shift?_eq_some_iff.mp hshift).1]
  | none =>
      have hbeyond := beyond_of_shift?_eq_none hnow ht hshift
      simp only [Bool.false_eq_true, false_iff]
      omega

end

theorem isTooEarly_iff (hnow : c.now.offset = 0) (hstart : task.start.offset = 0) :
    isTooEarly task c.now settings.tolerances = true ↔
      ¬task.start.unixNanos - settings.earlyMinutes * nanosPerMinute ≤ c.now.unixNanos := by
  have hnonneg := settings.earlyMinutes_nonneg
  have hnanos : -settings.tolerances.earlyStart * nanosPerSecond =
      -(settings.earlyMinutes * nanosPerMinute) := by
    simp only [settings.earlyStart_tolerances, nanosPerMinute, nanosPerSecond]
    omega
  have hback : -(settings.earlyMinutes * nanosPerMinute) ≤ 0 := by
    simp only [nanosPerMinute]
    omega
  unfold isTooEarly
  rw [hnanos]
  refine (lt_shift?_iff hnow hstart hback).trans ?_
  omega

theorem isTooLate_iff (hnow : c.now.offset = 0) (hstart : task.start.offset = 0) :
    isTooLate task c.now settings.tolerances = true ↔
      ¬c.now.unixNanos ≤ task.start.unixNanos + settings.lateHours * nanosPerHour := by
  have hnonneg := settings.lateHours_nonneg
  have hnanos : settings.tolerances.lateCancel * nanosPerSecond =
      settings.lateHours * nanosPerHour := by
    simp only [settings.lateCancel_tolerances, nanosPerHour, nanosPerSecond]
    omega
  have hon : 0 ≤ settings.lateHours * nanosPerHour := by
    simp only [nanosPerHour]
    omega
  unfold isTooLate
  rw [hnanos]
  refine (shift?_lt_iff hnow hstart hon).trans ?_
  omega

/-! ### The order of the tests -/

/-- What is demanded decides a check: it is passed, or fails for the first demand that is not met. -/
abbrev Decides (demands : List Demand) (r : Except Failure Unit) : Prop :=
  Demand.Decides demands .error (· = .ok ()) r

section

variable {p t : Prop} [Decidable t] {f : Failure} {rest : List Demand}
  {k : Unit → Except Failure Unit}

/-- A test that others follow. -/
theorem decides_guard (ht : t ↔ ¬p) (h : Decides rest (k ())) :
    Decides (⟨p, f⟩ :: rest) (if t then throw f >>= k else k ()) := by
  refine Demand.decides_cons (fun hp => ?_) fun hp => ?_
  · rw [if_pos (ht.mpr hp)]
    rfl
  · rwa [if_neg fun h => ht.mp h hp]

/-- The last test. -/
theorem decides_last (ht : t ↔ ¬p) : Decides [⟨p, f⟩] (if t then throw f else pure ()) :=
  decides_guard (k := pure) ht (Demand.decides_nil rfl)

theorem decides_requireState {source target : TaskState} (h : Decides rest (k ())) :
    Decides (⟨task.state = source, .conflict (.wrongState task.state target)⟩ :: rest)
      (requireState task source target >>= k) := by
  refine Demand.decides_cons (fun hstate => ?_) fun hstate => ?_
  · rw [requireState, if_neg hstate]
    rfl
  · rw [requireState, if_pos hstate]
    exact h

theorem decides_requireMechanic (h : Decides rest (k ())) :
    Decides (staffing actor task ++ rest) (requireMechanic actor task >>= k) := by
  unfold requireMechanic
  cases hmechanic : task.mechanic with
  | none => exact Demand.decides_cons (fun _ => rfl) fun hsome => absurd hmechanic hsome
  | some mechanic =>
      refine Demand.decides_cons (fun hnone => absurd (hmechanic ▸ hnone) (by simp)) fun _ => ?_
      simp only [hmechanic]
      refine Demand.decides_cons (fun hother => ?_) fun hown => ?_
      · rw [if_pos]
        · rfl
        · simpa using hother
      · rw [if_neg]
        · exact h
        · rintro ⟨hrole, hne⟩
          exact hne (hown mechanic rfl hrole)

end

theorem managesWork_iff :
    actor.managesWork = true ↔ actor.role = .scheduler ∨ actor.role = .admin := by
  simp [Actor.managesWork]

/-- What it takes is looked at in the order of the table. -/
theorem decides_check (hnow : c.now.offset = 0) (hstart : task.start.offset = 0) {target : TaskState}
    (hne : task.state ≠ target) :
    Decides (demands settings actor task c target)
      (check actor task target c settings.tolerances) := by
  have hminutes : settings.tolerances.earlyStart.tdiv 60 = settings.earlyMinutes := by
    rw [settings.earlyStart_tolerances]
    exact Int.mul_tdiv_cancel _ (by decide)
  have hhours : settings.tolerances.lateCancel.tdiv 3600 = settings.lateHours := by
    rw [settings.lateCancel_tolerances]
    exact Int.mul_tdiv_cancel _ (by decide)
  unfold check
  rw [if_neg hne]
  cases target with
  | scheduled => exact Demand.decides_cons (fun _ => rfl) False.elim
  | inProgress =>
      dsimp only
      unfold checkStart
      rw [hminutes]
      refine decides_requireState (decides_requireMechanic (decides_guard Iff.rfl ?_))
      exact decides_last (isTooEarly_iff hnow hstart)
  | completed =>
      refine decides_requireState (decides_requireMechanic ?_)
      refine decides_guard ?_ (decides_guard ?_ (decides_guard ?_ (decides_guard ?_ ?_)))
      · rw [managesWork_iff, not_or, Int.not_le]
      · simp
      · simp
      · simp
      · exact decides_last (by simp)
  | cancelled =>
      dsimp only
      unfold checkCancellation
      rw [hhours]
      refine decides_guard (by simp) (decides_guard ?_ (decides_last ?_))
      · rw [← managesWork_iff]
        simp
      · rw [not_or, ← isTooLate_iff hnow hstart]
        simp

/-- For whatever actor, task and circumstances, and whatever the settings are, as long as the present
and the planned start are shown by a clock in UTC: a transition passes the check exactly when it is
permitted, and otherwise fails for the first demand of the table that is not met. -/
theorem check_decides (settings : Settings) (actor : Actor) (task : Task) (c : Circumstances)
    (target : TaskState) (hnow : c.now.offset = 0) (hstart : task.start.offset = 0) :
    (check actor task target c settings.tolerances = .ok () ↔
      Permitted settings actor task c target) ∧
    ∀ f, check actor task target c settings.tolerances = .error f ↔
      task.state ≠ target ∧ Demand.Refuses (demands settings actor task c target) f := by
  by_cases hne : task.state = target
  · have hok : check actor task target c settings.tolerances = .ok () := if_pos hne
    rw [hok]
    exact ⟨⟨fun _ => .stays hne.symm, fun _ => rfl⟩, fun f => by simp [hne]⟩
  · have hdecides : Decides (demands settings actor task c target)
        (check actor task target c settings.tolerances) := decides_check hnow hstart hne
    have herror : ∀ f, check actor task target c settings.tolerances = .error f ↔
        Demand.Refuses (demands settings actor task c target) f :=
      fun f => hdecides.eq_refuse_iff (fun _ _ h => Except.error.inj h) (by simp)
    refine ⟨?_, fun f => (herror f).trans (by simp [hne])⟩
    rw [permitted_iff_met hne]
    refine ⟨fun hok => hdecides.met fun f => ?_, hdecides.accepted⟩
    rw [hok]
    simp

/-- The work that is planned for the first moment of the calendar may begin then, though no clock
shows the start of the tolerance; a mechanic who is not to do it is refused before the aircraft is
looked at. -/
theorem check_decides_first :
    let first : Timestamp := { unixNanos := -4371587 * nanosPerDay, offset := 0 }
    let settings : Settings := { graceMinutes := 9223372036854775807 }
    let task : Task := {
      id := .ofNat 1, tenant := .ofNat 1, aircraft := .ofNat 1, program := none
      kind := "inspection", state := .scheduled, start := first, finish := first
      mechanic := some (.ofNat 1), notes := "", deleted := none, created := first, updated := first }
    first.shift? (-settings.tolerances.earlyStart * nanosPerSecond) = none ∧
      check ⟨.ofNat 1, .ofNat 1, .mechanic⟩ task .inProgress { aircraft := .grounded, now := first }
        settings.tolerances = .ok () ∧
      check ⟨.ofNat 1, .ofNat 2, .mechanic⟩ task .inProgress { aircraft := .retired, now := first }
        settings.tolerances = .error (.forbidden .workOfAnother) := by
  intro first settings task
  refine ⟨by decide, ?_, ?_⟩
  · refine (check_decides settings _ task _ .inProgress rfl rfl).1.mpr ?_
    exact .begins rfl ⟨_, rfl, by decide⟩ rfl (by decide)
  · refine ((check_decides settings _ task _ .inProgress rfl rfl).2 _).mpr ⟨by decide, .later rfl ?_⟩
    refine .later (by simp [task]) (.first fun h => ?_)
    exact absurd (h _ rfl rfl) (by decide)

end Transition

end Overhaul
