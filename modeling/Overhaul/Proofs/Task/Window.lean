import Overhaul.Task.Window

/-!
# What becomes of a window

Main statements: when a window can be asked for and what it is then (`Window.between_eq_ok_iff`),
and what a task is after its window was replaced (`Task.withWindow_eq_ok_iff`) or moved
(`Task.shifted_eq_ok_iff`): the window and the time of the change are new, all else is as before.
-/

namespace Overhaul

theorem Timestamp.toUtc_eq_ok_iff {t u : Timestamp} : t.toUtc = .ok u ↔ t.inUtc? = some u := by
  unfold toUtc
  cases t.inUtc? <;> simp

/-- A time in UTC stays as it is. -/
theorem Timestamp.inUtc?_of_inUtc? {t u : Timestamp} (h : t.inUtc? = some u) :
    u.inUtc? = some u := by
  rw [inUtc?_eq_some_iff] at h ⊢
  exact ⟨rfl, h.2⟩

theorem Window.between_eq_ok_iff {a b : Timestamp} {w : Window} :
    Window.between a b = .ok w ↔
      a.unixNanos < b.unixNanos ∧ a.inUtc? = some w.start ∧ b.inUtc? = some w.finish := by
  unfold Window.between
  by_cases h : b.unixNanos ≤ a.unixNanos
  · simp only [h, if_true, throw, throwThe, MonadExceptOf.throw, bind, Except.bind,
      reduceCtorEq, false_iff]
    omega
  · simp only [← Timestamp.toUtc_eq_ok_iff]
    cases a.toUtc with
    | error e => simp [h, bind, Except.bind]
    | ok start =>
        cases b.toUtc with
        | error e => simp [h, bind, Except.bind]
        | ok finish =>
            obtain ⟨start', finish'⟩ := w
            simp [h, bind, Except.bind, pure, Except.pure]
            omega

/-- The ends of a window are in UTC and as far apart as those that were asked for. -/
theorem Window.between_self {a b : Timestamp} {w : Window} (h : Window.between a b = .ok w) :
    Window.between w.start w.finish = .ok w := by
  obtain ⟨hlt, ha, hb⟩ := between_eq_ok_iff.mp h
  refine between_eq_ok_iff.mpr ⟨?_, Timestamp.inUtc?_of_inUtc? ha, Timestamp.inUtc?_of_inUtc? hb⟩
  rw [(Timestamp.inUtc?_eq_some_iff.mp ha).1, (Timestamp.inUtc?_eq_some_iff.mp hb).1]
  exact hlt

namespace Task

theorem withWindow_eq_ok_iff {t t' : Task} {a b now : Timestamp} :
    t.withWindow a b now = .ok t' ↔ ∃ window updated, Window.between a b = .ok window ∧
      now.inUtc? = some updated ∧
      t' = { t with start := window.start, finish := window.finish, updated } := by
  unfold withWindow
  cases Window.between a b with
  | error e => simp [bind, Except.bind]
  | ok window =>
      simp only [← Timestamp.toUtc_eq_ok_iff]
      cases now.toUtc with
      | error e => simp [bind, Except.bind]
      | ok updated => simp [bind, Except.bind, pure, Except.pure, eq_comm]

theorem shifted_eq_ok_iff {t t' : Task} {nanos : Int} {now : Timestamp} :
    t.shifted nanos now = .ok t' ↔ ∃ start finish updated, t.start.shift? nanos = some start ∧
      t.finish.shift? nanos = some finish ∧ now.inUtc? = some updated ∧
      t' = { t with start, finish, updated } := by
  unfold shifted
  cases t.start.shift? nanos with
  | none => simp [throw, throwThe, MonadExceptOf.throw]
  | some start =>
      cases t.finish.shift? nanos with
      | none => simp [throw, throwThe, MonadExceptOf.throw]
      | some finish =>
          simp only [← Timestamp.toUtc_eq_ok_iff]
          cases now.toUtc with
          | error e => simp [bind, Except.bind]
          | ok updated => simp [bind, Except.bind, pure, Except.pure, eq_comm]

/-- Only a time that cannot be shown keeps a task from being moved along. -/
theorem shifted_eq_error {t : Task} {nanos : Int} {now : Timestamp} {f : Failure}
    (h : t.shifted nanos now = .error f) :
    f = .invalid .windowOutOfRange ∨ f = .beyondUtc ∧ now.inUtc? = none := by
  unfold shifted Timestamp.toUtc at h
  split at h
  · cases hnow : now.inUtc? with
    | none =>
        rw [hnow] at h
        cases h
        exact .inr ⟨rfl, rfl⟩
    | some u =>
        rw [hnow] at h
        cases h
  · cases h
    exact .inl rfl

end Task

end Overhaul
