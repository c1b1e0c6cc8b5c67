import Overhaul.Proofs.Reschedule.Permitted
import Overhaul.Proofs.Timestamp.Years

/-!
# Moves that no clock can follow

A move that is in order may still go too far for a task that it takes along. `Store.Considers` lists
what it takes for a move to be in order. Main statement: when nothing goes wrong, a move that is in
order is refused exactly when a clock of a task that it would take along cannot show the time to which
it would be moved, before anything is written, and succeeds otherwise (`refused_iff_overruns`).
-/

namespace Overhaul

open Relation

/-- A task can be moved when the clocks at both ends of its window can show the new times. -/
theorem Task.shiftable_iff_showable {t : Task} {nanos : Int} : t.Shiftable nanos ↔
    Timestamp.Showable (t.start.unixNanos + nanos) t.start.offset ∧
      Timestamp.Showable (t.finish.unixNanos + nanos) t.finish.offset :=
  and_congr Timestamp.shift?_isSome_iff_showable Timestamp.shift?_isSome_iff_showable

namespace Store

/-- The move is in order: a window that UTC can show and a reason are given, the caller sees the task
and may move it, it is open, the clock shows a time, and the identifier is new. -/
structure Considers (s : Store) (ctx : Context) (m : Move) (root : Task) : Prop where
  window : m.start.unixNanos < m.finish.unixNanos
  start : m.start.inUtc?.isSome
  finish : m.finish.inUtc?.isSome
  reason : Text.trimmed m.reason ≠ ""
  found : s.task? ctx.scope m.task = some root
  moves : ctx.actor.movesWork = true
  isOpen : root.state.isClosed = false
  clock : ctx.clock.inUtc?.isSome
  fresh : s.changes.find? ⟨ctx.fresh⟩ = none

variable {s : Store} {ctx : Context} {m : Move} {root : Task}

theorem Considers.exists_between (h : s.Considers ctx m root) : ∃ window,
    Window.between m.start m.finish = .ok window ∧
      window.finish.unixNanos = m.finish.unixNanos := by
  obtain ⟨start, hstart⟩ := Option.isSome_iff_exists.mp h.start
  obtain ⟨finish, hfinish⟩ := Option.isSome_iff_exists.mp h.finish
  refine ⟨⟨start, finish⟩, Window.between_eq_ok_iff.mpr ⟨h.window, hstart, hfinish⟩, ?_⟩
  exact (Timestamp.inUtc?_eq_some_iff.mp hfinish).1

/-- A move that is in order, and does not go too far, is permitted. -/
theorem Considers.permits (h : s.Considers ctx m root) {window : Window}
    (hbetween : Window.between m.start m.finish = .ok window)
    (hreach : ¬(m.cascade = true ∧
      s.Overruns root (window.finish.unixNanos - root.finish.unixNanos))) :
    s.Permits ctx m root window := by
  refine ⟨hbetween, h.reason, h.found, h.moves, h.isOpen, h.clock, ?_, h.fresh⟩
  intro hcascade hnanos t ht hne hpath
  by_contra hnot
  exact hreach ⟨hcascade, hnanos, t, ht, hne, hpath, hnot⟩

/-- A cascade that goes too far is refused for that, and nothing is written. -/
theorem Considers.refused (hindexed : s.Indexed) (h : s.Considers ctx m root) {window : Window}
    (hbetween : Window.between m.start m.finish = .ok window) (hcascade : m.cascade = true)
    (hover : s.Overruns root (window.finish.unixNanos - root.finish.unixNanos)) (setup : Setup) :
    s.serve (Service.reschedule setup ctx m) = (.error (.invalid .windowOutOfRange), s) := by
  rw [serve_reschedule_eq setup hbetween h.reason h.found h.moves h.isOpen, serve_bind]
  obtain ⟨d, hd⟩ | ⟨hrefused, -, -⟩ := serve_draft hindexed hbetween h.found h.isOpen h.clock
  · -- what can be drafted can be moved
    obtain ⟨log, hcourse⟩ := s.course_serve (Service.draft ctx m window (Text.trimmed m.reason))
    rw [hd] at hcourse
    obtain ⟨-, hdrawn⟩ := Service.course_draft hbetween hcourse
    obtain rfl : d.root = root := Option.some.inj (hdrawn.root.symm.trans h.found)
    rw [← nanos_of_drawn hdrawn hbetween] at hover
    exact absurd hover (not_overruns_of_drawn hindexed trivial hdrawn hcascade)
  · rw [hrefused]

end Store

/-- When nothing goes wrong, a move that is in order is refused as invalid exactly when it cascades,
the end of the window is moved, and some open task that is taken along would start or end at a time
that its own clock cannot show; then nothing is changed. In every other case the move succeeds. -/
theorem refused_iff_overruns {w : World} (hquiet : w.Quiet) (hindexed : w.store.Indexed)
    (setup : Setup) {ctx : Context} {m : Move} {root : Task}
    (h : w.store.Considers ctx m root) :
    let nanos := m.finish.unixNanos - root.finish.unixNanos
    let r := w.serve (Service.reschedule setup ctx m)
    ((∃ cause, r.1 = .error (.invalid cause)) ↔ m.cascade = true ∧ nanos ≠ 0 ∧
      ∃ t, w.store.tasks.find? t.id = some t ∧ t.id ≠ root.id ∧
        TransGen (w.store.Leads root.tenant) root.id t.id ∧
        ¬(Timestamp.Showable (t.start.unixNanos + nanos) t.start.offset ∧
          Timestamp.Showable (t.finish.unixNanos + nanos) t.finish.offset)) ∧
      ((∃ cause, r.1 = .error (.invalid cause)) → r.2.store = w.store) ∧
      ((¬∃ cause, r.1 = .error (.invalid cause)) → ∃ change, r.1 = .ok change) := by
  intro nanos r
  obtain ⟨hresult, hleft⟩ := hquiet.run (Service.reschedule setup ctx m).run
  change r.1 = (w.store.serve (Service.reschedule setup ctx m)).1 at hresult
  change r.2.store = (w.store.serve (Service.reschedule setup ctx m)).2 at hleft
  obtain ⟨window, hbetween, hfinish⟩ := h.exists_between
  have hnanos : window.finish.unixNanos - root.finish.unixNanos = nanos := by rw [hfinish]
  simp only [← Task.shiftable_iff_showable]
  by_cases hover : m.cascade = true ∧ w.store.Overruns root nanos
  · have hrefused := h.refused hindexed hbetween hover.1 (by rw [hnanos]; exact hover.2) setup
    rw [hresult, hleft, hrefused]
    refine ⟨⟨fun _ => hover, fun _ => ⟨_, rfl⟩⟩, fun _ => rfl, fun hnot => ?_⟩
    exact absurd ⟨_, rfl⟩ hnot
  · obtain ⟨change, s', hserve⟩ := Store.serve_reschedule setup hindexed
      (h.permits hbetween (by rw [hnanos]; exact hover))
    rw [hresult, hserve]
    have hno : ¬∃ cause, (.ok change : Except Failure ScheduleChange) = .error (.invalid cause) := by
      rintro ⟨_, ⟨⟩⟩
    exact ⟨iff_of_false hno hover, fun hyes => absurd hyes hno, fun _ => ⟨change, rfl⟩⟩

/-- So many minutes before the end of the year 9999 in UTC. -/
def sampleLate (minutes : Nat) : Timestamp where
  unixNanos := 2932897 * nanosPerDay - (minutes % 1440 : Nat) * nanosPerMinute - nanosPerMinute
  offset := 0
  offset_lt := Timestamp.offset_lt_zero
  in_years := by simp only [nanosPerDay, nanosPerMinute]; omega

/-- The first task is put off until the last evening that there is. -/
def sampleFarMove : Move :=
  { sampleMove with start := sampleLate 269, finish := sampleLate 209 }

/-- Whether the move cascades has nothing to do with whether it is in order. -/
theorem considers_sample (cascade : Bool) : Store.sampleDiamond.Considers sampleContext
    { sampleFarMove with cascade } (Store.sampleTask 1 0 0) := by
  have hwindow : sampleFarMove.start.unixNanos < sampleFarMove.finish.unixNanos := by decide
  have hends : sampleFarMove.start.inUtc?.isSome ∧ sampleFarMove.finish.inUtc?.isSome := by decide
  have hreason : Text.trimmed sampleFarMove.reason ≠ "" := by decide
  have hfound : Store.sampleDiamond.task? sampleContext.scope sampleFarMove.task =
      some (Store.sampleTask 1 0 0) := by decide
  exact ⟨hwindow, hends.1, hends.2, hreason, hfound, by decide, rfl, by decide, by decide⟩

/-- The second and the last task would still end in the year 9999, and so would the third one in UTC,
but not on its own clock, which is two hours ahead. So the move is refused, until it leaves the others
alone. -/
theorem refused_iff_overruns_sample :
    let w : World := { store := .sampleDiamond }
    let move cascade := Service.reschedule {} sampleContext { sampleFarMove with cascade }
    (∃ cause, (w.serve (move true)).1 = .error (.invalid cause)) ∧
      (w.serve (move true)).2.store = w.store ∧ ∃ change, (w.serve (move false)).1 = .ok change := by
  intro w move
  have hquiet : w.Quiet := ⟨rfl, rfl⟩
  obtain ⟨hrefused, hstays, -⟩ :=
    refused_iff_overruns hquiet Store.indexed_sampleDiamond {} (considers_sample true)
  obtain ⟨hrefused', -, hmoves⟩ :=
    refused_iff_overruns hquiet Store.indexed_sampleDiamond {} (considers_sample false)
  have hinvalid := hrefused.mpr ⟨rfl, by decide, Store.sampleTask 3 2 2, by decide, by decide,
    .single ⟨⟨Store.sampleDependency 2 3 1, by decide, rfl, rfl, rfl⟩, Store.sampleTask 3 2 2,
      by decide, rfl⟩, by rw [Timestamp.showable_iff, Timestamp.showable_iff]; decide⟩
  refine ⟨hinvalid, hstays hinvalid, hmoves fun h => ?_⟩
  obtain ⟨hcascade, -⟩ := hrefused'.mp h
  cases hcascade

end Overhaul
