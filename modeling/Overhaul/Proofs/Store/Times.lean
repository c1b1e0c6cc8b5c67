import Overhaul.Proofs.Record.RoundTrip
import Overhaul.Proofs.Store.Saving
import Overhaul.Proofs.Store.Sessions

/-!
# The times in a store

A record can be written as long as none of its times lies before the year 0 on its own clock. A store
has its times from the edits that are made to it: they come from clocks, from requested windows, and
from windows that were moved along. Main statement: a request that brings none from before the year 0
leaves a store whose records can all be written (`World.savable_trail`), and so do several of them
(`World.savable_of_dated`).
-/

namespace Overhaul

open Relation

variable {ctx : Context} {m : Move} {d : Draft} {s s' : Store}

/-! ### Times and edits -/

theorem Task.forall_mem_times {p : Timestamp → Prop} {t : Task} : (∀ τ ∈ t.times, p τ) ↔
    p t.start ∧ p t.finish ∧ p t.created ∧ p t.updated ∧ ∀ τ ∈ t.deleted, p τ := by
  simp [times, or_imp, forall_and]

/-- The times that an edit brings with it. -/
def Edit.times : Edit → List Timestamp
  | .addTask t | .putTask t => t.times
  | .setState _ _ _ _ now | .deleteTask _ _ now => [now]
  | .addDependency d => d.times
  | .addChange c => c.times
  | .removeDependency _ _ | .announce _ | .takeMessages => []

/-- None of the times that the edit brings lies before the year 0. -/
def Edit.Dated (e : Edit) : Prop := ∀ τ ∈ e.times, τ.Writable

theorem Edit.dated_of_times {e : Edit} (h : e.times = []) : e.Dated := by
  simp [Dated, h]

/-- All records of the store can be written. -/
structure Store.Savable (s : Store) : Prop where
  tasks : ∀ t ∈ s.tasks.rows, ∀ τ ∈ t.times, τ.Writable
  dependencies : ∀ d ∈ s.dependencies.rows, ∀ τ ∈ d.times, τ.Writable
  changes : ∀ c ∈ s.changes.rows, ∀ τ ∈ c.times, τ.Writable

theorem Table.forall_mem_rows_put {α κ : Type} [DecidableEq κ] {key : α → κ} {P : α → Prop}
    {t : Table key} {row : α} (h : ∀ r ∈ t.rows, P r) (hrow : P row) :
    ∀ r ∈ (t.put row).rows, P r := by
  intro r hr
  rcases mem_rows_put.mp hr with rfl | ⟨hr, -⟩
  · exact hrow
  · exact h r hr

namespace Store

theorem savable_iff : s.Savable ↔ ∀ τ ∈ s.snapshot.times, τ.Writable := by
  have htasks : ∀ t, t ∈ s.snapshot.tasks ↔ t ∈ s.tasks.rows := fun _ => s.sortedBy_tasks.perm.mem_iff
  have hdependencies : ∀ d, d ∈ s.snapshot.dependencies ↔ d ∈ s.dependencies.rows :=
    fun _ => s.sortedBy_dependencies.perm.mem_iff
  simp only [Snapshot.forall_mem_times, htasks, hdependencies]
  exact ⟨fun h => ⟨h.tasks, h.dependencies, h.changes⟩, fun h => ⟨h.1, h.2.1, h.2.2⟩⟩

namespace Savable

theorem putTask (h : s.Savable) {t : Task} (ht : ∀ τ ∈ t.times, τ.Writable) :
    { s with tasks := s.tasks.put t : Store }.Savable :=
  { h with tasks := Table.forall_mem_rows_put h.tasks ht }

theorem of_task? (h : s.Savable) {scope : Scope} {id : TaskId} {t : Task}
    (ht : s.task? scope id = some t) : ∀ τ ∈ t.times, τ.Writable :=
  h.tasks t (Table.find?_eq_some_iff.mp (task?_eq_some_iff.mp ht).1).1

/-- A store stays savable along edits that bring only times which can be written. -/
theorem edited {e : Edit} (h : s.Savable) (he : e.Dated)
    (hedited : s.edited? e = some s') : s'.Savable := by
  cases e with
  | addTask t =>
      obtain ⟨-, rfl⟩ := addTask_eq_ok_iff.mp (Chronicle.toOption_eq_some_iff.mp hedited)
      exact h.putTask he
  | putTask t =>
      obtain ⟨-, rfl⟩ := putTask_eq_ok_iff.mp (Chronicle.toOption_eq_some_iff.mp hedited)
      exact h.putTask he
  | setState scope id state notes now =>
      obtain ⟨⟨t', s''⟩, hset, rfl⟩ := Option.map_eq_some_iff.mp hedited
      obtain ⟨t, ht, rfl, rfl⟩ := setState_eq_some_iff.mp hset
      obtain ⟨hstart, hfinish, hcreated, -, hdeleted⟩ := Task.forall_mem_times.mp (h.of_task? ht)
      have hnow := List.forall_mem_singleton.mp he
      exact h.putTask (Task.forall_mem_times.mpr ⟨hstart, hfinish, hcreated, hnow, hdeleted⟩)
  | deleteTask scope id now =>
      obtain ⟨t, ht, rfl⟩ := Option.map_eq_some_iff.mp hedited
      obtain ⟨hstart, hfinish, hcreated, -, -⟩ := Task.forall_mem_times.mp (h.of_task? ht)
      have hnow := List.forall_mem_singleton.mp he
      refine h.putTask (Task.forall_mem_times.mpr ⟨hstart, hfinish, hcreated, hnow, ?_⟩)
      rintro τ ⟨⟩
      exact hnow
  | addDependency d =>
      obtain ⟨-, -, -, rfl⟩ :=
        addDependency_eq_ok_iff.mp (Chronicle.toOption_eq_some_iff.mp hedited)
      exact { h with dependencies := Table.forall_mem_rows_put h.dependencies he }
  | removeDependency scope id =>
      obtain ⟨d, -, rfl⟩ := removeDependency_eq_some_iff.mp hedited
      exact { h with dependencies := fun e he => h.dependencies e (Table.mem_rows_erase.mp he).1 }
  | addChange c =>
      obtain ⟨-, rfl⟩ := addChange_eq_ok_iff.mp (Chronicle.toOption_eq_some_iff.mp hedited)
      exact { h with changes := Table.forall_mem_rows_put h.changes he }
  | announce m =>
      cases hedited
      exact ⟨h.tasks, h.dependencies, h.changes⟩
  | takeMessages =>
      cases hedited
      exact ⟨h.tasks, h.dependencies, h.changes⟩

end Savable

end Store

/-! ### What requests bring -/

/-- The move is not to before the year 0 of UTC, and takes no task that it leads to before the year 0
of its clock. Only a move to an earlier time could. -/
structure Move.Dated (m : Move) (s : Store) (scope : Scope) : Prop where
  start : ∀ τ ∈ m.start.inUtc?, τ.Writable
  cascade : m.cascade = true → ∀ root ∈ s.task? scope m.task,
    m.finish.unixNanos < root.finish.unixNanos → ∀ t ∈ s.tasks.rows,
      TransGen (s.Leads root.tenant) root.id t.id → ∀ τ ∈ [t.start, t.finish],
        ∀ u ∈ τ.shift? (m.finish.unixNanos - root.finish.unixNanos), u.Writable

/-- It is enough that no task at all would be taken there. -/
theorem Move.dated_of_all {scope : Scope} (hstart : ∀ τ ∈ m.start.inUtc?, τ.Writable)
    (h : ∀ root ∈ s.task? scope m.task, ∀ t ∈ s.tasks.rows, ∀ τ ∈ [t.start, t.finish],
      ∀ u ∈ τ.shift? (m.finish.unixNanos - root.finish.unixNanos), u.Writable) :
    m.Dated s scope :=
  ⟨hstart, fun _ root hroot _ t ht _ => h root hroot t ht⟩

/-- The request is made after the beginning of the year 0 of UTC, and so is its move, if it asks for
one. -/
structure Request.Dated (q : Request) (s : Store) : Prop where
  clock : ∀ now ∈ q.ctx.clock.inUtc?, now.Writable
  move : ∀ m, q.operation = .reschedule m → m.Dated s q.ctx.scope

namespace Draft.Drawn

variable {sound : Prop}

/-- The window that is asked for ends after it begins, so that its end can be written too. -/
theorem writable_window (h : d.Drawn sound s ctx m) (hm : m.Dated s ctx.scope) :
    d.change.newStart.Writable ∧ d.change.newFinish.Writable := by
  have hstart := hm.start _ h.start
  obtain ⟨hunix, hoffset⟩ := Timestamp.inUtc?_eq_some_iff.mp h.start
  obtain ⟨hunix', hoffset'⟩ := Timestamp.inUtc?_eq_some_iff.mp h.finish
  refine ⟨hstart, hstart.of_le (hoffset'.trans hoffset.symm) ?_⟩
  rw [hunix, hunix']
  exact h.window.le

/-- What is recorded of the move can be written. -/
theorem savable_change (h : d.Drawn sound s ctx m) (hs : s.Savable)
    (hclock : ∀ now ∈ ctx.clock.inUtc?, now.Writable) (hm : m.Dated s ctx.scope) :
    ∀ τ ∈ d.change.times, τ.Writable := by
  obtain ⟨hrootStart, hrootFinish, -⟩ := Task.forall_mem_times.mp (hs.of_task? h.root)
  obtain ⟨hstart, hfinish⟩ := h.writable_window hm
  have holdStart : d.change.oldStart = d.root.start := congrArg ScheduleChange.oldStart h.change
  have holdFinish : d.change.oldFinish = d.root.finish := congrArg ScheduleChange.oldFinish h.change
  simp only [ScheduleChange.times, List.forall_mem_cons, holdStart, holdFinish]
  exact ⟨hrootStart, hrootFinish, hstart, hfinish, hclock _ h.clock, by simp⟩

/-- An end of a window that is moved along can be written: it is moved to a later time, or the move was
looked at beforehand. -/
theorem writable_of_shift? (h : d.Drawn sound s ctx m) (hindexed : s.Indexed) (hs : s.Savable)
    (hm : m.Dated s ctx.scope) {x : Shift} (hx : x ∈ d.shifts) {τ u : Timestamp}
    (hτ : τ ∈ [x.before.start, x.before.finish]) (hu : τ.shift? d.change.nanos = some u) :
    u.Writable := by
  have hbefore : x.before ∈ s.tasks.rows :=
    (Table.find?_eq_some_iff.mp (Store.task?_eq_some_iff.mp (h.fits x hx).found).1).1
  have hnanos : d.change.nanos = m.finish.unixNanos - d.root.finish.unixNanos := by
    have holdFinish : d.change.oldFinish = d.root.finish :=
      congrArg ScheduleChange.oldFinish h.change
    rw [ScheduleChange.nanos, holdFinish, (Timestamp.inUtc?_eq_some_iff.mp h.finish).1]
  obtain ⟨hunix, hoffset⟩ := Timestamp.shift?_eq_some_iff.mp hu
  by_cases hearlier : m.finish.unixNanos < d.root.finish.unixNanos
  · rcases h.shifts with ⟨⟨hcascade, -⟩, hwalk⟩ | ⟨-, hnil⟩
    · have hled : TransGen (s.Leads d.root.tenant) d.root.id x.id := by
        rcases hwalk.led hindexed x hx with ⟨y, hy, hpath⟩ | ⟨_, he, -⟩
        · rwa [List.mem_singleton.mp hy] at hpath
        · cases he
      rw [hnanos] at hu
      exact hm.cascade hcascade _ h.root hearlier x.before hbefore hled τ hτ u hu
    · rw [hnil] at hx
      cases hx
  · obtain ⟨hstart, hfinish, -⟩ := Task.forall_mem_times.mp (hs.tasks x.before hbefore)
    have hwritable : τ.Writable := by
      rcases List.mem_cons.mp hτ with rfl | hτ
      · exact hstart
      · rwa [List.mem_singleton.mp hτ]
    refine hwritable.of_le hoffset ?_
    omega

/-- What the move may write can be saved. -/
theorem savable_of_writes (h : d.Drawn sound s ctx m) (hindexed : s.Indexed) (hs : s.Savable)
    (hclock : ∀ now ∈ ctx.clock.inUtc?, now.Writable) (hm : m.Dated s ctx.scope) {t : Task}
    (ht : d.Writes t) : ∀ τ ∈ t.times, τ.Writable := by
  have hnow := hclock _ h.clock
  rcases ht with rfl | rfl | ⟨x, hx, rfl | rfl⟩
  · obtain ⟨-, -, hcreated, -, hdeleted⟩ := Task.forall_mem_times.mp (hs.of_task? h.root)
    obtain ⟨hstart, hfinish⟩ := h.writable_window hm
    rw [h.moved]
    exact Task.forall_mem_times.mpr ⟨hstart, hfinish, hcreated, hnow, hdeleted⟩
  · exact hs.of_task? h.root
  · exact hs.of_task? (h.fits x hx).found
  · obtain ⟨-, -, hcreated, -, hdeleted⟩ :=
      Task.forall_mem_times.mp (hs.of_task? (h.fits x hx).found)
    obtain ⟨start, finish, updated, hstart, hfinish, hupdated, hafter⟩ :=
      Task.shifted_eq_ok_iff.mp (h.fits x hx).shifted
    rw [Timestamp.inUtc?_of_inUtc? h.clock] at hupdated
    cases hupdated
    have hstart := h.writable_of_shift? hindexed hs hm hx (by simp) hstart
    have hfinish := h.writable_of_shift? hindexed hs hm hx (by simp) hfinish
    rw [hafter]
    exact Task.forall_mem_times.mpr ⟨hstart, hfinish, hcreated, hnow, hdeleted⟩

/-- What the move may do brings no time from before the year 0. -/
theorem dated_of_allows (h : d.Drawn sound s ctx m) (hindexed : s.Indexed) (hs : s.Savable)
    (hclock : ∀ now ∈ ctx.clock.inUtc?, now.Writable) (hm : m.Dated s ctx.scope) {st : Step}
    (hst : d.Allows st) : st.Edits Edit.Dated := by
  cases hst with
  | idle hidle => exact hidle.edits
  | put ht => exact Step.edits_of_edit? rfl (h.savable_of_writes hindexed hs hclock hm ht)
  | add ids => exact Step.edits_of_edit? rfl (h.savable_change hs hclock hm)
  | announce m => exact Step.edits_of_edit? rfl (Edit.dated_of_times (e := .announce m) rfl)

end Draft.Drawn

/-- None of the steps that are taken for a request brings a time from before the year 0. -/
theorem World.dated_transcriptOf (w : World) (q : Request) (hwhole : w.store.Whole)
    (hs : w.store.Savable) (hq : q.Dated w.store) :
    ∀ x ∈ w.transcriptOf q, x.step.Edits Edit.Dated := by
  have hcourse := course_handle w q
  have honly := w.idleOr_transcriptOf q
  cases hop : q.operation with
  | reschedule m =>
      obtain ⟨_, ⟨-, -, hidle⟩ | ⟨d, hdrawn, hallows, -⟩⟩ := w.ends_of_reschedule hop
      · exact fun x hx => (hidle x hx).edits
      · exact fun x hx => hdrawn.dated_of_allows hwhole.indexed hs hq.clock (hq.move m hop)
          (hallows x hx)
  | depend task prerequisite kind =>
      rw [Request.service, hop] at hcourse
      obtain ⟨_, -, hdepend⟩ := Service.course_map hcourse
      intro x hx
      rcases hdepend.only (Service.only_depend_adds q.ctx task prerequisite kind) x hx with
        hidle | ⟨d, hstep, -, hcreated⟩
      · exact hidle.edits
      · rw [hstep]
        exact Step.edits_of_edit? rfl (List.forall_mem_singleton.mpr (hq.clock _ hcreated))
  | transition id target c =>
      rw [Request.service, hop] at hcourse
      obtain ⟨_, -, hcourse⟩ := Service.course_map hcourse
      refine hcourse.only (Service.only_transition (fun _ => Step.Idle.edits) ?_ ?_ ?_)
      · intro t _ _ tenant task e he
        cases he
      · intro t _ scope now hnow
        exact Step.edits_of_edit? rfl (List.forall_mem_singleton.mpr (hq.clock _ hnow))
      · intro t _ tenant
        refine Service.only_publish (fun m => ?_) _ _ _ _ _
        exact Step.edits_of_edit? rfl (Edit.dated_of_times (e := .announce m) rfl)
  | _ =>
      rw [hop] at honly
      intro x hx
      rcases honly x hx with hidle | ⟨c, hstep, hkind⟩
      · exact hidle.edits
      · rw [hstep]
        cases c with
        | removeDependency scope id =>
            exact Step.edits_of_edit? rfl (Edit.dated_of_times (e := .removeDependency scope id) rfl)
        | _ => simp [Operation.kinds, Call.kind] at hkind

/-- A request that brings no time from before the year 0 leaves a savable store savable, wherever it
passes through. -/
theorem World.savable_trail (w : World) (q : Request) (hwhole : w.store.Whole)
    (hs : w.store.Savable) (hq : q.Dated w.store) :
    ∀ v ∈ trail q.service.run (w.facing q), v.store.Savable :=
  forall_trail_of_edits (P := Edit.Dated) (within_facing w q)
    q.service.run (fun x hx => w.dated_transcriptOf q hwhole hs hq x hx)
    (fun _ _ _ he hedited h => h.edited he hedited) hs

/-- None of several requests brings a time from before the year 0, each as it finds the store. -/
def World.Dated (w : World) : List Request → Prop
  | [] => True
  | q :: qs => q.Dated w.store ∧ (w.handle q).2.Dated qs

/-- As long as no request brings a time from before the year 0, all records can be written throughout a
session. -/
theorem World.savable_of_dated {w : World} (hwhole : w.store.Whole) (hs : w.store.Savable)
    {qs : List Request} (hqs : w.Dated qs) : ∀ v ∈ w.session qs, v.store.Savable := by
  induction qs generalizing w with
  | nil =>
      intro v hv
      rwa [List.mem_singleton.mp hv]
  | cons q qs ih =>
      intro v hv
      have htrail := w.savable_trail q hwhole hs hqs.1
      have hleft := run_mem_trail q.service.run (w.facing q)
      rcases List.mem_append.mp hv with hv | hv
      · exact htrail v hv
      · exact ih (w.whole_trail q hwhole _ hleft) (htrail _ hleft) hqs.2 v hv

end Overhaul
