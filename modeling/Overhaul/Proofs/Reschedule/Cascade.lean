import Mathlib
import Overhaul.Proofs.Reschedule.Outcome

/-!
# What a cascade moves

A cascade takes along exactly the open tasks that a move leads to, over open tasks only. Main
statements: `Draft.Drawn.mem_shifts` says which tasks these are, and `cascade_exact` what a move that
succeeds makes of the store.

Mathlib is imported whole for the runs on samples, here and in the modules that follow: `cbv` takes
the equations of strings, characters and pairs from wherever in the library they were first used.
-/

namespace Overhaul

open Relation

/-- In the second store one task of the first has another window, some others are moved by a
duration, each on its own clock, and the time of the change is noted with all of them. Nothing else
about any task is different, and nothing about any dependency. -/
structure Store.Displaced (s s' : Store) (root : Task) (start finish : Timestamp) (nanos : Int)
    (now : Timestamp) (moved : List TaskId) : Prop where
  placed : s'.tasks.find? root.id = some { root with start, finish, updated := now }
  shifted : ∀ id ∈ moved, ∃ t start finish, s.tasks.find? id = some t ∧
    t.start.shift? nanos = some start ∧ t.finish.shift? nanos = some finish ∧
    s'.tasks.find? id = some { t with start, finish, updated := now }
  others : ∀ id, id ≠ root.id → id ∉ moved → s'.tasks.find? id = s.tasks.find? id
  dependencies : s'.dependencies = s.dependencies
  prerequisites : s'.prerequisites = s.prerequisites
  dependents : s'.dependents = s.dependents

namespace Draft

variable {sound : Prop} {s : Store} {ctx : Context} {m : Move} {d : Draft}

/-- What is written displaces the tasks that were moved, and no other task. -/
theorem Drawn.displaced (h : d.Drawn sound s ctx m) {done : List Shift} (hdone : done <+: d.shifts)
    (changes : Table ScheduleChange.id) (outbox : Outbox) :
    s.Displaced { s with tasks := s.tasks.putAll (d.written done), changes, outbox } d.root
      d.change.newStart d.change.newFinish d.change.nanos d.change.created
      (done.map Shift.id) := by
  have hnodup := h.nodup_written hdone
  refine ⟨?_, ?_, ?_, rfl, rfl, rfl⟩
  · rw [← h.moved, ← h.id_moved]
    exact Table.find?_putAll_of_mem hnodup List.mem_cons_self
  · intro id hid
    obtain ⟨x, hx, rfl⟩ := List.mem_map.mp hid
    have hfits := h.fits x (hdone.subset hx)
    obtain ⟨start, finish, updated, hstart, hfinish, hupdated, hafter⟩ :=
      Task.shifted_eq_ok_iff.mp hfits.shifted
    rw [Timestamp.inUtc?_of_inUtc? h.clock] at hupdated
    cases hupdated
    refine ⟨x.before, start, finish, (Store.task?_eq_some_iff.mp hfits.found).1, hstart, hfinish, ?_⟩
    rw [← hafter, ← hfits.id_after]
    exact Table.find?_putAll_of_mem hnodup (List.mem_cons_of_mem _ (List.mem_map_of_mem hx))
  · intro id hroot hmoved
    refine Table.find?_putAll_of_notMem ?_
    rw [h.map_id_written hdone, List.mem_cons, not_or]
    exact ⟨hroot, hmoved⟩

theorem Drawn.movable_root (h : d.Drawn sound s ctx m) : s.Movable d.root.tenant d.root.id := by
  refine ⟨d.root, ?_, h.isOpen⟩
  obtain ⟨-, -, hdeleted⟩ := Store.task?_eq_some_iff.mp h.root
  exact Store.task?_eq_some_iff.mpr ⟨h.find?_root, by simp, hdeleted⟩

/-- The tasks to be moved along are those that the move leads to, when the end of the window moves at
all. -/
theorem Drawn.mem_shifts (hindexed : s.Indexed) (hsound : sound) (h : d.Drawn sound s ctx m)
    (hcascade : m.cascade = true) (x : TaskId) :
    x ∈ d.shifts.map Shift.id ↔ d.change.nanos ≠ 0 ∧ x ≠ d.root.id ∧
      TransGen (s.Leads d.root.tenant) d.root.id x := by
  rcases h.shifts with ⟨⟨-, hnanos⟩, hwalk⟩ | ⟨hnot, hnil⟩
  · constructor
    · intro hx
      obtain ⟨y, hy, rfl⟩ := List.mem_map.mp hx
      refine ⟨hnanos, ?_, ?_⟩
      · intro heq
        exact hwalk.notMem_seen y hy (by rw [heq]; simp)
      · rcases hwalk.led hindexed y hy with ⟨z, hz, hzy⟩ | ⟨e, he, -⟩
        · rwa [← List.mem_singleton.mp hz]
        · cases he
    · rintro ⟨-, hne, hpath⟩
      -- nothing that is met, or moved along, leads to anything else
      have hclosed := hwalk.closed hsound hindexed (fun v hv hstack => by
        rw [Seen.mem_only] at hv
        exact absurd (List.mem_singleton.mpr hv) hstack)
      have hmet : ∀ y, TransGen (s.Leads d.root.tenant) d.root.id y →
          (y ∈ Seen.only d.root.id ∨ y ∈ d.shifts.map Shift.id) ∧ s.Movable d.root.tenant y := by
        intro y hy
        induction hy with
        | single hstep => exact ⟨hclosed _ (.inl (by simp)) h.movable_root _ hstep, hstep.2⟩
        | tail _ hstep ih => exact ⟨hclosed _ ih.1 ih.2 _ hstep, hstep.2⟩
      exact (hmet x hpath).1.resolve_left (by simpa using hne)
  · rw [hnil]
    simp only [List.map_nil, List.not_mem_nil, false_iff]
    rintro ⟨hnanos, -⟩
    exact hnot ⟨hcascade, hnanos⟩

end Draft

/-- A cascading move that succeeds, when nothing fails, has moved the task into the window that was
asked for, in UTC, and has moved along by as much as the end of its window exactly the tasks to which
the move leads, each of them once. -/
theorem cascade_exact {w : World} (hindexed : w.store.Indexed) (hsound : w.Within fun _ => True)
    {setup : Setup} {ctx : Context} {m : Move} {change : ScheduleChange} (hcascade : m.cascade = true)
    (hok : (w.serve (Service.reschedule setup ctx m)).1 = .ok change) :
    ∃ root start finish now,
      w.store.task? ctx.scope m.task = some root ∧ m.start.inUtc? = some start ∧
      m.finish.inUtc? = some finish ∧ ctx.clock.inUtc? = some now ∧
      let nanos := finish.unixNanos - root.finish.unixNanos
      change.affected.Nodup ∧
      (∀ x, x ∈ change.affected ↔
        nanos ≠ 0 ∧ x ≠ root.id ∧ TransGen (w.store.Leads root.tenant) root.id x) ∧
      w.store.Displaced (w.serve (Service.reschedule setup ctx m)).2.store root start finish nanos now
        change.affected := by
  have hcourse := World.course_serve hsound (Service.reschedule setup ctx m)
  rw [hok] at hcourse
  rcases Service.course_reschedule hcourse with ⟨⟨_, hr⟩, -⟩ | ⟨d, hdrawn, -, hcarried⟩
  · cases hr
  generalize (w.serve (Service.reschedule setup ctx m)).2.store = s' at hcarried ⊢
  have hnanos : d.change.nanos = d.change.newFinish.unixNanos - d.root.finish.unixNanos := by
    rw [ScheduleChange.nanos, hdrawn.change]
  refine ⟨d.root, d.change.newStart, d.change.newFinish, d.change.created, hdrawn.root,
    hdrawn.start, hdrawn.finish, hdrawn.clock, ?_⟩
  obtain ⟨rfl, outbox, rfl⟩ := hcarried.of_ok
  refine ⟨(List.nodup_cons.mp hdrawn.nodup).2, ?_, ?_⟩
  · rw [← hnanos]
    exact hdrawn.mem_shifts hindexed trivial hcascade
  · rw [← hnanos]
    exact hdrawn.displaced List.prefix_rfl _ outbox

/-- A scheduler of the first tenant asks at six in the morning. -/
def sampleContext : Context where
  actor := ⟨.ofNat 1, .ofNat 1, .scheduler⟩
  clock := Store.hour 6 2
  fresh := 7

/-- The first task of the small store is put off by an hour, and what waits for it too. -/
def sampleMove : Move where
  task := .ofNat 1
  start := Store.hour 1 1
  finish := Store.hour 2 1
  reason := "engine not in yet"
  cascade := true

/-- How a move ends that succeeds, as far as the tasks are concerned that it moves along. -/
theorem exists_of_affected {e : Except Failure ScheduleChange} {ids : List TaskId}
    (h : e.map ScheduleChange.affected = .ok ids) : ∃ change, e = .ok change ∧
      change.affected = ids := by
  cases e with
  | error failure => cases h
  | ok change => exact ⟨change, rfl, Except.ok.inj h⟩

/-- Both tasks that wait, the one for the other, are put off with the first one. -/
theorem cascade_exact_sample :
    ∃ s, Store.sample.Displaced s (Store.sampleTask 1 0 0) (Store.hour 1 0) (Store.hour 2 0)
      nanosPerHour (Store.hour 6 0) [.ofNat 2, .ofNat 3] := by
  have hsound : ({ store := .sample } : World).Within fun _ => True :=
    World.within_of_faults_eq_nil rfl
  have hok : (({ store := .sample } : World).serve
      (Service.reschedule {} sampleContext sampleMove)).1.map ScheduleChange.affected =
      .ok [.ofNat 2, .ofNat 3] := by cbv
  obtain ⟨change, hr, haffected⟩ := exists_of_affected hok
  obtain ⟨root, start, finish, now, hroot, hstart, hfinish, hnow, -, -, hdisplaced⟩ :=
    cascade_exact Store.indexed_sample hsound rfl hr
  rw [haffected] at hdisplaced
  have hroot' : root = Store.sampleTask 1 0 0 := Option.some.inj (hroot.symm.trans (by cbv))
  have hstart' : start = Store.hour 1 0 := Option.some.inj (hstart.symm.trans (by cbv))
  have hfinish' : finish = Store.hour 2 0 := Option.some.inj (hfinish.symm.trans (by cbv))
  have hnow' : now = Store.hour 6 0 := Option.some.inj (hnow.symm.trans (by cbv))
  have hnanos : (Store.hour 2 0).unixNanos - (Store.sampleTask 1 0 0).finish.unixNanos =
      nanosPerHour := by decide
  rw [hroot', hstart', hfinish', hnow', hnanos] at hdisplaced
  exact ⟨_, hdisplaced⟩

end Overhaul
