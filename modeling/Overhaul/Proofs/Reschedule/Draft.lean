import Overhaul.Proofs.Reschedule.Walk
import Overhaul.Proofs.Table

/-!
# What is decided before a move

A move is decided before anything is written. `Draft.Drawn` says what may be decided from a store.
Main statements: whatever is decided is drawn from the store (`course_draft`), and once it is written
it can be taken back (`Draft.Drawn.putAll_restores`).
-/

namespace Overhaul

/-- By how much the end of the window was moved. -/
def ScheduleChange.nanos (c : ScheduleChange) : Int := c.newFinish.unixNanos - c.oldFinish.unixNanos

namespace Draft

/-- What was decided, as it may have been drawn from a store: look-ups may have come back
empty-handed unless they are `sound`. -/
structure Drawn (sound : Prop) (s : Store) (ctx : Context) (m : Move) (d : Draft) : Prop where
  root : s.task? ctx.scope m.task = some d.root
  isOpen : d.root.state.isClosed = false
  clock : ctx.clock.inUtc? = some d.change.created
  window : m.start.unixNanos < m.finish.unixNanos
  start : m.start.inUtc? = some d.change.newStart
  finish : m.finish.inUtc? = some d.change.newFinish
  moved : d.moved = { d.root with
    start := d.change.newStart, finish := d.change.newFinish, updated := d.change.created }
  change : d.change = {
    id := ⟨ctx.fresh⟩, tenant := d.root.tenant, task := d.root.id, kind := .rescheduled
    reason := Text.trimmed m.reason, oldStart := d.root.start, oldFinish := d.root.finish
    newStart := d.change.newStart, newFinish := d.change.newFinish, user := ctx.actor.user
    affected := [], created := d.change.created }
  shifts : (m.cascade = true ∧ d.change.nanos ≠ 0) ∧
      Service.Walk sound s d.root.tenant d.change.nanos d.change.created (.only d.root.id)
        [d.root.id] [] d.shifts ∨
    ¬(m.cascade = true ∧ d.change.nanos ≠ 0) ∧ d.shifts = []

/-- What is recorded when some tasks were moved along. -/
def record (d : Draft) (done : List Shift) : ScheduleChange :=
  { d.change with affected := done.map Shift.id }

/-- What is written when some tasks are moved along. -/
def written (d : Draft) (done : List Shift) : List Task := d.moved :: done.map Shift.after

/-- What is written to take it all back when some tasks were moved along: the last one first. -/
def restores (d : Draft) (done : List Shift) : List Task :=
  (done.map Shift.before).reverse ++ [d.root]

/-- A record that may be written, before or after. -/
def Writes (d : Draft) (t : Task) : Prop :=
  t = d.moved ∨ t = d.root ∨ ∃ x ∈ d.shifts, t = x.before ∨ t = x.after

theorem writes_of_mem_restores (d : Draft) {done : List Shift} (hdone : done <+: d.shifts) {t : Task}
    (ht : t ∈ d.restores done) : d.Writes t := by
  rcases List.mem_append.mp ht with ht | ht
  · obtain ⟨x, hx, rfl⟩ := List.mem_map.mp (List.mem_reverse.mp ht)
    exact .inr (.inr ⟨x, hdone.subset hx, .inl rfl⟩)
  · exact .inr (.inl (List.mem_singleton.mp ht))

variable {sound : Prop} {s : Store} {ctx : Context} {m : Move} {d : Draft}

/-- Every task that is moved along is moved from the record that the store shows. -/
theorem Drawn.fits (h : d.Drawn sound s ctx m) :
    ∀ x ∈ d.shifts, x.Fits s d.root.tenant d.change.nanos d.change.created := by
  rcases h.shifts with ⟨-, hwalk⟩ | ⟨-, hnil⟩
  · exact hwalk.fits
  · simp [hnil]

/-- No task is moved twice. -/
theorem Drawn.nodup (h : d.Drawn sound s ctx m) : (d.root.id :: d.shifts.map Shift.id).Nodup := by
  rcases h.shifts with ⟨-, hwalk⟩ | ⟨-, hnil⟩
  · rw [List.nodup_cons]
    refine ⟨?_, hwalk.nodup⟩
    intro hmem
    obtain ⟨x, hx, hid⟩ := List.mem_map.mp hmem
    exact hwalk.notMem_seen x hx (by rw [hid]; simp)
  · simp [hnil]

/-- The task that is moved on purpose is stored as it was found. -/
theorem Drawn.find?_root (h : d.Drawn sound s ctx m) : s.tasks.find? d.root.id = some d.root := by
  rw [Store.id_eq_of_task? h.root]
  exact (Store.task?_eq_some_iff.mp h.root).1

/-- Whatever may be written is the record of an open task that its tenant sees, but for the window
and the time of the last change. -/
theorem Drawn.source_of_writes (h : d.Drawn sound s ctx m) {t : Task} (ht : d.Writes t) :
    ∃ u, s.task? (.only d.root.tenant) t.id = some u ∧ u.state.isClosed = false ∧
      t = { u with start := t.start, finish := t.finish, updated := t.updated } := by
  have hroot : s.task? (.only d.root.tenant) d.root.id = some d.root := by
    obtain ⟨-, -, hdeleted⟩ := Store.task?_eq_some_iff.mp h.root
    exact Store.task?_eq_some_iff.mpr ⟨h.find?_root, by simp, hdeleted⟩
  rcases ht with rfl | rfl | ⟨x, hx, hxt⟩
  · rw [h.moved]
    exact ⟨d.root, hroot, h.isOpen, rfl⟩
  · exact ⟨d.root, hroot, h.isOpen, rfl⟩
  · have hfits := h.fits x hx
    rcases hxt with rfl | rfl
    · exact ⟨x.before, hfits.found, hfits.isOpen, rfl⟩
    · refine ⟨x.before, ?_, hfits.isOpen, ?_⟩
      · rw [hfits.id_after]
        exact hfits.found
      · obtain ⟨_, _, _, -, -, -, hafter⟩ := Task.shifted_eq_ok_iff.mp hfits.shifted
        rw [hafter]

theorem Drawn.id_moved (h : d.Drawn sound s ctx m) : d.moved.id = d.root.id := by rw [h.moved]

/-- The tasks that are written, in order. -/
theorem Drawn.map_id_written (h : d.Drawn sound s ctx m) {done : List Shift}
    (hdone : done <+: d.shifts) :
    (d.written done).map Task.id = d.root.id :: done.map Shift.id := by
  rw [written, List.map_cons, List.map_map, h.id_moved]
  congr 1
  exact List.map_congr_left fun x hx => (h.fits x (hdone.subset hx)).id_after

/-- No task is written twice. -/
theorem Drawn.nodup_written (h : d.Drawn sound s ctx m) {done : List Shift}
    (hdone : done <+: d.shifts) : ((d.written done).map Task.id).Nodup := by
  rw [h.map_id_written hdone]
  exact h.nodup.sublist ((hdone.sublist.map Shift.id).cons_cons d.root.id)

theorem Drawn.map_id_restores (d : Draft) (done : List Shift) :
    (d.restores done).map Task.id = (done.map Shift.id).reverse ++ [d.root.id] := by
  simp [restores, Shift.id, Function.comp_def]

/-- What is to be written back is what the store held. -/
theorem Drawn.find?_of_mem_restores (h : d.Drawn sound s ctx m) {done : List Shift}
    (hdone : done <+: d.shifts) {t : Task} (ht : t ∈ d.restores done) :
    s.tasks.find? t.id = some t := by
  rcases List.mem_append.mp ht with ht | ht
  · obtain ⟨x, hx, rfl⟩ := List.mem_map.mp (List.mem_reverse.mp ht)
    exact (Store.task?_eq_some_iff.mp (h.fits x (hdone.subset hx)).found).1
  · rw [List.mem_singleton.mp ht]
    exact h.find?_root

/-- What is written back has the tasks that were written, the root last. -/
theorem Drawn.nodup_restores (h : d.Drawn sound s ctx m) {done : List Shift}
    (hdone : done <+: d.shifts) : ((d.restores done).map Task.id).Nodup := by
  have hids := h.nodup_written hdone
  rw [h.map_id_written hdone] at hids
  rw [Drawn.map_id_restores, ← List.reverse_cons]
  exact (List.reverse_perm _).nodup_iff.mpr hids

theorem Drawn.mem_map_id_written (h : d.Drawn sound s ctx m) {done : List Shift}
    (hdone : done <+: d.shifts) {id : TaskId} :
    id ∈ (d.written done).map Task.id ↔ id ∈ (d.restores done).map Task.id := by
  rw [h.map_id_written hdone, Drawn.map_id_restores, ← List.reverse_cons, List.mem_reverse]

/-- A task that was not written is found as before, and so is one that was written back. -/
theorem Drawn.find?_putAll (h : d.Drawn sound s ctx m) {done : List Shift} (hdone : done <+: d.shifts)
    {back : List Task} (hback : back.Sublist (d.restores done)) {id : TaskId}
    (hid : id ∈ back.map Task.id ∨ id ∉ (d.restores done).map Task.id) :
    ((s.tasks.putAll (d.written done)).putAll back).find? id = s.tasks.find? id := by
  rcases hid with hid | hid
  · obtain ⟨t, ht, rfl⟩ := List.mem_map.mp hid
    rw [h.find?_of_mem_restores hdone (hback.subset ht)]
    exact Table.find?_putAll_of_mem ((h.nodup_restores hdone).sublist (hback.map Task.id)) ht
  · rw [Table.find?_putAll_of_notMem, Table.find?_putAll_of_notMem]
    · rwa [h.mem_map_id_written hdone]
    · exact fun hmem => hid ((hback.map Task.id).subset hmem)

/-- When everything is written back, the tasks are what they were. -/
theorem Drawn.putAll_restores (h : d.Drawn sound s ctx m) {done : List Shift}
    (hdone : done <+: d.shifts) :
    (s.tasks.putAll (d.written done)).putAll (d.restores done) = s.tasks := by
  have hstored : ∀ {id : TaskId}, id ∈ (d.restores done).map Task.id →
      (s.tasks.find? id).isSome := by
    intro id hid
    obtain ⟨t, ht, rfl⟩ := List.mem_map.mp hid
    rw [h.find?_of_mem_restores hdone ht]
    rfl
  refine Table.eq_of_find? ?_ fun id => h.find?_putAll hdone (List.Sublist.refl _) (em _)
  rw [Table.keys_putAll, Table.keys_putAll]
  · intro t ht
    exact hstored ((h.mem_map_id_written hdone).mp (List.mem_map_of_mem ht))
  · intro t ht
    exact Table.isSome_find?_putAll (hstored (List.mem_map_of_mem ht))

end Draft

namespace Service

variable {sound : CallKind → Prop} {s s' : Store} {log : List Exchange}

/-- An open task passes, and nothing else happens. -/
theorem course_ensureOpen {t : Task} (h : Course sound (ensureOpen t) s log (.ok ()) s') :
    s' = s ∧ t.state.isClosed = false := by
  unfold ensureOpen at h
  split at h
  · obtain ⟨-, hr, -⟩ := course_throw h
    cases hr
  · rename_i hopen
    obtain ⟨-, -, rfl⟩ := course_pure h
    exact ⟨rfl, by simpa using hopen⟩

theorem only_ensureOpen {P : Step → Prop} (t : Task) : Only P (ensureOpen t) := by
  unfold ensureOpen
  split
  · exact only_throw _
  · exact only_pure _

theorem only_draft (ctx : Context) (m : Move) (window : Window) (reason : String) :
    Only Step.Reads (draft ctx m window reason) := by
  have hrest : ∀ t now shifts change, Only Step.Reads (do
      ensureActive
      let moved ← ofExcept (Task.withWindow t window.start window.finish now)
      return ({ root := t, moved, shifts, change } : Draft)) := fun _ _ _ _ =>
    only_bind (only_ensureActive trivial) fun _ => only_bind (only_ofExcept _) fun _ => only_pure _
  refine only_bind (only_visibleTask trivial) fun t => ?_
  refine only_bind (only_ensureOpen t) fun _ => ?_
  refine only_bind (only_ofExcept _) fun now => ?_
  dsimp only
  split
  · exact only_bind (only_plan (fun _ => trivial) (fun _ => trivial) _ _ _ _ _) fun _ => hrest _ _ _ _
  · exact only_bind (only_pure _) fun _ => hrest _ _ _ _

/-- What is decided is drawn from the store, which stays as it is. -/
theorem course_draft {ctx : Context} {m : Move} {window : Window} {d : Draft}
    (hwindow : Window.between m.start m.finish = .ok window)
    (h : Course sound (draft ctx m window (Text.trimmed m.reason)) s log (.ok d) s') :
    s' = s ∧ d.Drawn (sound .task) s ctx m := by
  refine ⟨h.store_eq_of_reads (only_draft ctx m window _), ?_⟩
  obtain ⟨t, _, _, s₁, hvisible, h₁, -⟩ := course_bind_ok h
  obtain ⟨rfl, hroot⟩ := course_visibleTask hvisible
  obtain ⟨_, _, _, s₂, hensure, h₂, -⟩ := course_bind_ok h₁
  obtain ⟨rfl, hopen⟩ := course_ensureOpen hensure
  obtain ⟨now, _, _, s₃, hclock, h₃, -⟩ := course_bind_ok h₂
  obtain ⟨-, hnow, rfl⟩ := course_ofExcept hclock
  have hnow' := Timestamp.toUtc_eq_ok_iff.mp hnow.symm
  dsimp only at h₃
  -- what is left once the tasks to be moved along are known
  have hfinal : ∀ {log₁ : List Exchange} {s₁ : Store} {shifts : List Shift} {change : ScheduleChange},
      Course sound (do
        ensureActive
        let moved ← ofExcept (Task.withWindow t window.start window.finish now)
        return ({ root := t, moved, shifts, change } : Draft)) s₁ log₁ (.ok d) s' →
      d = { root := t, shifts, change, moved :=
        { t with start := window.start, finish := window.finish, updated := now } } := by
    intro log₁ s₁ shifts change h
    obtain ⟨_, _, _, s₂, -, h₂, -⟩ := course_bind_ok h
    obtain ⟨moved, _, _, s₃, hmoved, h₃, -⟩ := course_bind_ok h₂
    obtain ⟨-, hmoved', -⟩ := course_ofExcept hmoved
    obtain ⟨-, hd, -⟩ := course_pure h₃
    cases hd
    obtain ⟨w, updated, hw, hu, rfl⟩ := Task.withWindow_eq_ok_iff.mp hmoved'.symm
    rw [Window.between_self hwindow] at hw
    rw [Timestamp.inUtc?_of_inUtc? hnow'] at hu
    cases hw
    cases hu
    rfl
  obtain ⟨hlt, hstart, hfinish⟩ := Window.between_eq_ok_iff.mp hwindow
  split at h₃
  · rename_i hcascade
    obtain ⟨shifts, _, _, s₄, hplan, h₄, -⟩ := course_bind_ok h₃
    have hwalk := walk_of_course hplan
    obtain rfl := hfinal h₄
    exact ⟨hroot, hopen, hnow', hlt, hstart, hfinish, rfl, rfl, .inl ⟨hcascade, hwalk⟩⟩
  · rename_i hcascade
    obtain ⟨shifts, _, _, s₄, hplan, h₄, -⟩ := course_bind_ok h₃
    obtain ⟨-, hnil, -⟩ := course_pure hplan
    cases hnil
    obtain rfl := hfinal h₄
    exact ⟨hroot, hopen, hnow', hlt, hstart, hfinish, rfl, rfl, .inr ⟨hcascade, rfl⟩⟩

end Service

end Overhaul
