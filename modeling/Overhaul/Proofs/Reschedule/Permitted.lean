import Mathlib.Logic.Relation
import Overhaul.Proofs.Quiet
import Overhaul.Proofs.Reschedule.Cascade

/-!
# When a move succeeds

When nothing goes wrong, a move depends on the store, the caller and what is asked for alone.
`Store.Permits` lists what all of these have to be. Main statements: what was decided can always be
written (`Store.serve_carryOut`), and a cascading move succeeds exactly when it is permitted
(`Store.serve_reschedule`, `Store.exists_permits`).
-/

namespace Overhaul

open Relation

/-- Both ends of the window can be moved, each on its own clock. -/
def Task.Shiftable (t : Task) (nanos : Int) : Prop :=
  (t.start.shift? nanos).isSome ∧ (t.finish.shift? nanos).isSome

theorem Task.Shiftable.shifted {t : Task} {nanos : Int} (h : t.Shiftable nanos)
    {now updated : Timestamp} (hnow : now.inUtc? = some updated) :
    ∃ t', t.shifted nanos now = .ok t' := by
  obtain ⟨start, hstart⟩ := Option.isSome_iff_exists.mp h.1
  obtain ⟨finish, hfinish⟩ := Option.isSome_iff_exists.mp h.2
  exact ⟨_, Task.shifted_eq_ok_iff.mpr ⟨start, finish, updated, hstart, hfinish, hnow, rfl⟩⟩

/-- Only a task of which both ends can be moved is shifted. -/
theorem Task.shifted_of_not_shiftable {t : Task} {nanos : Int} (h : ¬t.Shiftable nanos)
    {now : Timestamp} : t.shifted nanos now = .error (.invalid .windowOutOfRange) := by
  unfold shifted
  split
  · rename_i start finish hstart hfinish
    exact absurd ⟨by rw [hstart]; rfl, by rw [hfinish]; rfl⟩ h
  · rfl

namespace Store

/-- The end of the window is moved, and something that is moved along cannot be moved as far. -/
def Overruns (s : Store) (root : Task) (nanos : Int) : Prop :=
  nanos ≠ 0 ∧ ∃ t, s.tasks.find? t.id = some t ∧ t.id ≠ root.id ∧
    TransGen (s.Leads root.tenant) root.id t.id ∧ ¬t.Shiftable nanos

/-- What was decided to be moved along can be moved. -/
theorem not_overruns_of_drawn {sound : Prop} {s : Store} {ctx : Context} {m : Move} {d : Draft}
    (hindexed : s.Indexed) (hsound : sound) (h : d.Drawn sound s ctx m)
    (hcascade : m.cascade = true) : ¬s.Overruns d.root d.change.nanos := by
  rintro ⟨hnanos, t, ht, hne, hpath, hnot⟩
  obtain ⟨x, hx, hid⟩ := List.mem_map.mp
    ((h.mem_shifts hindexed hsound hcascade t.id).mpr ⟨hnanos, hne, hpath⟩)
  have hfits := h.fits x hx
  obtain rfl : x.before = t := by
    have hbefore := (task?_eq_some_iff.mp hfits.found).1
    rw [hid] at hbefore
    exact Option.some.inj (hbefore.symm.trans ht)
  obtain ⟨start, finish, _, hstart, hfinish, -⟩ := Task.shifted_eq_ok_iff.mp hfits.shifted
  exact hnot ⟨by rw [hstart]; rfl, by rw [hfinish]; rfl⟩

/-- The end of the window is moved as far as was asked for. -/
theorem nanos_of_drawn {sound : Prop} {s : Store} {ctx : Context} {m : Move} {d : Draft}
    {window : Window} (h : d.Drawn sound s ctx m)
    (hbetween : Window.between m.start m.finish = .ok window) :
    d.change.nanos = window.finish.unixNanos - d.root.finish.unixNanos := by
  have hfinish : d.change.newFinish = window.finish := Option.some.inj
    (h.finish.symm.trans (Window.between_eq_ok_iff.mp hbetween).2.2)
  rw [ScheduleChange.nanos, h.change, hfinish]

/-- What it takes for a move to succeed: a window and a reason are given, the caller sees the task and
may move it, it is open, the clock shows a time, everything that is moved along stays on its clock,
and the identifier is new. -/
structure Permits (s : Store) (ctx : Context) (m : Move) (root : Task) (window : Window) : Prop where
  between : Window.between m.start m.finish = .ok window
  reason : Text.trimmed m.reason ≠ ""
  found : s.task? ctx.scope m.task = some root
  moves : ctx.actor.movesWork = true
  isOpen : root.state.isClosed = false
  clock : ctx.clock.inUtc?.isSome
  shiftable : m.cascade = true → window.finish.unixNanos - root.finish.unixNanos ≠ 0 →
    ∀ t, s.tasks.find? t.id = some t → t.id ≠ root.id →
      TransGen (s.Leads root.tenant) root.id t.id →
      t.Shiftable (window.finish.unixNanos - root.finish.unixNanos)
  fresh : s.changes.find? ⟨ctx.fresh⟩ = none

variable {s : Store}

/-! ### Deciding -/

/-- A walk comes to an end with what is to be moved, or with a task to which it was led and which
cannot be moved so far. `P` holds of the tasks that it may be led to. -/
theorem serve_plan {tenant : TenantId} {nanos : Int} {now updated : Timestamp}
    (hnow : now.inUtc? = some updated) {P : TaskId → Prop}
    (hled : ∀ v, P v → ∀ d ∈ s.dependentsOf (.only tenant) v, s.Movable tenant d.task → P d.task)
    {seen : Seen .task} {stack : List TaskId} {pending : List Dependency}
    (hstack : ∀ v ∈ stack, P v) (hpending : ∀ d ∈ pending, s.Movable tenant d.task → P d.task) :
    (∃ shifts, s.serve (Service.plan tenant nanos now seen stack pending) = (.ok shifts, s)) ∨
      s.serve (Service.plan tenant nanos now seen stack pending) =
          (.error (.invalid .windowOutOfRange), s) ∧
        ∃ t, s.task? (.only tenant) t.id = some t ∧ P t.id ∧ t.id ∉ seen ∧ ¬t.Shiftable nanos := by
  have htask : ∀ id, s.serve (Service.ask (.task (.only tenant) id)) =
      (.ok (s.task? (.only tenant) id), s) := fun id => serve_ask s (.task (.only tenant) id)
  have hdependents : ∀ id, s.serve (Service.ask (.dependentsOf (.only tenant) id)) =
      (.ok (s.dependentsOf (.only tenant) id), s) :=
    fun id => serve_ask s (.dependentsOf (.only tenant) id)
  induction seen, stack, pending using Service.plan.induct tenant with
  | case1 seen stack d pending hseen ih =>
      rw [Service.plan, dif_pos hseen]
      exact ih hstack fun e he => hpending e (List.mem_cons_of_mem d he)
  | case2 seen stack d pending hseen _ ih₁ ih₂ =>
      have hpending' : ∀ e ∈ pending, s.Movable tenant e.task → P e.task :=
        fun e he => hpending e (List.mem_cons_of_mem d he)
      -- what stands in the way of the rest was not met before either
      have hunseen : (∃ t, s.task? (.only tenant) t.id = some t ∧ P t.id ∧
          t.id ∉ seen.insert d.task hseen ∧ ¬t.Shiftable nanos) →
          ∃ t, s.task? (.only tenant) t.id = some t ∧ P t.id ∧ t.id ∉ seen ∧
            ¬t.Shiftable nanos := by
        rintro ⟨t, ht, hp, hnew, hnot⟩
        exact ⟨t, ht, hp, fun h => hnew (Seen.mem_insert.mpr (.inr h)), hnot⟩
      have hskip := (ih₁ hstack hpending').imp_right (And.imp_right hunseen)
      rw [Service.plan, dif_neg hseen, serve_bind, htask]
      cases hd : s.task? (.only tenant) d.task with
      | none => exact hskip
      | some t =>
          dsimp only
          split
          · exact hskip
          · rename_i hopen
            have hid := id_eq_of_task? hd
            have hmovable : s.Movable tenant d.task := ⟨t, hd, by simpa using hopen⟩
            have hp := hpending d List.mem_cons_self hmovable
            rw [serve_bind, serve_ofExcept]
            by_cases hshift : t.Shiftable nanos
            · obtain ⟨t', ht'⟩ := hshift.shifted hnow
              rw [ht']
              dsimp only
              rw [serve_bind]
              rcases ih₂ (List.forall_mem_cons.mpr ⟨hp, hstack⟩) hpending' with
                ⟨rest, hrest⟩ | ⟨hrest, hblocked⟩
              · rw [hrest]
                exact .inl ⟨_, rfl⟩
              · rw [hrest]
                exact .inr ⟨rfl, hunseen hblocked⟩
            · rw [Task.shifted_of_not_shiftable hshift]
              exact .inr ⟨rfl, t, by rwa [hid], by rwa [hid], by rwa [hid], hshift⟩
  | case3 seen =>
      rw [Service.plan]
      exact .inl ⟨_, rfl⟩
  | case4 seen task stack ih =>
      rw [Service.plan, serve_bind, hdependents]
      have htask := hstack task List.mem_cons_self
      exact ih _ (fun v hv => hstack v (List.mem_cons_of_mem task hv)) (hled task htask)

/-- A draft is made, unless the move takes a task along that cannot be moved so far. -/
theorem serve_draft {ctx : Context} {m : Move} {root : Task} {window : Window}
    (hindexed : s.Indexed) (hbetween : Window.between m.start m.finish = .ok window)
    (hfound : s.task? ctx.scope m.task = some root) (hopen : root.state.isClosed = false)
    (hclock : ctx.clock.inUtc?.isSome) :
    (∃ d, s.serve (Service.draft ctx m window (Text.trimmed m.reason)) = (.ok d, s)) ∨
      s.serve (Service.draft ctx m window (Text.trimmed m.reason)) =
          (.error (.invalid .windowOutOfRange), s) ∧
        m.cascade = true ∧ s.Overruns root (window.finish.unixNanos - root.finish.unixNanos) := by
  obtain ⟨now, hclock⟩ := Option.isSome_iff_exists.mp hclock
  have hnow : ctx.now = .ok now := Timestamp.toUtc_eq_ok_iff.mpr hclock
  have hnow' := Timestamp.inUtc?_of_inUtc? hclock
  have hpasses : Service.ensureOpen root = pure () := by simp [Service.ensureOpen, hopen]
  have hmoved : ∃ t, root.withWindow window.start window.finish now = .ok t :=
    ⟨_, Task.withWindow_eq_ok_iff.mpr ⟨window, now, Window.between_self hbetween, hnow', rfl⟩⟩
  obtain ⟨moved, hmoved⟩ := hmoved
  -- what is left once the tasks to be moved along are known
  have hlast : ∀ shifts change, s.serve (do
      Service.ensureActive
      let moved ← Service.ofExcept (root.withWindow window.start window.finish now)
      return ({ root, moved, shifts, change } : Draft)) = (.ok { root, moved, shifts, change }, s) := by
    intro shifts change
    rw [serve_bind, serve_ensureActive]
    dsimp only
    rw [hmoved]
    rfl
  rw [Service.draft, serve_visibleTask_bind, hfound]
  dsimp only
  rw [hpasses, serve_bind, serve_pure]
  dsimp only
  rw [serve_bind, serve_ofExcept, hnow]
  dsimp only
  split
  · rename_i hcascade
    have hled : ∀ v, ReflTransGen (s.Leads root.tenant) root.id v →
        ∀ d ∈ s.dependentsOf (.only root.tenant) v, s.Movable root.tenant d.task →
        ReflTransGen (s.Leads root.tenant) root.id d.task := by
      intro v hv d hd hmovable
      obtain ⟨hrow, htenant, hpre⟩ := hindexed.mem_dependentsOf.mp hd
      exact hv.tail ⟨⟨d, hrow, htenant, rfl, hpre⟩, hmovable⟩
    have hplan : ∀ nanos, (∃ shifts, s.serve (Service.planCascade root nanos now) = (.ok shifts, s)) ∨
        s.serve (Service.planCascade root nanos now) = (.error (.invalid .windowOutOfRange), s) ∧
          ∃ t, s.task? (.only root.tenant) t.id = some t ∧
            ReflTransGen (s.Leads root.tenant) root.id t.id ∧ t.id ∉ Seen.only root.id ∧
            ¬t.Shiftable nanos := fun nanos =>
      serve_plan hnow' hled (List.forall_mem_singleton.mpr .refl) (by simp)
    rw [serve_bind]
    rcases hplan _ with ⟨shifts, hshifts⟩ | ⟨hfail, t, ht, hreached, hnew, hnot⟩
    · rw [hshifts]
      exact .inl ⟨_, hlast _ _⟩
    · have hne : t.id ≠ root.id := by simpa using hnew
      rw [hfail]
      refine .inr ⟨rfl, hcascade.1, hcascade.2, t, (task?_eq_some_iff.mp ht).1, hne, ?_, hnot⟩
      exact (reflTransGen_iff_eq_or_transGen.mp hreached).resolve_left hne
  · rw [serve_bind, serve_pure]
    exact .inl ⟨_, hlast _ _⟩

/-! ### Carrying out -/

theorem serve_put {t : Task} (h : (s.tasks.find? t.id).isSome) :
    s.serve (Service.ask (.putTask t)) = (.ok (), { s with tasks := s.tasks.put t }) := by
  rw [serve_ask s (.putTask t)]
  simp only [reply, World.perform, World.commit, putTask_eq_ok_iff.mpr ⟨h, rfl⟩]
  rfl

theorem serve_writeCascade {shifts : List Shift}
    (h : ∀ x ∈ shifts, (s.tasks.find? x.after.id).isSome) :
    s.serve (Service.writeCascade shifts) = (.ok (shifts.map Shift.before, none),
      { s with tasks := s.tasks.putAll (shifts.map Shift.after) }) := by
  induction shifts generalizing s with
  | nil => rfl
  | cons x rest ih =>
      have hput := serve_put (h x List.mem_cons_self)
      have hrest := ih (s := { s with tasks := s.tasks.put x.after })
        fun y hy => Table.isSome_find?_put (h y (List.mem_cons_of_mem x hy))
      have hfirst : s.serve (do Service.ensureActive; Service.ask (.putTask x.after)) =
          (.ok (), { s with tasks := s.tasks.put x.after }) := by
        rw [serve_bind, serve_ensureActive]
        exact hput
      rw [Service.writeCascade, serve_bind, serve_outcome, hfirst]
      dsimp only
      rw [serve_bind, hrest]
      rfl

theorem serve_publish (setup : Setup) (tenant : TenantId) (task : TaskId) (eventType : String)
    (payload : Option Json) :
    ∃ outbox, s.serve (Service.publish setup tenant task eventType payload) =
      (.ok (), { s with outbox }) := by
  unfold Service.publish
  split
  · exact ⟨_, rfl⟩
  · exact ⟨_, rfl⟩

theorem serve_record (setup : Setup) {c : ScheduleChange} (h : s.changes.find? c.id = none) :
    ∃ outbox, s.serve (Service.record setup c) =
      (.ok (), { s with changes := s.changes.put c, outbox }) := by
  have hadd : s.serve (Service.ask (.addChange c)) =
      (.ok (), { s with changes := s.changes.put c }) := by
    rw [serve_ask s (.addChange c)]
    simp only [reply, World.perform, World.commit, addChange_eq_ok_iff.mpr ⟨h, rfl⟩]
    rfl
  rw [Service.record, serve_bind, hadd]
  exact serve_publish setup _ _ _ _

/-- What was decided is written and recorded, if the identifier of the change is new. -/
theorem serve_carryOut (setup : Setup) {sound : Prop} {ctx : Context} {m : Move} {d : Draft}
    (h : d.Drawn sound s ctx m) (hfresh : s.changes.find? d.change.id = none) :
    ∃ outbox, s.serve (Service.carryOut setup d) = (.ok (d.record d.shifts), { s with
      tasks := s.tasks.putAll (d.written d.shifts)
      changes := s.changes.put (d.record d.shifts)
      outbox }) := by
  have hroot : (s.tasks.find? d.moved.id).isSome := by
    rw [h.id_moved, h.find?_root]
    rfl
  have hstored : ∀ x ∈ d.shifts, ((s.tasks.put d.moved).find? x.after.id).isSome := by
    intro x hx
    have hfits := h.fits x hx
    refine Table.isSome_find?_put ?_
    rw [hfits.id_after, (task?_eq_some_iff.mp hfits.found).1]
    rfl
  have hids : (d.shifts.map Shift.before).map Task.id = d.shifts.map Shift.id := List.map_map
  obtain ⟨outbox, hrecord⟩ := serve_record
    (s := { s with tasks := s.tasks.putAll (d.written d.shifts) }) setup
    (c := d.record d.shifts) hfresh
  refine ⟨outbox, ?_⟩
  rw [Service.carryOut, serve_bind, serve_put hroot]
  dsimp only
  rw [serve_bind, serve_writeCascade hstored]
  dsimp only
  rw [hids, serve_bind]
  simp only [Draft.record, Draft.written, Table.putAll_cons] at hrecord
  rw [hrecord]
  rfl

/-- What comes of a move that is not refused at once comes of a draft and of carrying it out. -/
theorem serve_reschedule_eq (setup : Setup) {ctx : Context} {m : Move} {root : Task}
    {window : Window} (hbetween : Window.between m.start m.finish = .ok window)
    (hreason : Text.trimmed m.reason ≠ "") (hfound : s.task? ctx.scope m.task = some root)
    (hmoves : ctx.actor.movesWork = true) (hopen : root.state.isClosed = false) :
    s.serve (Service.reschedule setup ctx m) = s.serve (do
      let d ← Service.draft ctx m window (Text.trimmed m.reason)
      Service.carryOut setup d) := by
  have hpasses : Service.ensureOpen root = pure () := by simp [Service.ensureOpen, hopen]
  rw [Service.reschedule, serve_bind, serve_ofExcept, hbetween]
  dsimp only
  rw [if_neg hreason, serve_visibleTask_bind, hfound]
  dsimp only
  rw [hmoves, if_neg (by decide), hpasses, serve_bind, serve_pure]
  dsimp only
  rw [serve_locked]

/-- A move that is permitted succeeds when nothing goes wrong. -/
theorem serve_reschedule (setup : Setup) {ctx : Context} {m : Move} {root : Task} {window : Window}
    (hindexed : s.Indexed) (h : s.Permits ctx m root window) :
    ∃ change s', s.serve (Service.reschedule setup ctx m) = (.ok change, s') := by
  obtain ⟨d, hd⟩ | ⟨-, hcascade, hnanos, t, ht, hne, hpath, hnot⟩ :=
    serve_draft hindexed h.between h.found h.isOpen h.clock
  swap
  · exact absurd (h.shiftable hcascade hnanos t ht hne hpath) hnot
  obtain ⟨log, hcourse⟩ := s.course_serve (Service.draft ctx m window (Text.trimmed m.reason))
  rw [hd] at hcourse
  obtain ⟨-, hdrawn⟩ := Service.course_draft h.between hcourse
  have hfresh : s.changes.find? d.change.id = none := by
    rw [hdrawn.change]
    exact h.fresh
  obtain ⟨outbox, hcarry⟩ := serve_carryOut setup hdrawn hfresh
  rw [serve_reschedule_eq setup h.between h.reason h.found h.moves h.isOpen, serve_bind, hd]
  exact ⟨_, _, hcarry⟩

/-- A move that succeeds when nothing goes wrong is permitted. -/
theorem exists_permits {setup : Setup} {ctx : Context} {m : Move} {change : ScheduleChange}
    (hindexed : s.Indexed) (hok : (s.serve (Service.reschedule setup ctx m)).1 = .ok change) :
    ∃ root window, s.Permits ctx m root window := by
  obtain ⟨log, hcourse⟩ := s.course_serve (Service.reschedule setup ctx m)
  rw [hok] at hcourse
  generalize (s.serve (Service.reschedule setup ctx m)).2 = s' at hcourse
  obtain ⟨window, _, _, s₁, hcheck, h₁, -⟩ := Service.course_bind_ok hcourse
  obtain ⟨-, hwindow, rfl⟩ := Service.course_ofExcept hcheck
  have hbetween := hwindow.symm
  rcases Service.course_guard h₁ with ⟨-, hr, -⟩ | ⟨hreason, h₂⟩
  · cases hr
  obtain ⟨root, _, _, s₂, hvisible, h₃, -⟩ := Service.course_bind_ok h₂
  obtain ⟨rfl, hfound⟩ := Service.course_visibleTask hvisible
  rcases Service.course_guard h₃ with ⟨-, hr, -⟩ | ⟨hmoves, h₄⟩
  · cases hr
  obtain ⟨_, _, _, s₃, hensure, h₅, -⟩ := Service.course_bind_ok h₄
  obtain ⟨rfl, hopen⟩ := Service.course_ensureOpen hensure
  obtain ⟨_, -, h₆⟩ := Service.course_locked h₅
  obtain ⟨d, _, _, s₄, hdraft, hcarry, -⟩ := Service.course_bind_ok h₆
  obtain ⟨rfl, hdrawn⟩ := Service.course_draft hbetween hdraft
  obtain rfl : d.root = root := Option.some.inj (hdrawn.root.symm.trans hfound)
  have hfresh : s₄.changes.find? d.change.id = none := by
    cases (Service.course_carryOut hcarry).2 with
    | recorded _ _ _ hnew => exact hnew
  refine ⟨d.root, window, hbetween, hreason, hfound, by simpa using hmoves, hopen, ?_, ?_, ?_⟩
  · rw [hdrawn.clock]
    rfl
  · rw [← nanos_of_drawn hdrawn hbetween]
    intro hcascade hnanos t ht hne hpath
    by_contra hnot
    exact not_overruns_of_drawn hindexed trivial hdrawn hcascade ⟨hnanos, t, ht, hne, hpath, hnot⟩
  · rw [hdrawn.change] at hfresh
    exact hfresh

end Store

end Overhaul
