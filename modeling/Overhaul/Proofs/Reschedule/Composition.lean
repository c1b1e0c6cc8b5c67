import Overhaul.Proofs.History
import Overhaul.Proofs.Reschedule.Permitted

/-!
# Moves one after the other

Where a task is moved in the end is all that counts: a detour makes no difference to any window.
`Store.Relocates` says what a cascading move makes of the windows, with no case apart for a move on
which the window keeps its end and nothing is moved along. Main statements: two moves of a task
relocate it and what waits for it as the second one alone does (`Store.Relocates.trans`), and the
second one alone succeeds as well (`moves_compose`).
-/

namespace Overhaul

open Relation

/-- The first store has the root, and the second has it in a new window. Whatever open tasks a move
of the root leads to are moved by a duration, which may be none, and the windows of other tasks stay.
Nothing else about any task is different, but for the time of its last change, and nothing about any
dependency. -/
structure Store.Relocates (s s' : Store) (root : Task) (window : Window) (nanos : Int) : Prop where
  stored : s.tasks.find? root.id = some root
  placed : ∃ updated, s'.tasks.find? root.id =
    some { root with start := window.start, finish := window.finish, updated }
  led : ∀ id, id ≠ root.id → TransGen (s.Leads root.tenant) root.id id →
    ∃ t start finish updated, s.tasks.find? id = some t ∧ t.start.shift? nanos = some start ∧
      t.finish.shift? nanos = some finish ∧ s'.tasks.find? id = some { t with start, finish, updated }
  others : ∀ id, id ≠ root.id → ¬TransGen (s.Leads root.tenant) root.id id →
    s'.tasks.find? id = s.tasks.find? id
  dependencies : s'.dependencies = s.dependencies

/-- The instants at which the task starts and ends. -/
def Store.instants (s : Store) (id : TaskId) : Option (Int × Int) :=
  (s.windows id).map fun (start, finish) => (start.unixNanos, finish.unixNanos)

theorem Timestamp.shift?_zero (t : Timestamp) : t.shift? 0 = some t :=
  shift?_eq_some_iff.mpr ⟨(Int.add_zero _).symm, rfl⟩

namespace Store

variable {s s₁ s₂ s' : Store} {root : Task} {window : Window} {nanos : Int}

/-- Who sees a task, and how far the work on it has come, stays as it was. -/
theorem Relocates.state_task? (h : s.Relocates s' root window nanos) (scope : Scope) (id : TaskId) :
    (s'.task? scope id).map Task.state = (s.task? scope id).map Task.state := by
  have hsame : ∀ t start finish updated, s.tasks.find? id = some t →
      s'.tasks.find? id = some { t with start, finish, updated } →
      (s'.task? scope id).map Task.state = (s.task? scope id).map Task.state := by
    intro t start finish updated hbefore hafter
    have hvisible : Task.visibleIn { t with start, finish, updated } scope = t.visibleIn scope := rfl
    rw [task?, task?, hbefore, hafter, Option.filter_some, Option.filter_some, hvisible]
    split <;> rfl
  by_cases hid : id = root.id
  · subst hid
    obtain ⟨_, hplaced⟩ := h.placed
    exact hsame root _ _ _ h.stored hplaced
  by_cases hled : TransGen (s.Leads root.tenant) root.id id
  · obtain ⟨t, _, _, _, hbefore, -, -, hafter⟩ := h.led id hid hled
    exact hsame t _ _ _ hbefore hafter
  · rw [task?, task?, h.others id hid hled]

theorem movable_iff {tenant : TenantId} {id : TaskId} : s.Movable tenant id ↔
    ∃ state, (s.task? (.only tenant) id).map Task.state = some state ∧ state.isClosed = false := by
  simp [Movable, Option.map_eq_some_iff]

/-- A move leads to the same tasks afterwards. -/
theorem Relocates.leads_iff (h : s.Relocates s' root window nanos) (tenant : TenantId) (a b : TaskId) :
    s'.Leads tenant a b ↔ s.Leads tenant a b := by
  rw [Leads, Leads, movable_iff, movable_iff, h.state_task?, Waits, Waits, h.dependencies]

theorem Relocates.leads_eq (h : s.Relocates s' root window nanos) (tenant : TenantId) :
    s'.Leads tenant = s.Leads tenant := by
  funext a b
  exact propext (h.leads_iff tenant a b)

/-- Two moves, one after the other, relocate all tasks as one by both durations does. -/
theorem Relocates.trans {window₁ window₂ : Window} {nanos₁ nanos₂ : Int} {root₁ : Task}
    (h₁ : s.Relocates s₁ root window₁ nanos₁) (h₂ : s₁.Relocates s₂ root₁ window₂ nanos₂)
    (hid : root₁.id = root.id) : s.Relocates s₂ root window₂ (nanos₁ + nanos₂) := by
  obtain ⟨updated₁, hplaced₁⟩ := h₁.placed
  obtain ⟨updated₂, hplaced₂⟩ := h₂.placed
  have hroot₁ : root₁ = { root with
      start := window₁.start, finish := window₁.finish, updated := updated₁ } := by
    have hstored := h₂.stored
    rw [hid, hplaced₁] at hstored
    exact (Option.some.inj hstored).symm
  have hleads : s₁.Leads root₁.tenant = s.Leads root.tenant := by
    rw [hroot₁, h₁.leads_eq]
  have hled₂ := h₂.led
  have hothers₂ := h₂.others
  rw [hleads, hid] at hled₂ hothers₂
  refine ⟨h₁.stored, ⟨updated₂, ?_⟩, ?_, ?_, h₂.dependencies.trans h₁.dependencies⟩
  · rw [← hid, hplaced₂, hroot₁]
  · intro id hne hpath
    obtain ⟨t, start₁, finish₁, _, ht, hstart₁, hfinish₁, ht₁⟩ := h₁.led id hne hpath
    obtain ⟨_, start₂, finish₂, updated, ht', hstart₂, hfinish₂, ht₂⟩ := hled₂ id hne hpath
    rw [ht₁] at ht'
    cases ht'
    rw [Timestamp.shift?_eq_some_iff] at hstart₁ hfinish₁ hstart₂ hfinish₂
    refine ⟨t, start₂, finish₂, updated, ht, ?_, ?_, ht₂⟩
    · refine Timestamp.shift?_eq_some_iff.mpr ⟨?_, hstart₂.2.trans hstart₁.2⟩
      dsimp only at hstart₂
      omega
    · refine Timestamp.shift?_eq_some_iff.mpr ⟨?_, hfinish₂.2.trans hfinish₁.2⟩
      dsimp only at hfinish₂
      omega
  · intro id hne hpath
    rw [hothers₂ id hne hpath, h₁.others id hne hpath]

/-- What a move makes of the windows is fixed by where it takes the root. -/
theorem Relocates.windows_eq (h : s.Relocates s' root window nanos)
    (h₁ : s.Relocates s₁ root window nanos) : s'.windows = s₁.windows := by
  funext id
  rw [windows, windows]
  by_cases hid : id = root.id
  · obtain ⟨_, hplaced⟩ := h.placed
    obtain ⟨_, hplaced₁⟩ := h₁.placed
    rw [hid, hplaced, hplaced₁]
    rfl
  by_cases hled : TransGen (s.Leads root.tenant) root.id id
  · obtain ⟨t, start, finish, _, ht, hstart, hfinish, hafter⟩ := h.led id hid hled
    obtain ⟨_, start₁, finish₁, _, ht₁, hstart₁, hfinish₁, hafter₁⟩ := h₁.led id hid hled
    cases ht.symm.trans ht₁
    cases hstart.symm.trans hstart₁
    cases hfinish.symm.trans hfinish₁
    rw [hafter, hafter₁]
    rfl
  · rw [h.others id hid hled, h₁.others id hid hled]

/-- When the root gets back the window that it had, every task has the instants that it had. -/
theorem Relocates.instants_eq (h : s.Relocates s' root window 0)
    (hstart : window.start.unixNanos = root.start.unixNanos)
    (hfinish : window.finish.unixNanos = root.finish.unixNanos) : s'.instants = s.instants := by
  funext id
  rw [instants, instants, windows, windows]
  by_cases hid : id = root.id
  · obtain ⟨_, hplaced⟩ := h.placed
    rw [hid, hplaced, h.stored]
    simp [hstart, hfinish]
  by_cases hled : TransGen (s.Leads root.tenant) root.id id
  · obtain ⟨t, start, finish, _, ht, hstart, hfinish, hafter⟩ := h.led id hid hled
    cases (Timestamp.shift?_zero t.start).symm.trans hstart
    cases (Timestamp.shift?_zero t.finish).symm.trans hfinish
    rw [ht, hafter]
    rfl
  · rw [h.others id hid hled]

/-- A displacement by which whatever a move leads to is moved along relocates all tasks. -/
theorem Displaced.relocates {start finish now : Timestamp} {moved : List TaskId}
    (h : s.Displaced s' root start finish nanos now moved)
    (hstored : s.tasks.find? root.id = some root)
    (hmoved : ∀ x, x ∈ moved ↔
      nanos ≠ 0 ∧ x ≠ root.id ∧ TransGen (s.Leads root.tenant) root.id x) :
    s.Relocates s' root ⟨start, finish⟩ nanos := by
  refine ⟨hstored, ⟨now, h.placed⟩, ?_, ?_, h.dependencies⟩
  · intro id hne hled
    by_cases hzero : nanos = 0
    · obtain ⟨_, -, -, t, ht, -⟩ := TransGen.tail'_iff.mp hled
      obtain ⟨hfound, -, -⟩ := task?_eq_some_iff.mp ht
      refine ⟨t, t.start, t.finish, t.updated, hfound, ?_, ?_, ?_⟩
      · rw [hzero, Timestamp.shift?_zero]
      · rw [hzero, Timestamp.shift?_zero]
      · rw [h.others id hne fun hmem => ((hmoved id).mp hmem).1 hzero, hfound]
    · obtain ⟨t, start', finish', hfound, hstart, hfinish, hafter⟩ :=
        h.shifted id ((hmoved id).mpr ⟨hzero, hne, hled⟩)
      exact ⟨t, start', finish', now, hfound, hstart, hfinish, hafter⟩
  · intro id hne hnot
    exact h.others id hne fun hmem => hnot ((hmoved id).mp hmem).2.2

/-- What a cascading move that succeeds leaves. -/
theorem exists_relocates {setup : Setup} {ctx : Context} {m : Move} {change : ScheduleChange}
    (hindexed : s.Indexed) (hcascade : m.cascade = true)
    (hserve : s.serve (Service.reschedule setup ctx m) = (.ok change, s')) :
    ∃ root window, s.Permits ctx m root window ∧
      s.Relocates s' root window (window.finish.unixNanos - root.finish.unixNanos) ∧ s'.Indexed ∧
      ∀ id, s'.changes.find? id = none → s.changes.find? id = none := by
  have hresult := congrArg Prod.fst hserve
  have hleft := congrArg Prod.snd hserve
  obtain ⟨root, window, hpermits⟩ := exists_permits hindexed hresult
  -- the same in a world of its own
  have hquiet : ({ store := s } : World).Quiet := ⟨rfl, rfl⟩
  obtain ⟨hresult', hleft'⟩ := hquiet.run (Service.reschedule setup ctx m).run
  have hwithin : ({ store := s } : World).Within fun _ => True := World.within_of_faults_eq_nil rfl
  obtain ⟨root', start, finish, now, hroot, hstart, hfinish, -, -, hmoved, hdisplaced⟩ :=
    cascade_exact (w := { store := s }) hindexed hwithin hcascade (hresult'.trans hresult)
  have hstore : (({ store := s } : World).serve (Service.reschedule setup ctx m)).2.store = s' :=
    hleft'.trans hleft
  rw [hstore] at hdisplaced
  obtain rfl : root' = root := Option.some.inj (hroot.symm.trans hpermits.found)
  obtain ⟨-, hstart', hfinish'⟩ := Window.between_eq_ok_iff.mp hpermits.between
  obtain rfl : window.start = start := Option.some.inj (hstart'.symm.trans hstart)
  obtain rfl : window.finish = finish := Option.some.inj (hfinish'.symm.trans hfinish)
  have hstored : s.tasks.find? root'.id = some root' := by
    rw [id_eq_of_task? hpermits.found]
    exact (task?_eq_some_iff.mp hpermits.found).1
  refine ⟨root', window, hpermits, hdisplaced.relocates hstored hmoved, ?_, ?_⟩
  · exact hindexed.of_eq hdisplaced.dependencies hdisplaced.prerequisites hdisplaced.dependents
  · obtain ⟨log, hcourse⟩ := s.course_serve (Service.reschedule setup ctx m)
    rw [hserve] at hcourse
    have hgrows : s.changes.rows <+: s'.changes.rows := hcourse.keeps
      (J := fun v => s.changes.rows <+: v.changes.rows)
      (fun _ _ _ _ hx h => h.trans (Exchange.changes_prefix hx)) List.prefix_rfl
    intro id
    rw [Table.find?_eq_none_iff, Table.find?_eq_none_iff]
    exact fun hnot hmem => hnot ((hgrows.sublist.map ScheduleChange.id).subset hmem)

/-- When a task can be moved to one place and from there to another, it can be moved to the other
place at once. -/
theorem Permits.direct {ctx₁ ctx₂ : Context} {m₁ m₂ : Move} {root₁ : Task} {window₁ window₂ : Window}
    (h₁ : s.Permits ctx₁ m₁ root window₁) (h₂ : s₁.Permits ctx₂ m₂ root₁ window₂)
    (htask : m₂.task = m₁.task) (hrelocates : s.Relocates s₁ root window₁ nanos)
    (hdirect : s.Relocates s₂ root window₂ (window₂.finish.unixNanos - root.finish.unixNanos))
    (hgrows : ∀ id, s₁.changes.find? id = none → s.changes.find? id = none) :
    s.Permits ctx₂ m₂ root window₂ := by
  refine ⟨h₂.between, h₂.reason, ?_, h₂.moves, h₁.isOpen, h₂.clock, ?_, hgrows _ h₂.fresh⟩
  · have hstate := hrelocates.state_task? ctx₂.scope m₂.task
    rw [h₂.found] at hstate
    obtain ⟨t, ht, -⟩ := Option.map_eq_some_iff.mp hstate.symm
    have hfound := (task?_eq_some_iff.mp ht).1
    rw [htask, (task?_eq_some_iff.mp h₁.found).1] at hfound
    rw [ht, hfound]
  · intro _ _ t ht hne hpath
    obtain ⟨t', _, _, _, ht', hstart, hfinish, -⟩ := hdirect.led t.id hne hpath
    obtain rfl : t' = t := Option.some.inj (ht'.symm.trans ht)
    exact ⟨by rw [hstart]; rfl, by rw [hfinish]; rfl⟩

/-- When a task is moved to one place and from there to another, moving it to the other place at once
succeeds, and no window tells the difference. -/
theorem serve_direct {setup₁ setup₂ : Setup} {ctx₁ ctx₂ : Context} {m₁ m₂ : Move}
    {change₁ change₂ : ScheduleChange} (hindexed : s.Indexed) (hcascade₁ : m₁.cascade = true)
    (hcascade₂ : m₂.cascade = true) (htask : m₂.task = m₁.task)
    (h₁ : s.serve (Service.reschedule setup₁ ctx₁ m₁) = (.ok change₁, s₁))
    (h₂ : s₁.serve (Service.reschedule setup₂ ctx₂ m₂) = (.ok change₂, s₂)) :
    ∃ change s', s.serve (Service.reschedule setup₂ ctx₂ m₂) = (.ok change, s') ∧
      s'.windows = s₂.windows ∧ ∀ root, s.tasks.find? m₁.task = some root →
        m₂.start.unixNanos = root.start.unixNanos → m₂.finish.unixNanos = root.finish.unixNanos →
        s₂.instants = s.instants := by
  obtain ⟨root, window₁, hpermits₁, hrelocates₁, hindexed₁, hgrows⟩ :=
    exists_relocates hindexed hcascade₁ h₁
  obtain ⟨root₁, window₂, hpermits₂, hrelocates₂, -, -⟩ := exists_relocates hindexed₁ hcascade₂ h₂
  have hid : root.id = m₁.task := id_eq_of_task? hpermits₁.found
  have hid₁ : root₁.id = root.id := by
    rw [id_eq_of_task? hpermits₂.found, htask, hid]
  obtain ⟨updated, hplaced⟩ := hrelocates₁.placed
  have hfinish₁ : root₁.finish = window₁.finish := by
    have hstored := hrelocates₂.stored
    rw [hid₁, hplaced] at hstored
    rw [← Option.some.inj hstored]
  have hdirect := hrelocates₁.trans hrelocates₂ hid₁
  have hnanos : window₁.finish.unixNanos - root.finish.unixNanos +
      (window₂.finish.unixNanos - root₁.finish.unixNanos) =
      window₂.finish.unixNanos - root.finish.unixNanos := by
    rw [hfinish₁]
    omega
  rw [hnanos] at hdirect
  have hpermits := hpermits₁.direct hpermits₂ htask hrelocates₁ hdirect hgrows
  obtain ⟨change, s', hserve⟩ := serve_reschedule setup₂ hindexed hpermits
  obtain ⟨root', window', hpermits', hrelocates', -, -⟩ := exists_relocates hindexed hcascade₂ hserve
  obtain rfl : root' = root := Option.some.inj (hpermits'.found.symm.trans hpermits.found)
  obtain rfl : window' = window₂ := Except.ok.inj (hpermits'.between.symm.trans hpermits.between)
  refine ⟨change, s', hserve, hrelocates'.windows_eq hdirect, ?_⟩
  intro root hroot hstart hfinish
  obtain rfl : root' = root := by
    have hstored := hdirect.stored
    rw [hid, hroot] at hstored
    exact (Option.some.inj hstored).symm
  obtain ⟨-, hstart', hfinish'⟩ := Window.between_eq_ok_iff.mp hpermits.between
  rw [Timestamp.inUtc?_eq_some_iff] at hstart' hfinish'
  have hzero : window'.finish.unixNanos - root'.finish.unixNanos = 0 := by omega
  rw [hzero] at hdirect
  exact hdirect.instants_eq (by omega) (by omega)

end Store

/-- When a task is moved to one window and then to another, each time along with what waits for it
and with nothing going wrong, it could have been moved to the other window at once, with the same
windows of all tasks in the end. If that is the window it had, then all tasks start and end again when
they did. -/
theorem moves_compose {w : World} (hquiet : w.Quiet) (hindexed : w.store.Indexed)
    {setup₁ setup₂ : Setup} {ctx₁ ctx₂ : Context} {m₁ m₂ : Move} {change₁ change₂ : ScheduleChange}
    {w₁ w₂ : World} (hcascade₁ : m₁.cascade = true) (hcascade₂ : m₂.cascade = true)
    (htask : m₂.task = m₁.task)
    (h₁ : w.serve (Service.reschedule setup₁ ctx₁ m₁) = (.ok change₁, w₁))
    (h₂ : w₁.serve (Service.reschedule setup₂ ctx₂ m₂) = (.ok change₂, w₂)) :
    ∃ change w', w.serve (Service.reschedule setup₂ ctx₂ m₂) = (.ok change, w') ∧
      w'.store.windows = w₂.store.windows ∧ ∀ root, w.store.tasks.find? m₁.task = some root →
        m₂.start.unixNanos = root.start.unixNanos → m₂.finish.unixNanos = root.finish.unixNanos →
        w₂.store.instants = w.store.instants := by
  have hserve : ∀ {v v' : World} {p : Service ScheduleChange} {change : ScheduleChange}, v.Quiet →
      v.serve p = (.ok change, v') → v.store.serve p = (.ok change, v'.store) := by
    intro v v' p change hv h
    obtain ⟨hresult, hleft⟩ := hv.run p.run
    change (v.serve p).1 = (v.store.serve p).1 at hresult
    change (v.serve p).2.store = (v.store.serve p).2 at hleft
    rw [h] at hresult hleft
    exact Prod.ext hresult.symm hleft.symm
  have hquiet₁ : w₁.Quiet := by
    have hleft := hquiet.left (Service.reschedule setup₁ ctx₁ m₁).run
    change (w.serve (Service.reschedule setup₁ ctx₁ m₁)).2.Quiet at hleft
    rwa [h₁] at hleft
  obtain ⟨change, s', hdirect, hwindows, hback⟩ :=
    Store.serve_direct hindexed hcascade₁ hcascade₂ htask (hserve hquiet h₁) (hserve hquiet₁ h₂)
  obtain ⟨hresult, hleft⟩ := hquiet.run (Service.reschedule setup₂ ctx₂ m₂).run
  refine ⟨change, (w.serve (Service.reschedule setup₂ ctx₂ m₂)).2, Prod.ext ?_ rfl, ?_, hback⟩
  · exact hresult.trans (congrArg Prod.fst hdirect)
  · rw [← hwindows]
    exact congrArg Store.windows (hleft.trans (congrArg Prod.snd hdirect))

/-- The first task of the small store is brought back to where it was. -/
def sampleReturn : Move := { sampleMove with start := Store.hour 0 1, finish := Store.hour 1 1 }

/-- The first task of the small store is put off and brought back, along with both that wait. -/
theorem moves_compose_sample :
    let w : World := { store := .sample }
    let away := Service.reschedule {} sampleContext sampleMove
    let back := Service.reschedule {} { sampleContext with fresh := 8 } sampleReturn
    ∃ change₁ change₂ w₁ w₂, w.serve away = (.ok change₁, w₁) ∧ w₁.serve back = (.ok change₂, w₂) ∧
      change₂.affected = [.ofNat 2, .ofNat 3] ∧ ∃ change w', w.serve back = (.ok change, w') ∧
        w'.store.windows = w₂.store.windows ∧ w₂.store.instants = w.store.instants := by
  intro w away back
  -- stores are computed with more easily than worlds
  have hok₁ : (Store.sample.serve (Service.reschedule {} sampleContext sampleMove)).1.map
      ScheduleChange.affected = .ok [.ofNat 2, .ofNat 3] := by cbv
  have hok₂ : ((Store.sample.serve (Service.reschedule {} sampleContext sampleMove)).2.serve
      (Service.reschedule {} { sampleContext with fresh := 8 } sampleReturn)).1.map
      ScheduleChange.affected = .ok [.ofNat 2, .ofNat 3] := by cbv
  obtain ⟨change₁, hresult₁, -⟩ := exists_of_affected hok₁
  obtain ⟨change₂, hresult₂, haffected⟩ := exists_of_affected hok₂
  have hquiet : w.Quiet := ⟨rfl, rfl⟩
  obtain ⟨hrun₁, hleft₁⟩ := hquiet.run away.run
  obtain ⟨hrun₂, -⟩ := (hquiet.left away.run).run back.run
  rw [hleft₁] at hrun₂
  have h₁ : w.serve away = (.ok change₁, (w.serve away).2) := Prod.ext (hrun₁.trans hresult₁) rfl
  have h₂ : (w.serve away).2.serve back = (.ok change₂, ((w.serve away).2.serve back).2) :=
    Prod.ext (hrun₂.trans hresult₂) rfl
  have hroot : w.store.tasks.find? sampleMove.task = some (Store.sampleTask 1 0 0) := by decide
  have htask : sampleReturn.task = sampleMove.task := rfl
  have hstart : sampleReturn.start.unixNanos = (Store.sampleTask 1 0 0).start.unixNanos := by decide
  have hfinish : sampleReturn.finish.unixNanos = (Store.sampleTask 1 0 0).finish.unixNanos := by
    decide
  generalize (w.serve away).2 = w₁ at h₁ h₂
  generalize (w₁.serve back).2 = w₂ at h₂
  obtain ⟨change, w', hserve, hwindows, hback⟩ :=
    moves_compose hquiet Store.indexed_sample (show sampleMove.cascade = true from rfl)
      (show sampleReturn.cascade = true from rfl) htask h₁ h₂
  exact ⟨change₁, change₂, w₁, w₂, h₁, h₂, haffected, change, w', hserve, hwindows,
    hback _ hroot hstart hfinish⟩

end Overhaul
