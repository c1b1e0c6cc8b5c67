import Overhaul.Proofs.Reschedule.Composition

/-!
# Moves that do not concern each other

Two tasks, neither of which is taken along by a move of the other, may be moved in either order, also
when some tasks wait for both of them. `Store.delay` is by how much a move takes a task along. Main
statements: a move does just that to the windows of all tasks but its root (`Store.Relocates.readings`),
two moves add up (`Store.Relocates.readings_add`), and the order of two such moves makes no difference
to any window (`moves_commute`).
-/

namespace Overhaul

open Relation

namespace Store

/-- What the clocks at both ends of the window of a task show some time later. -/
def readings (s : Store) (id : TaskId) (later : Int) : Option ((Int × Int) × Int × Int) :=
  (s.windows id).map fun (start, finish) =>
    ((start.unixNanos + later, start.offset), finish.unixNanos + later, finish.offset)

theorem readings_add (s : Store) (id : TaskId) (d e : Int) : s.readings id (d + e) =
    (s.readings id d).map fun ((a, o), b, p) => ((a + e, o), b + e, p) := by
  simp only [readings, Option.map_map, Function.comp_def, Int.add_assoc]

/-- A window is known by what its clocks show. -/
theorem windows_eq_of_readings {s s' : Store} {id : TaskId}
    (h : s.readings id 0 = s'.readings id 0) : s.windows id = s'.windows id := by
  refine Option.map_injective ?_ h
  rintro ⟨a, b⟩ ⟨a', b'⟩ hab
  simp only [Int.add_zero, Prod.mk.injEq] at hab
  obtain ⟨⟨hstart, hclock⟩, hfinish, hclock'⟩ := hab
  exact Prod.ext (Timestamp.ext hstart hclock) (Timestamp.ext hfinish hclock')

open Classical in
/-- By how much a move of the root takes a task along. -/
noncomputable def delay (s : Store) (root : Task) (nanos : Int) (id : TaskId) : Int :=
  if TransGen (s.Leads root.tenant) root.id id then nanos else 0

variable {s s₁ s₂ s₁₂ s₂₁ s' : Store} {root a b : Task} {window u v : Window} {nanos n k : Int}
  {id : TaskId}

/-- A move takes every task along by its delay, and so leaves all others where they are. -/
theorem Relocates.readings (h : s.Relocates s' root window nanos)
    (hne : id ≠ root.id) : s'.readings id 0 = s.readings id (s.delay root nanos id) := by
  unfold delay
  split
  · rename_i hled
    obtain ⟨t, start, finish, updated, ht, hstart, hfinish, ht'⟩ := h.led id hne hled
    rw [Timestamp.shift?_eq_some_iff] at hstart hfinish
    simp only [Store.readings, windows, ht, ht', Option.map_some, hstart, hfinish, Int.add_zero]
  · rename_i hnot
    simp only [Store.readings, windows, h.others id hne hnot]

theorem delay_of_leads (h : TransGen (s.Leads root.tenant) root.id id) :
    s.delay root nanos id = nanos := if_pos h

/-- Two moves take every other task along by the delays of both. -/
theorem Relocates.readings_add (h₁ : s.Relocates s₁ a u n) (h₁₂ : s₁.Relocates s₁₂ b v k)
    (hida : id ≠ a.id) (hidb : id ≠ b.id) :
    s₁₂.readings id 0 = s.readings id (s.delay a n id + s.delay b k id) := by
  have hdelay : s₁.delay b k id = s.delay b k id := by rw [delay, delay, h₁.leads_eq]
  calc s₁₂.readings id 0
      = s₁.readings id (0 + s.delay b k id) := by rw [h₁₂.readings hidb, hdelay, Int.zero_add]
    _ = s.readings id (s.delay a n id + s.delay b k id) := by
        rw [Store.readings_add, h₁.readings hida, ← Store.readings_add]

/-- When two tasks do not take each other along, the order in which they are moved makes no difference
to any window. -/
theorem Relocates.windows_comm (h₁ : s.Relocates s₁ a u n) (h₁₂ : s₁.Relocates s₁₂ b v k)
    (h₂ : s.Relocates s₂ b v k) (h₂₁ : s₂.Relocates s₂₁ a u n) (hne : a.id ≠ b.id)
    (hab : ¬TransGen (s.Leads a.tenant) a.id b.id)
    (hba : ¬TransGen (s.Leads b.tenant) b.id a.id) : s₁₂.windows = s₂₁.windows := by
  have hab' : ¬TransGen (s₂.Leads a.tenant) a.id b.id := by rwa [h₂.leads_eq]
  have hba' : ¬TransGen (s₁.Leads b.tenant) b.id a.id := by rwa [h₁.leads_eq]
  obtain ⟨_, hplaced₁⟩ := h₁.placed
  obtain ⟨_, hplaced₂⟩ := h₂.placed
  obtain ⟨_, hplaced₁₂⟩ := h₁₂.placed
  obtain ⟨_, hplaced₂₁⟩ := h₂₁.placed
  funext id
  by_cases hida : id = a.id
  · -- the second move does not touch what the first one has placed
    rw [hida, windows, windows, h₁₂.others a.id hne hba', hplaced₁, hplaced₂₁]
    rfl
  by_cases hidb : id = b.id
  · rw [hidb, windows, windows, h₂₁.others b.id hne.symm hab', hplaced₂, hplaced₁₂]
    rfl
  refine windows_eq_of_readings ?_
  rw [h₁.readings_add h₁₂ hida hidb, h₂.readings_add h₂₁ hidb hida, Int.add_comm]

/-- When no dependency leaves a set of tasks, a move of one of them leads to no other task. -/
theorem mem_of_leads {tenant : TenantId} {ids : List TaskId}
    (hclosed : ∀ d ∈ s.dependencies.rows, d.prerequisite ∈ ids → d.task ∈ ids) {x y : TaskId}
    (hled : TransGen (s.Leads tenant) x y) (hx : x ∈ ids) : y ∈ ids := by
  have hstep : ∀ {x y}, s.Leads tenant x y → x ∈ ids → y ∈ ids := by
    rintro x y ⟨⟨d, hd, -, rfl, rfl⟩, -⟩ hx
    exact hclosed d hd hx
  induction hled with
  | single hled => exact hstep hled hx
  | tail _ hled ih => exact hstep hled ih

/-- What a cascading move of a known task into a known window leaves. -/
theorem relocates_of_serve {setup : Setup} {ctx : Context} {m : Move} {change : ScheduleChange}
    (hindexed : s.Indexed) (hcascade : m.cascade = true) (hroot : s.tasks.find? m.task = some root)
    (hbetween : Window.between m.start m.finish = .ok window)
    (hserve : s.serve (Service.reschedule setup ctx m) = (.ok change, s')) :
    s.Relocates s' root window (m.finish.unixNanos - root.finish.unixNanos) ∧ s'.Indexed := by
  obtain ⟨root', window', hpermits, hrelocates, hindexed', -⟩ :=
    exists_relocates hindexed hcascade hserve
  obtain rfl : root' = root :=
    Option.some.inj ((task?_eq_some_iff.mp hpermits.found).1.symm.trans hroot)
  obtain rfl : window' = window := Except.ok.inj (hpermits.between.symm.trans hbetween)
  obtain ⟨-, -, hfinish⟩ := Window.between_eq_ok_iff.mp hbetween
  rw [(Timestamp.inUtc?_eq_some_iff.mp hfinish).1] at hrelocates
  exact ⟨hrelocates, hindexed'⟩

end Store

/-- Two tasks are moved with everything that waits for them, and neither takes the other along. When
nothing goes wrong and both moves succeed in either order, whoever asks for them and whenever, then
both orders leave all tasks with the same windows, and each task but these two has been taken along by
as much as the two moves together do. -/
theorem moves_commute {w : World} (hquiet : w.Quiet) (hindexed : w.store.Indexed) {m₁ m₂ : Move}
    {root₁ root₂ : Task} (hroot₁ : w.store.tasks.find? m₁.task = some root₁)
    (hroot₂ : w.store.tasks.find? m₂.task = some root₂) (hne : m₁.task ≠ m₂.task)
    (hapart₁ : ¬TransGen (w.store.Leads root₁.tenant) m₁.task m₂.task)
    (hapart₂ : ¬TransGen (w.store.Leads root₂.tenant) m₂.task m₁.task)
    (hcascade₁ : m₁.cascade = true) (hcascade₂ : m₂.cascade = true) {setup : Setup}
    {ctx₁ ctx₂ ctx₁' ctx₂' : Context} {change₁ change₂ change₁' change₂' : ScheduleChange}
    {w₁ w₁₂ w₂ w₂₁ : World}
    (h₁ : w.serve (Service.reschedule setup ctx₁ m₁) = (.ok change₁, w₁))
    (h₁₂ : w₁.serve (Service.reschedule setup ctx₂ m₂) = (.ok change₂, w₁₂))
    (h₂ : w.serve (Service.reschedule setup ctx₂' m₂) = (.ok change₂', w₂))
    (h₂₁ : w₂.serve (Service.reschedule setup ctx₁' m₁) = (.ok change₁', w₂₁)) :
    w₁₂.store.windows = w₂₁.store.windows ∧
      ∀ id, id ≠ m₁.task → id ≠ m₂.task → w₁₂.store.readings id 0 = w.store.readings id
        (w.store.delay root₁ (m₁.finish.unixNanos - root₁.finish.unixNanos) id +
          w.store.delay root₂ (m₂.finish.unixNanos - root₂.finish.unixNanos) id) := by
  obtain ⟨hserve₁, hquiet₁⟩ := hquiet.serve h₁
  obtain ⟨hserve₁₂, -⟩ := hquiet₁.serve h₁₂
  obtain ⟨hserve₂, hquiet₂⟩ := hquiet.serve h₂
  obtain ⟨hserve₂₁, -⟩ := hquiet₂.serve h₂₁
  obtain ⟨_, window₁, hpermits₁, -⟩ := Store.exists_permits hindexed (congrArg Prod.fst hserve₁)
  obtain ⟨_, window₂, hpermits₂, -⟩ := Store.exists_permits hindexed (congrArg Prod.fst hserve₂)
  have hid₁ : root₁.id = m₁.task := (Table.find?_eq_some_iff.mp hroot₁).2
  have hid₂ : root₂.id = m₂.task := (Table.find?_eq_some_iff.mp hroot₂).2
  obtain ⟨hrelocates₁, hindexed₁⟩ :=
    Store.relocates_of_serve hindexed hcascade₁ hroot₁ hpermits₁ hserve₁
  obtain ⟨hrelocates₂, hindexed₂⟩ :=
    Store.relocates_of_serve hindexed hcascade₂ hroot₂ hpermits₂ hserve₂
  rw [← hid₁, ← hid₂] at hne hapart₁ hapart₂
  -- either move finds the root of the other one where it was
  have hroot₂' : w₁.store.tasks.find? m₂.task = some root₂ := by
    rw [← hid₂, hrelocates₁.others _ hne.symm hapart₁, hid₂, hroot₂]
  have hroot₁' : w₂.store.tasks.find? m₁.task = some root₁ := by
    rw [← hid₁, hrelocates₂.others _ hne hapart₂, hid₁, hroot₁]
  obtain ⟨hrelocates₁₂, -⟩ :=
    Store.relocates_of_serve hindexed₁ hcascade₂ hroot₂' hpermits₂ hserve₁₂
  obtain ⟨hrelocates₂₁, -⟩ :=
    Store.relocates_of_serve hindexed₂ hcascade₁ hroot₁' hpermits₁ hserve₂₁
  refine ⟨hrelocates₁.windows_comm hrelocates₁₂ hrelocates₂ hrelocates₂₁ hne hapart₁ hapart₂, ?_⟩
  intro id hid₁' hid₂'
  exact hrelocates₁.readings_add hrelocates₁₂ (hid₁ ▸ hid₁') (hid₂ ▸ hid₂')

/-- A move that succeeds with a store alone does so in a quiet world with that store. -/
theorem World.Quiet.exists_serve {w : World} (hquiet : w.Quiet) {p : Service ScheduleChange}
    {ids : List TaskId} (h : (w.store.serve p).1.map ScheduleChange.affected = .ok ids) :
    ∃ change w', w.serve p = (.ok change, w') ∧ w'.Quiet ∧ w'.store = (w.store.serve p).2 := by
  obtain ⟨change, hresult, -⟩ := exists_of_affected h
  obtain ⟨hsame, hleft⟩ := hquiet.run p.run
  exact ⟨change, (w.serve p).2, Prod.ext (hsame.trans hresult) rfl, hquiet.left p.run, hleft⟩

/-- One of the tasks in the middle is put off to begin at an hour, along with the last task. -/
def samplePutOff (n h : Nat) : Move := { sampleMove with
  task := .ofNat n, start := Store.hour h 0, finish := Store.hour (h + 1) 0 }

/-- The second task is put off by an hour and the third one by two, in either order, and the last task,
which waits for both, by three. -/
theorem moves_commute_sample :
    let w : World := { store := .sampleDiamond }
    let second := Service.reschedule {} { sampleContext with fresh := 2 } (samplePutOff 2 2)
    let third := Service.reschedule {} { sampleContext with fresh := 3 } (samplePutOff 3 4)
    ∃ c₁ c₁₂ c₂ c₂₁ w₁ w₁₂ w₂ w₂₁, w.serve second = (.ok c₁, w₁) ∧ w₁.serve third = (.ok c₁₂, w₁₂) ∧
      w.serve third = (.ok c₂, w₂) ∧ w₂.serve second = (.ok c₂₁, w₂₁) ∧
      w₁₂.store.windows = w₂₁.store.windows ∧
      w₁₂.store.readings (.ofNat 4) 0 = w.store.readings (.ofNat 4) (3 * nanosPerHour) := by
  intro w second third
  -- stores are computed with more easily than worlds
  have hok₁ : (Store.sampleDiamond.serve
      (Service.reschedule {} { sampleContext with fresh := 2 } (samplePutOff 2 2))).1.map
      ScheduleChange.affected = .ok [.ofNat 4] := by cbv
  have hok₂ : (Store.sampleDiamond.serve
      (Service.reschedule {} { sampleContext with fresh := 3 } (samplePutOff 3 4))).1.map
      ScheduleChange.affected = .ok [.ofNat 4] := by cbv
  have hok₁₂ : ((Store.sampleDiamond.serve
      (Service.reschedule {} { sampleContext with fresh := 2 } (samplePutOff 2 2))).2.serve
      (Service.reschedule {} { sampleContext with fresh := 3 } (samplePutOff 3 4))).1.map
      ScheduleChange.affected = .ok [.ofNat 4] := by cbv
  have hok₂₁ : ((Store.sampleDiamond.serve
      (Service.reschedule {} { sampleContext with fresh := 3 } (samplePutOff 3 4))).2.serve
      (Service.reschedule {} { sampleContext with fresh := 2 } (samplePutOff 2 2))).1.map
      ScheduleChange.affected = .ok [.ofNat 4] := by cbv
  have hquiet : w.Quiet := ⟨rfl, rfl⟩
  obtain ⟨c₁, w₁, h₁, hquiet₁, hleft₁⟩ := hquiet.exists_serve hok₁
  obtain ⟨c₂, w₂, h₂, hquiet₂, hleft₂⟩ := hquiet.exists_serve hok₂
  obtain ⟨c₁₂, w₁₂, h₁₂, -⟩ := hquiet₁.exists_serve (p := third) (hleft₁ ▸ hok₁₂)
  obtain ⟨c₂₁, w₂₁, h₂₁, -⟩ := hquiet₂.exists_serve (p := second) (hleft₂ ▸ hok₂₁)
  -- nothing that waits for one of the two is the other one
  have hapart₁ : ¬TransGen (w.store.Leads (.ofNat 1)) (.ofNat 2) (.ofNat 3) := fun hled => by
    have hmem : (.ofNat 3 : TaskId) ∈ [(.ofNat 2 : TaskId), .ofNat 4] :=
      Store.mem_of_leads (by decide) hled (by decide)
    exact absurd hmem (by decide)
  have hapart₂ : ¬TransGen (w.store.Leads (.ofNat 1)) (.ofNat 3) (.ofNat 2) := fun hled => by
    have hmem : (.ofNat 2 : TaskId) ∈ [(.ofNat 3 : TaskId), .ofNat 4] :=
      Store.mem_of_leads (by decide) hled (by decide)
    exact absurd hmem (by decide)
  have hroot₁ : w.store.tasks.find? (samplePutOff 2 2).task = some (Store.sampleTask 2 1 0) := rfl
  have hroot₂ : w.store.tasks.find? (samplePutOff 3 4).task = some (Store.sampleTask 3 2 2) := rfl
  obtain ⟨hsame, hsum⟩ := moves_commute hquiet Store.indexed_sampleDiamond hroot₁ hroot₂ (by decide)
    hapart₁ hapart₂ rfl rfl h₁ h₁₂ h₂ h₂₁
  refine ⟨c₁, c₁₂, c₂, c₂₁, w₁, w₁₂, w₂, w₂₁, h₁, h₁₂, h₂, h₂₁, hsame, ?_⟩
  have hmovable : w.store.Movable (.ofNat 1) (.ofNat 4) := ⟨Store.sampleTask 4 3 0, rfl, rfl⟩
  have hled₁ : w.store.Leads (.ofNat 1) (.ofNat 2) (.ofNat 4) :=
    ⟨⟨Store.sampleDependency 3 4 2, by decide, rfl, rfl, rfl⟩, hmovable⟩
  have hled₂ : w.store.Leads (.ofNat 1) (.ofNat 3) (.ofNat 4) :=
    ⟨⟨Store.sampleDependency 4 4 3, by decide, rfl, rfl, rfl⟩, hmovable⟩
  rw [hsum _ (by decide) (by decide), Store.delay_of_leads (.single hled₁),
    Store.delay_of_leads (.single hled₂)]
  rfl

end Overhaul
