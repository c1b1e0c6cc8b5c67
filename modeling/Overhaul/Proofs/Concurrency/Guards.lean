import Mathlib.Data.List.Nodup
import Mathlib.Logic.Function.Basic
import Overhaul.LockTable

/-!
# Locks that threads share

A thread that wants a lock looks whether it is free, and otherwise sleeps until some lock was given
back, and looks again. It may also try, and go on without the lock. Whoever has a lock has a guard of
it. Who gives a guard up gives the lock back, and then wakes all who sleep. `Sharing.Step` says what a
thread can do at a time, and `Sharing.Reached` how far threads can come. Main statement: wherever they
can come, the locks exclude, and block nobody else (`Sharing.Reached.exclusive`).
-/

namespace Overhaul

/-- A lock that is taken, and the thread that took it. -/
structure Guard (ι : Type) where
  holder : ι
  tenant : TenantId
  deriving DecidableEq

/-- What keeps a thread from going on. -/
inductive Wait
  | none
  /-- It has asked for a lock, and sleeps until it is woken. -/
  | asleep (tenant : TenantId)
  /-- It has asked for a lock and was woken, and has still to look whether the lock is free. -/
  | woken (tenant : TenantId)
  /-- It has given a lock back, and has still to wake all who sleep. -/
  | rousing
  deriving DecidableEq

namespace Wait

/-- After all who sleep were woken. -/
def roused : Wait → Wait
  | asleep tenant => woken tenant
  | w => w

/-- A thread that is kept so may look whether the lock is free: it asks for it only now, or did so
before and was woken. -/
def Looks (tenant : TenantId) (w : Wait) : Prop := w = none ∨ w = woken tenant

/-- A thread that is kept so has asked for the lock. -/
def Wants (tenant : TenantId) (w : Wait) : Prop := w = asleep tenant ∨ w = woken tenant

theorem Looks.ne_rousing {tenant : TenantId} {w : Wait} (h : w.Looks tenant) : w ≠ rousing := by
  rcases h with rfl | rfl <;> simp

theorem Wants.of_roused {tenant : TenantId} {w : Wait} (h : w.roused.Wants tenant) :
    w.Wants tenant := by
  cases w <;> simp_all [Wants, roused]

theorem not_wants_none (tenant : TenantId) : ¬none.Wants tenant := by simp [Wants]

theorem roused_ne_asleep (w : Wait) (tenant : TenantId) : w.roused ≠ asleep tenant := by
  cases w <;> simp [roused]

end Wait

/-- A table of locks as threads share it. -/
structure Sharing (ι : Type) where
  locks : LockTable
  /-- The guards that were not given up yet. -/
  live : List (Guard ι)
  waits : ι → Wait

/-- What a thread can do with the locks at a time. -/
inductive LockAct (ι : Type)
  /-- It takes the lock that it asked for. -/
  | take (tenant : TenantId)
  /-- It goes to sleep, as the lock that it asked for is not free. -/
  | sleep (tenant : TenantId)
  /-- It wakes for no reason. -/
  | wake (tenant : TenantId)
  /-- It tries to take a lock, and gets it or not. -/
  | attempt (tenant : TenantId) (got : Bool)
  /-- It gives a guard up, and the lock back. -/
  | drop (g : Guard ι)
  /-- It wakes all who sleep. -/
  | rouse

/-- The tenant whose lock it is about, if it is about one. -/
def LockAct.tenant? {ι : Type} : LockAct ι → Option TenantId
  | .take tenant | .sleep tenant | .wake tenant | .attempt tenant _ => some tenant
  | .drop g => some g.tenant
  | .rouse => none

namespace Sharing

variable {ι : Type}

/-- No lock is taken, and nobody waits. -/
def start : Sharing ι := ⟨.empty, [], fun _ => .none⟩

/-- After a thread took a lock, if it was free. -/
def taken? (x : Sharing ι) (i : ι) (tenant : TenantId) : Option (Sharing ι) :=
  (x.locks.acquire? tenant).map fun locks => { x with locks, live := ⟨i, tenant⟩ :: x.live }

/-- The table tells which guards there are, and whoever sleeps while its lock is free will be woken. -/
structure Sound (x : Sharing ι) : Prop where
  held : ∀ a, a ∈ x.locks.held ↔ a ∈ x.live.map Guard.tenant
  nodup : (x.live.map Guard.tenant).Nodup
  asleep : ∀ i a, x.waits i = .asleep a → a ∈ x.locks.held ∨ ∃ j, x.waits j = .rousing

/-- The thread has the same guards as before, and wants a lock only if it did so before. -/
structure Spares (i : ι) (x y : Sharing ι) : Prop where
  guards : ∀ a, ⟨i, a⟩ ∈ y.live ↔ ⟨i, a⟩ ∈ x.live
  wants : ∀ a, (y.waits i).Wants a → (x.waits i).Wants a

variable {x x' y : Sharing ι} {i j : ι} {a : TenantId} {act : LockAct ι}

theorem Spares.refl (i : ι) (x : Sharing ι) : x.Spares i x := ⟨fun _ => Iff.rfl, fun _ => id⟩

theorem taken?_eq_none_iff : x.taken? i a = none ↔ a ∈ x.locks.held := by
  rw [taken?, Option.map_eq_none_iff, LockTable.acquire?_eq_none_iff]

/-- Taking a lock adds its guard. -/
theorem taken?_eq_some (h : x.taken? i a = some y) :
    a ∉ x.locks.held ∧ (∀ b, b ∈ y.locks.held ↔ b = a ∨ b ∈ x.locks.held) ∧
      y.live = ⟨i, a⟩ :: x.live ∧ y.waits = x.waits := by
  have hfree : a ∉ x.locks.held := by
    rw [← taken?_eq_none_iff (i := i), h]
    exact Option.some_ne_none y
  obtain ⟨locks, hlocks, rfl⟩ := Option.map_eq_some_iff.mp h
  exact ⟨hfree, fun b => LockTable.mem_held_of_acquire? hlocks, rfl, rfl⟩

theorem sound_start : (start : Sharing ι).Sound := by
  constructor <;> simp [start, LockTable.empty]

theorem Sound.taken (h : x.Sound) (hy : x.taken? i a = some y) : y.Sound := by
  obtain ⟨hfree, hheld, hlive, hwaits⟩ := taken?_eq_some hy
  constructor
  · intro b
    rw [hheld, hlive, List.map_cons, List.mem_cons, h.held]
  · rw [hlive, List.map_cons, List.nodup_cons]
    exact ⟨fun hmem => hfree ((h.held a).mpr hmem), h.nodup⟩
  · intro j b hj
    rw [hwaits] at hj ⊢
    exact (h.asleep j b hj).imp_left fun hb => (hheld b).mpr (.inr hb)

variable [DecidableEq ι]

/-- What a thread can do, and what comes of it. A guard may be given up by another thread than the one
that took the lock. -/
inductive Step (i : ι) : LockAct ι → Sharing ι → Sharing ι → Prop
  | take {x y : Sharing ι} {tenant : TenantId} :
      (x.waits i).Looks tenant → x.taken? i tenant = some y →
      Step i (.take tenant) x { y with waits := Function.update y.waits i .none }
  | sleep {x : Sharing ι} {tenant : TenantId} :
      (x.waits i).Looks tenant → x.taken? i tenant = none →
      Step i (.sleep tenant) x { x with waits := Function.update x.waits i (.asleep tenant) }
  | wake {x : Sharing ι} {tenant : TenantId} :
      x.waits i = .asleep tenant →
      Step i (.wake tenant) x { x with waits := Function.update x.waits i (.woken tenant) }
  | attempt {x : Sharing ι} (tenant : TenantId) :
      x.waits i = .none →
      Step i (.attempt tenant (x.taken? i tenant).isSome) x ((x.taken? i tenant).getD x)
  | drop {x : Sharing ι} {g : Guard ι} :
      x.waits i = .none → g ∈ x.live →
      Step i (.drop g) x {
        locks := x.locks.release g.tenant
        live := x.live.erase g
        waits := Function.update x.waits i .rousing }
  | rouse {x : Sharing ι} :
      x.waits i = .rousing →
      Step i .rouse x { x with waits := Function.update (fun j => (x.waits j).roused) i .none }

/-- Threads can come that far, each doing one thing at a time, in whatever order. -/
inductive Reached : Sharing ι → Prop
  | start : Reached start
  | next {x x' : Sharing ι} {act : LockAct ι} (i : ι) :
      Reached x → Step i act x x' → Reached x'

/-- A thread that was not about to wake others may be kept by something else, but sleep only while
its lock is taken. -/
theorem Sound.wait (h : x.Sound) (hi : x.waits i ≠ .rousing) {w : Wait}
    (hw : ∀ b, w = .asleep b → b ∈ x.locks.held) :
    Sound { x with waits := Function.update x.waits i w } := by
  refine ⟨h.held, h.nodup, fun j b hj => ?_⟩
  change Function.update x.waits i w j = .asleep b at hj
  rw [Function.update_apply] at hj
  split at hj
  · exact .inl (hw b hj)
  · refine (h.asleep j b hj).imp_right ?_
    rintro ⟨k, hk⟩
    have hki : k ≠ i := fun hki => hi (hki ▸ hk)
    exact ⟨k, (Function.update_of_ne hki _ _).trans hk⟩

/-- No other guard of its tenant is left when a guard is given up. -/
theorem Sound.mem_map_erase (h : x.Sound) {g : Guard ι} (hg : g ∈ x.live) :
    a ∈ (x.live.erase g).map Guard.tenant ↔ a ∈ x.live.map Guard.tenant ∧ a ≠ g.tenant := by
  have hperm := (List.perm_cons_erase hg).map Guard.tenant
  have hnodup := hperm.nodup_iff.mp h.nodup
  rw [hperm.mem_iff, List.map_cons, List.mem_cons]
  rw [List.map_cons, List.nodup_cons] at hnodup
  constructor
  · intro hmem
    refine ⟨.inr hmem, ?_⟩
    rintro rfl
    exact hnodup.1 hmem
  · rintro ⟨rfl | hmem, hne⟩
    · exact absurd rfl hne
    · exact hmem

/-- Whatever a thread does keeps the table sound. -/
theorem Sound.step (h : x.Sound) (hstep : Step i act x x') : x'.Sound := by
  cases hstep with
  | take hlooks hy =>
      refine (h.taken hy).wait ?_ (by simp)
      rw [(taken?_eq_some hy).2.2.2]
      exact hlooks.ne_rousing
  | sleep hlooks hnone =>
      refine h.wait hlooks.ne_rousing fun b hb => ?_
      cases hb
      exact taken?_eq_none_iff.mp hnone
  | wake hasleep => exact h.wait (by simp [hasleep]) (by simp)
  | attempt a _ =>
      cases hy : x.taken? i a with
      | none => exact h
      | some y => exact h.taken hy
  | drop _ hg =>
      refine ⟨fun a => ?_, ?_, fun _ _ _ => .inr ⟨i, Function.update_self ..⟩⟩
      · rw [h.mem_map_erase hg, LockTable.mem_held_release, h.held]
      · exact h.nodup.sublist (List.erase_sublist.map Guard.tenant)
  | rouse _ =>
      refine ⟨h.held, h.nodup, fun j b hj => ?_⟩
      change Function.update (fun k => (x.waits k).roused) i Wait.none j = .asleep b at hj
      rw [Function.update_apply] at hj
      split at hj
      · cases hj
      · exact absurd hj (Wait.roused_ne_asleep _ b)

/-- Wherever threads can come, the table is sound. -/
theorem Reached.sound (h : x.Reached) : x.Sound := by
  induction h with
  | start => exact sound_start
  | next i _ hstep ih => exact ih.step hstep

/-- Nothing that a thread does about the lock of one tenant concerns that of another. -/
theorem Step.held_iff (h : Step i act x x') (ha : act.tenant? ≠ some a) :
    a ∈ x'.locks.held ↔ a ∈ x.locks.held := by
  cases h with
  | @take _ _ b _ hy =>
      have hne : a ≠ b := fun hab => ha (congrArg some hab.symm)
      simp [(taken?_eq_some hy).2.1, hne]
  | attempt b _ =>
      have hne : a ≠ b := fun hab => ha (congrArg some hab.symm)
      cases hy : x.taken? i b with
      | none => rfl
      | some y => simp [(taken?_eq_some hy).2.1, hne]
  | @drop _ g _ _ =>
      have hne : a ≠ g.tenant := fun hab => ha (congrArg some hab.symm)
      simp [hne]
  | _ => rfl

/-- What a thread does, as long as it gives up its own guards only, spares the others. -/
theorem Step.spares (h : Step i act x x') (hdrop : ∀ g, act = .drop g → g.holder = i) (hji : j ≠ i) :
    x.Spares j x' := by
  cases h with
  | @take _ y b _ hy =>
      obtain ⟨-, -, hlive, hwaits⟩ := taken?_eq_some hy
      refine ⟨fun a => ?_, fun a ha => ?_⟩
      · simp [hlive, hji]
      · simpa [Function.update_of_ne hji, hwaits] using ha
  | sleep => exact ⟨fun _ => Iff.rfl, fun a ha => by simpa [Function.update_of_ne hji] using ha⟩
  | wake => exact ⟨fun _ => Iff.rfl, fun a ha => by simpa [Function.update_of_ne hji] using ha⟩
  | attempt b =>
      cases hy : x.taken? i b with
      | none => exact .refl j x
      | some y =>
          obtain ⟨-, -, hlive, hwaits⟩ := taken?_eq_some hy
          exact ⟨fun a => by simp [hlive, hji], fun a ha => by simpa [hwaits] using ha⟩
  | @drop _ g _ _ =>
      refine ⟨fun a => List.mem_erase_of_ne ?_, fun a ha => ?_⟩
      · rintro rfl
        exact hji (hdrop _ rfl)
      · simpa [Function.update_of_ne hji] using ha
  | rouse =>
      refine ⟨fun _ => Iff.rfl, fun a ha => .of_roused ?_⟩
      simpa [Function.update_of_ne hji] using ha

/-- A lock that is free can be taken by whoever may look whether it is. -/
theorem exists_take (hlooks : (x.waits i).Looks a) (hfree : a ∉ x.locks.held) :
    ∃ x', Step i (.take a) x x' := by
  obtain ⟨y, hy⟩ := Option.ne_none_iff_exists'.mp fun hnone => hfree (taken?_eq_none_iff.mp hnone)
  exact ⟨_, .take hlooks hy⟩

/-- What can be relied on when threads share locks. -/
structure Exclusive (x : Sharing ι) : Prop where
  /-- The locks that are taken are those of which there are guards. -/
  held : ∀ a, a ∈ x.locks.held ↔ ∃ g ∈ x.live, g.tenant = a
  /-- There are no two guards of one lock. -/
  nodup : (x.live.map Guard.tenant).Nodup
  /-- Who tries to take a lock need not wait, -/
  attempt : ∀ i a, x.waits i = .none → ∃ got x', Step i (.attempt a got) x x'
  /-- and does not get it just when it is taken. -/
  missed : ∀ i a got x', Step i (.attempt a got) x x' → (got = false ↔ a ∈ x.locks.held)
  /-- Who asks for a lock that is free can take it, whatever locks are taken besides, -/
  take : ∀ i a, (x.waits i).Looks a → a ∉ x.locks.held → ∃ x', Step i (.take a) x x'
  /-- and does not sleep, unless somebody is about to wake all who do. -/
  asleep : ∀ i a, x.waits i = .asleep a → a ∈ x.locks.held ∨ ∃ j, x.waits j = .rousing
  /-- What is done about one lock leaves the others as they are. -/
  apart : ∀ i act x', Step i act x x' → ∀ a, act.tenant? ≠ some a →
    (a ∈ x'.locks.held ↔ a ∈ x.locks.held)

/-- Wherever threads can come, the locks can be relied on. -/
theorem Reached.exclusive (h : x.Reached) : x.Exclusive := by
  have hsound := h.sound
  refine ⟨fun a => ?_, hsound.nodup, fun i a hi => ⟨_, _, .attempt a hi⟩, ?_,
    fun i a => exists_take, hsound.asleep, fun i act x' hstep a => hstep.held_iff⟩
  · rw [hsound.held, List.mem_map]
  · intro i a got x' hstep
    cases hstep with
    | attempt => rw [Option.isSome_eq_false_iff, Option.isNone_iff_eq_none, taken?_eq_none_iff]

end Sharing

end Overhaul
