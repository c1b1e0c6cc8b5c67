import Overhaul.Proofs.Concurrency.Balanced
import Overhaul.Proofs.Concurrency.Guards
import Overhaul.Proofs.Session

/-!
# Calls side by side get on

Any number of calls are dealt with side by side, each of which takes one step at a time; they share the
store and the locks, and whatever may go wrong with a step. `Crowd.Step` says how a call gets on, and
`Crowd.Stalls` what else it may do while it waits for a lock. Main statement: the locks exclude, and
yet no state is reached in which there are calls to be dealt with and none of them can get on
(`exclusion_without_deadlock`).
-/

namespace Overhaul

/-- Calls that are dealt with side by side: what they share, and what is left to do for each. -/
structure Crowd (ι α : Type) where
  store : Store
  /-- The tasks whose parts were given back. -/
  released : List (TenantId × TaskId)
  sharing : Sharing ι
  programs : ι → Program α

namespace Crowd

variable {ι α : Type}

/-- Everything was done for the call. -/
def Finished (x : Crowd ι α) (i : ι) : Prop :=
  (∃ a, x.programs i = .done a) ∧ x.sharing.waits i = .none

/-- The call waits for the lock. -/
def WaitsFor (x : Crowd ι α) (i : ι) (a : TenantId) : Prop :=
  ∃ next, x.programs i = .step (.lock a) next

/-- The call stands as it should: it has the guard of the lock that its program holds and no other,
and wants a lock only if its program is about to take that. -/
structure Stands (x : Crowd ι α) (i : ι) : Prop where
  balanced : ∃ held, (x.programs i).Balanced held none ∧
    ∀ a, ⟨i, a⟩ ∈ x.sharing.live ↔ held = some a
  wants : ∀ a, (x.sharing.waits i).Wants a → x.WaitsFor i a

variable {x x' : Crowd ι α} {i j : ι} {a : TenantId} {start : ι → Program α}

/-- A call that is done holds no lock. -/
theorem Stands.not_mem_of_done (h : x.Stands i) {r : α} (hdone : x.programs i = .done r) :
    ⟨i, a⟩ ∉ x.sharing.live := by
  obtain ⟨⟨held, hheld, hguards⟩, -⟩ := h
  rw [hdone] at hheld
  obtain rfl : held = none := hheld
  simp [hguards a]

/-- A call that waits for a lock holds none. -/
theorem Stands.not_mem_of_waitsFor (h : x.Stands i) {b : TenantId} (hwaits : x.WaitsFor i b) :
    ⟨i, a⟩ ∉ x.sharing.live := by
  obtain ⟨⟨held, hheld, hguards⟩, -⟩ := h
  obtain ⟨next, hnext⟩ := hwaits
  rw [hnext] at hheld
  obtain ⟨rfl, -⟩ := hheld
  simp [hguards a]

/-- A call that does not wait for a lock is kept by none. -/
theorem Stands.waits_eq_none (h : x.Stands i) (hnot : ∀ a, ¬x.WaitsFor i a)
    (hrousing : x.sharing.waits i ≠ .rousing) : x.sharing.waits i = .none := by
  cases hw : x.sharing.waits i with
  | none => rfl
  | asleep a => exact absurd (h.wants a (.inl hw)) (hnot a)
  | woken a => exact absurd (h.wants a (.inr hw)) (hnot a)
  | rousing => exact absurd hw hrousing

/-- A call that waits for a lock wants no other one. -/
theorem Stands.eq_of_wants (h : x.Stands i) {b : TenantId} (hwaits : x.WaitsFor i a)
    (hb : (x.sharing.waits i).Wants b) : b = a := by
  obtain ⟨next, hnext⟩ := hwaits
  obtain ⟨next', hnext'⟩ := h.wants b hb
  rw [hnext] at hnext'
  cases hnext'
  rfl

variable [DecidableEq ι]

/-- The world in which the next step is taken. -/
def world (x : Crowd ι α) (cancelled : Bool) (faults : CallKind → List Fault) : World where
  store := x.store
  locks := x.sharing.locks
  released := x.released
  cancelled := cancelled
  faults := faults

/-- The call has done what was to be done next. -/
def advance (x : Crowd ι α) (i : ι) (p : Program α) : Crowd ι α :=
  { x with programs := Function.update x.programs i p }

/-- How a call gets on: it takes the next step of its program, or wakes others after it gave a lock
back. Its caller may have given up before the step or not, and whatever may go wrong with it. -/
inductive Step (i : ι) : Crowd ι α → Crowd ι α → Prop
  | work {x : Crowd ι α} {st : Overhaul.Step} {next : st.Reply → Program α} (cancelled : Bool)
      (faults : CallKind → List Fault) :
      x.programs i = .step st next → st.Lockless → x.sharing.waits i = .none →
      Step i x ({ x with
        store := ((x.world cancelled faults).take st).2.store
        released := ((x.world cancelled faults).take st).2.released }.advance i
          (next ((x.world cancelled faults).take st).1))
  | lock {x : Crowd ι α} {a : TenantId} {next : Unit → Program α} {y : Sharing ι} :
      x.programs i = .step (.lock a) next → Sharing.Step i (.take a) x.sharing y →
      Step i x ({ x with sharing := y }.advance i (next ()))
  | unlock {x : Crowd ι α} {a : TenantId} {next : Unit → Program α} {y : Sharing ι} :
      x.programs i = .step (.unlock a) next → Sharing.Step i (.drop ⟨i, a⟩) x.sharing y →
      Step i x ({ x with sharing := y }.advance i (next ()))
  | rouse {x : Crowd ι α} {y : Sharing ι} :
      Sharing.Step i .rouse x.sharing y → Step i x { x with sharing := y }

/-- What a call does that waits for a lock: it goes to sleep, or wakes for no reason. -/
inductive Stalls (i : ι) : Crowd ι α → Crowd ι α → Prop
  | sleep {x : Crowd ι α} {a : TenantId} {next : Unit → Program α} {y : Sharing ι} :
      x.programs i = .step (.lock a) next → Sharing.Step i (.sleep a) x.sharing y →
      Stalls i x { x with sharing := y }
  | wake {x : Crowd ι α} {a : TenantId} {next : Unit → Program α} {y : Sharing ι} :
      x.programs i = .step (.lock a) next → Sharing.Step i (.wake a) x.sharing y →
      Stalls i x { x with sharing := y }

/-- Programs that start side by side from some store, with no lock taken, can come that far. -/
inductive Reached (start : ι → Program α) : Crowd ι α → Prop
  | start (store : Store) (released : List (TenantId × TaskId)) :
      Reached start ⟨store, released, .start, start⟩
  | step {x x' : Crowd ι α} (i : ι) : Reached start x → Step i x x' → Reached start x'
  | stall {x x' : Crowd ι α} (i : ι) : Reached start x → Stalls i x x' → Reached start x'

/-! ### What every step keeps -/

/-- The locks are shared as they can be, and each call stands as it should. -/
structure Sound (x : Crowd ι α) : Prop where
  sharing : x.sharing.Reached
  stands : ∀ i, x.Stands i

/-- What a call does concerns no other. -/
theorem Sound.of_stands (h : x.Sound) (hsharing : x'.sharing.Reached) (hi : x'.Stands i)
    (hothers : ∀ j ≠ i, x'.programs j = x.programs j ∧ x.sharing.Spares j x'.sharing) :
    x'.Sound := by
  refine ⟨hsharing, fun j => ?_⟩
  by_cases hji : j = i
  · rwa [hji]
  obtain ⟨hprogram, hspares⟩ := hothers j hji
  obtain ⟨⟨held, hheld, hguards⟩, hwants⟩ := h.stands j
  refine ⟨⟨held, ?_, fun a => (hspares.guards a).trans (hguards a)⟩, fun a ha => ?_⟩
  · rwa [hprogram]
  · obtain ⟨next, hnext⟩ := hwants a (hspares.wants a ha)
    exact ⟨next, hprogram.trans hnext⟩

/-- A call gets on without having to do with locks. -/
theorem Sound.work (h : x.Sound) {st : Overhaul.Step} {next : st.Reply → Program α}
    (hst : st.Lockless) (hprogram : x.programs i = .step st next)
    (hwaits : x.sharing.waits i = .none) (r : st.Reply) (store : Store)
    (released : List (TenantId × TaskId)) :
    ({ x with store, released }.advance i (next r)).Sound := by
  obtain ⟨⟨held, hheld, hguards⟩, -⟩ := h.stands i
  rw [hprogram, Program.balanced_step hst] at hheld
  refine h.of_stands (i := i) h.sharing ⟨⟨held, ?_, hguards⟩, fun a ha => ?_⟩ fun j hji => ?_
  · simpa [advance] using hheld r
  · change (x.sharing.waits i).Wants a at ha
    rw [hwaits] at ha
    exact absurd ha (Wait.not_wants_none a)
  · exact ⟨Function.update_of_ne hji _ _, .refl j _⟩

/-- A call gets on by doing something with a lock. -/
theorem Sound.share (h : x.Sound) {act : LockAct ι} {y : Sharing ι} {p : Program α}
    {held : Option TenantId} (hstep : Sharing.Step i act x.sharing y)
    (hdrop : ∀ g, act = .drop g → g.holder = i) (hheld : p.Balanced held none)
    (hguards : ∀ a, ⟨i, a⟩ ∈ y.live ↔ held = some a)
    (hwants : ∀ a, (y.waits i).Wants a → ∃ next, p = .step (.lock a) next) :
    ({ x with sharing := y }.advance i p).Sound := by
  refine h.of_stands (i := i) (h.sharing.next i hstep) ⟨⟨held, ?_, hguards⟩, fun a ha => ?_⟩ ?_
  · simpa [advance] using hheld
  · obtain ⟨next, hnext⟩ := hwants a ha
    exact ⟨next, (Function.update_self ..).trans hnext⟩
  · exact fun j hji => ⟨Function.update_of_ne hji _ _, hstep.spares hdrop hji⟩

theorem advance_self (x : Crowd ι α) (i : ι) : x.advance i (x.programs i) = x := by
  rw [advance, Function.update_eq_self]

/-- What every call does to get on leaves all of them as they should stand. -/
theorem Sound.step (h : x.Sound) (hstep : Step i x x') : x'.Sound := by
  cases hstep with
  | work cancelled faults hprogram hst hwaits => exact h.work hst hprogram hwaits _ _ _
  | @lock a next y hprogram htake =>
      obtain ⟨⟨held, hheld, hguards⟩, -⟩ := h.stands i
      rw [hprogram] at hheld
      obtain ⟨rfl, hheld⟩ := hheld
      refine h.share htake (by simp) hheld (fun b => ?_) fun b hb => ?_
      · cases htake with
        | take _ hy =>
            have hnone : ¬(⟨i, b⟩ ∈ x.sharing.live) := by simp [hguards b]
            simp [(Sharing.taken?_eq_some hy).2.2.1, hnone, eq_comm]
      · cases htake with
        | take => simp [Wait.Wants] at hb
  | @unlock a next y hprogram hdrop =>
      obtain ⟨⟨held, hheld, hguards⟩, -⟩ := h.stands i
      rw [hprogram] at hheld
      obtain ⟨rfl, hheld⟩ := hheld
      refine h.share hdrop (by simp) hheld (fun b => ?_) fun b hb => ?_
      · cases hdrop with
        | drop =>
            have hnodup := h.sharing.sound.nodup.of_map
            simp only [hnodup.mem_erase_iff, hguards b]
            grind
      · cases hdrop with
        | drop => simp [Wait.Wants] at hb
  | @rouse y hrouse =>
      obtain ⟨⟨held, hheld, hguards⟩, -⟩ := h.stands i
      refine advance_self { x with sharing := y } i ▸ h.share hrouse (by simp) hheld (fun b => ?_) ?_
      · cases hrouse with
        | rouse => exact hguards b
      · cases hrouse with
        | rouse => simp [Wait.Wants]

/-- A call that waits still stands as it should, and so do all others. -/
theorem Sound.stall (h : x.Sound) (hstalls : Stalls i x x') : x'.Sound := by
  obtain ⟨⟨held, hheld, hguards⟩, -⟩ := h.stands i
  cases hstalls with
  | @sleep a next y hprogram hsleep =>
      refine advance_self { x with sharing := y } i ▸ h.share hsleep (by simp) hheld (fun b => ?_) ?_
      · cases hsleep with
        | sleep => exact hguards b
      · intro b hb
        cases hsleep with
        | sleep =>
            obtain rfl : a = b := by simpa [Wait.Wants] using hb
            exact ⟨next, hprogram⟩
  | @wake a next y hprogram hwake =>
      refine advance_self { x with sharing := y } i ▸ h.share hwake (by simp) hheld (fun b => ?_) ?_
      · cases hwake with
        | wake => exact hguards b
      · intro b hb
        cases hwake with
        | wake =>
            obtain rfl : a = b := by simpa [Wait.Wants] using hb
            exact ⟨next, hprogram⟩

/-- Wherever balanced programs can come, they stand as they should. -/
theorem Reached.sound (hstart : ∀ i, (start i).Balanced none none) (h : x.Reached start) :
    x.Sound := by
  induction h with
  | start store released =>
      refine ⟨.start, fun i => ⟨⟨none, hstart i, fun a => by simp [Sharing.start]⟩, fun a ha => ?_⟩⟩
      exact absurd ha (Wait.not_wants_none a)
  | step i _ hstep ih => exact ih.step hstep
  | stall i _ hstalls ih => exact ih.stall hstalls

/-! ### Getting on -/

/-- A call that waits for a lock that is free may look whether it is, unless somebody has still to be
woken. -/
theorem Sound.looks (h : x.Sound) (hwaits : x.WaitsFor i a) (ha : a ∉ x.sharing.locks.held)
    (hrousing : ∀ j, x.sharing.waits j ≠ .rousing) : (x.sharing.waits i).Looks a := by
  cases hw : x.sharing.waits i with
  | none => exact .inl rfl
  | asleep b =>
      obtain rfl := (h.stands i).eq_of_wants hwaits (.inl hw)
      rcases h.sharing.sound.asleep i b hw with hb | ⟨j, hj⟩
      · exact absurd hb ha
      · exact absurd hj (hrousing j)
  | woken b =>
      obtain rfl := (h.stands i).eq_of_wants hwaits (.inr hw)
      exact .inr rfl
  | rousing => exact absurd hw (hrousing i)

/-- Where nobody has still to be woken, a call for which there is more to be done gets on, unless it
waits for a lock that is taken. -/
theorem Sound.step_or_waits (h : x.Sound) (hdone : ∀ r, x.programs i ≠ .done r)
    (hrousing : ∀ j, x.sharing.waits j ≠ .rousing) :
    (∃ x', Step i x x') ∨ ∃ a, x.WaitsFor i a ∧ a ∈ x.sharing.locks.held := by
  by_cases hwaits : ∃ a, x.WaitsFor i a
  · obtain ⟨a, ha⟩ := hwaits
    by_cases hheld : a ∈ x.sharing.locks.held
    · exact .inr ⟨a, ha, hheld⟩
    obtain ⟨next, hnext⟩ := ha
    obtain ⟨y, hy⟩ := Sharing.exists_take (h.looks ⟨next, hnext⟩ hheld hrousing) hheld
    exact .inl ⟨_, .lock hnext hy⟩
  have hfree : x.sharing.waits i = .none :=
    (h.stands i).waits_eq_none (fun a ha => hwaits ⟨a, ha⟩) (hrousing i)
  obtain ⟨⟨held, hheld, hguards⟩, -⟩ := h.stands i
  cases hprogram : x.programs i with
  | done r => exact absurd hprogram (hdone r)
  | step st next =>
      cases st with
      | lock a => exact absurd ⟨a, next, hprogram⟩ hwaits
      | unlock a =>
          rw [hprogram] at hheld
          obtain ⟨rfl, -⟩ := hheld
          exact .inl ⟨_, .unlock hprogram (.drop hfree ((hguards a).mpr rfl))⟩
      | call c => exact .inl ⟨_, .work false (fun _ => []) hprogram trivial hfree⟩
      | isCancelled => exact .inl ⟨_, .work false (fun _ => []) hprogram trivial hfree⟩

/-- As long as there is something to be done for a call, some call gets on. -/
theorem Sound.exists_step (h : x.Sound) (hi : ¬x.Finished i) : ∃ j x', Step j x x' := by
  by_cases hrousing : ∃ j, x.sharing.waits j = .rousing
  · obtain ⟨j, hj⟩ := hrousing
    exact ⟨j, _, .rouse (.rouse hj)⟩
  have hrousing' : ∀ j, x.sharing.waits j ≠ .rousing := fun j hj => hrousing ⟨j, hj⟩
  have hdone : ∀ r, x.programs i ≠ .done r := by
    intro r hr
    refine hi ⟨⟨r, hr⟩, (h.stands i).waits_eq_none ?_ (hrousing' i)⟩
    rintro a ⟨next, hnext⟩
    rw [hr] at hnext
    cases hnext
  rcases h.step_or_waits hdone hrousing' with ⟨x', hx'⟩ | ⟨a, -, ha⟩
  · exact ⟨i, x', hx'⟩
  -- whoever holds the lock is neither done nor waits for another one
  obtain ⟨⟨j, b⟩, hg, rfl⟩ := List.mem_map.mp ((h.sharing.sound.held a).mp ha)
  have hbusy : ∀ r, x.programs j ≠ .done r := fun r hr => (h.stands j).not_mem_of_done hr hg
  rcases h.step_or_waits hbusy hrousing' with ⟨x', hx'⟩ | ⟨b', hwaits, -⟩
  · exact ⟨j, x', hx'⟩
  · exact absurd hg ((h.stands j).not_mem_of_waitsFor hwaits)

end Crowd

/-- However threads alternate that take locks, try to and give them up, the locks that are taken are
just those of which somebody has a guard, and nobody waits for the sake of another lock than the one it
wants. And however the steps of requests alternate, whatever goes wrong with any of them and whoever
gives up when, a request holds no lock once it was dealt with, and none while it waits for one; so
there is always one of them that gets on, until all were dealt with. -/
theorem exclusion_without_deadlock {ι : Type} [DecidableEq ι] :
    (∀ x : Sharing ι, x.Reached → x.Exclusive) ∧
      ∀ (calls : ι → Request) (x : Crowd ι (Except Failure Answer)),
        x.Reached (fun i => (calls i).service.run) →
          x.sharing.Reached ∧
            (∀ i r, x.programs i = .done r → ∀ a, ⟨i, a⟩ ∉ x.sharing.live) ∧
            (∀ i a, x.WaitsFor i a → ∀ b, ⟨i, b⟩ ∉ x.sharing.live) ∧
            ((∃ i, ¬x.Finished i) → ∃ j x', Crowd.Step j x x') := by
  refine ⟨fun x hx => hx.exclusive, fun calls x hx => ?_⟩
  have hbalanced : ∀ i, (calls i).service.run.Balanced none none := fun i =>
    Operation.balanced_service (calls i).setup (calls i).ctx (calls i).operation
  have hsound := hx.sound hbalanced
  refine ⟨hsound.sharing, ?_, ?_, ?_⟩
  · intro i r hr a
    exact (hsound.stands i).not_mem_of_done hr
  · intro i a ha b
    exact (hsound.stands i).not_mem_of_waitsFor ha
  · rintro ⟨i, hi⟩
    exact hsound.exists_step hi

/-- Two callers remove the same dependency. The first one has taken the lock, for which the other one
sleeps, and one of them gets on. -/
theorem exclusion_without_deadlock_sample :
    let calls : Fin 2 → Request := fun i => {
      setup := {}
      ctx := ⟨⟨.ofNat 1, .ofNat 1, .scheduler⟩, Store.hour 0 0, BitVec.ofNat 128 (8 + i.val)⟩
      operation := .undepend (.ofNat 1) }
    ∃ x : Crowd (Fin 2) (Except Failure Answer), x.Reached (fun i => (calls i).service.run) ∧
      x.sharing.live = [⟨0, .ofNat 1⟩] ∧ x.sharing.waits 1 = .asleep (.ofNat 1) ∧
      x.sharing.Exclusive ∧ ∃ j x', Crowd.Step j x x' := by
  intro calls
  have hreached : ∃ x : Crowd (Fin 2) (Except Failure Answer),
      x.Reached (fun i => (calls i).service.run) ∧
        x.sharing.live = [⟨0, .ofNat 1⟩] ∧ x.sharing.waits 1 = .asleep (.ofNat 1) := by
    refine ⟨_, .stall 1 (.step 1 (.step 0 (.step 0 (.start .sample [])
      (.work false (fun _ => []) rfl trivial rfl)) (.lock rfl (.take (.inl rfl) rfl)))
      (.work false (fun _ => []) rfl trivial rfl)) (.sleep rfl (.sleep (.inl rfl) rfl)), rfl, rfl⟩
  obtain ⟨x, hx, hlive, hasleep⟩ := hreached
  obtain ⟨hexclusive, hcalls⟩ := @exclusion_without_deadlock (Fin 2) _
  obtain ⟨hsharing, -, -, hstep⟩ := hcalls calls x hx
  refine ⟨x, hx, hlive, hasleep, hexclusive _ hsharing, hstep ⟨1, fun hfinished => ?_⟩⟩
  have hnone := hfinished.2
  rw [hasleep] at hnone
  cases hnone

end Overhaul
