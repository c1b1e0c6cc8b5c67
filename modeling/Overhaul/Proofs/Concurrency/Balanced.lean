import Overhaul.Proofs.Transitions

/-!
# How programs hold locks

A program is balanced when it takes a lock only while it holds none, gives back only the lock that it
holds, and holds none when it is done, whatever it is told on the way: that calls fail or answer that
there is nothing, or that the caller has given up. Main statement: whatever the service does for an
operation is balanced (`Operation.balanced_service`).
-/

namespace Overhaul

/-- The step has nothing to do with locks. -/
def Step.Lockless : Step → Prop
  | .lock _ | .unlock _ => False
  | .call _ | .isCancelled => True

theorem Step.Reads.lockless {st : Step} (h : st.Reads) : st.Lockless := by
  cases st <;> first | exact h | trivial

/-- Whatever it is told, the program goes from holding the first lock, if any, to holding the second,
and holds no more than one at a time. -/
def Program.Balanced {α : Type} : Program α → Option TenantId → Option TenantId → Prop
  | .done _, held, left => held = left
  | .step (.lock a) next, held, left => held = none ∧ (next ()).Balanced (some a) left
  | .step (.unlock a) next, held, left => held = some a ∧ (next ()).Balanced none left
  | .step (.call _) next, held, left | .step .isCancelled next, held, left =>
    ∀ r, (next r).Balanced held left

/-- The service leaves the lock that it finds held, if any. -/
def Service.Balanced {α : Type} (held : Option TenantId) (p : Service α) : Prop :=
  Program.Balanced p.run held held

namespace Program

variable {α β : Type} {held mid left : Option TenantId}

theorem balanced_step {st : Step} {next : st.Reply → Program α} (hst : st.Lockless) :
    (step st next).Balanced held left ↔ ∀ r, (next r).Balanced held left := by
  cases st <;> first | exact hst.elim | rfl

theorem Balanced.bind {p : Program α} {f : α → Program β} (hp : p.Balanced held mid)
    (hf : ∀ a, (f a).Balanced mid left) : (p >>= f).Balanced held left := by
  induction p generalizing held with
  | done a =>
      cases hp
      exact hf a
  | step st next ih =>
      cases st with
      | lock a => exact ⟨hp.1, ih () hp.2⟩
      | unlock a => exact ⟨hp.1, ih () hp.2⟩
      | call c => exact fun r => ih r (hp r)
      | isCancelled => exact fun r => ih r (hp r)

theorem balanced_of_only {p : Program α} (hp : p.Only Step.Lockless) : p.Balanced held held := by
  induction p with
  | done a => rfl
  | step st next ih => exact (balanced_step hp.1).mpr fun r => ih r (hp.2 r)

end Program

namespace Service

variable {α β : Type} {held : Option TenantId}

theorem balanced_throw (f : Failure) : Balanced held (throw f : Service α) := rfl

theorem balanced_pure (a : α) : Balanced held (pure a : Service α) := rfl

theorem balanced_bind {p : Service α} {f : α → Service β} (hp : Balanced held p)
    (hf : ∀ a, Balanced held (f a)) : Balanced held (p >>= f) := by
  refine Program.Balanced.bind hp fun r => ?_
  cases r with
  | ok a => exact hf a
  | error e => rfl

theorem balanced_map {p : Service α} (f : α → β) (hp : Balanced held p) :
    Balanced held (f <$> p) := by
  rw [← bind_pure_comp]
  exact balanced_bind hp fun _ => balanced_pure _

theorem balanced_guard {c : Prop} [Decidable c] {f : Failure} {k : Unit → Service α}
    (h : Balanced held (k ())) : Balanced held (if c then throw f >>= k else k ()) := by
  split
  · exact balanced_throw f
  · exact h

/-- What has nothing to do with locks is balanced. -/
theorem balanced_of_only {p : Service α} (hp : Only Step.Lockless p) : Balanced held p :=
  Program.balanced_of_only hp

theorem balanced_of_reads {p : Service α} (hp : Only Step.Reads p) : Balanced held p :=
  balanced_of_only (Program.Only.imp (fun _ => Step.Reads.lockless) hp)

/-- However a service ends that holds a lock, the lock is given back afterwards. -/
theorem balanced_locked {a : TenantId} {p : Service α} (hp : Balanced (some a) p) :
    Balanced none (locked a p) := by
  refine ⟨rfl, ?_⟩
  change Program.Balanced ((Except.ok <$> p.run) >>= _) (some a) none
  rw [bind_map_left]
  exact Program.Balanced.bind hp fun r => ⟨rfl, rfl⟩

/-! ### Operations -/

theorem balanced_depend (ctx : Context) (task prerequisite : TaskId)
    (kind : Option DependencyKind) : Balanced none (depend ctx task prerequisite kind) := by
  unfold depend
  refine balanced_guard ?_
  refine balanced_bind (balanced_of_reads (only_visibleTask trivial)) fun waiting => ?_
  refine balanced_bind (balanced_of_reads (only_visibleTask trivial)) fun awaited => ?_
  refine balanced_guard (balanced_locked ?_)
  refine balanced_bind (balanced_of_reads (only_ask trivial)) fun present => balanced_guard ?_
  refine balanced_bind (balanced_of_reads (only_reaches (fun _ => trivial) _ _ _)) fun circular => ?_
  refine balanced_guard ?_
  refine balanced_bind (balanced_of_reads (only_ensureActive trivial)) fun _ => ?_
  refine balanced_bind (balanced_of_reads (only_ofExcept _)) fun now => ?_
  exact balanced_bind (balanced_of_only (only_ask trivial)) fun _ => balanced_pure _

theorem balanced_undepend (ctx : Context) (id : DependencyId) :
    Balanced none (undepend ctx id) := by
  refine balanced_bind (balanced_of_reads (only_ask trivial)) fun found => ?_
  cases found with
  | none => exact balanced_throw _
  | some d =>
      refine balanced_locked ?_
      refine balanced_bind (balanced_of_reads (only_ensureActive trivial)) fun _ => ?_
      refine balanced_bind (balanced_of_only (only_ask trivial)) fun removed => ?_
      cases removed with
      | true => exact balanced_pure _
      | false => exact balanced_throw _

theorem balanced_reschedule (setup : Setup) (ctx : Context) (m : Move) :
    Balanced none (reschedule setup ctx m) := by
  refine balanced_bind (balanced_of_reads (only_ofExcept _)) fun window => balanced_guard ?_
  refine balanced_bind (balanced_of_reads (only_visibleTask trivial)) fun task => balanced_guard ?_
  refine balanced_bind (balanced_of_reads (only_ensureOpen task)) fun _ => balanced_locked ?_
  refine balanced_bind (balanced_of_reads (only_draft _ _ _ _)) fun d => balanced_of_only ?_
  exact only_carryOut trivial (fun _ => trivial)
    (only_record (fun _ => trivial) (fun _ => trivial) setup) d

theorem balanced_transition (setup : Setup) (ctx : Context) (id : TaskId) (target : TaskState)
    (c : Circumstances) : Balanced none (transition setup ctx id target c) := by
  refine balanced_bind (balanced_of_reads (only_visibleTask trivial)) fun t => balanced_locked ?_
  refine balanced_bind (balanced_of_reads (only_visibleTask trivial)) fun current => ?_
  refine balanced_bind (balanced_of_reads (only_ofExcept _)) fun _ => ?_
  dsimp only
  split
  · exact balanced_pure _
  have hlast : Balanced (some t.tenant) (do
      ensureActive
      let now ← ofExcept ctx.now
      enter setup id target c current now) := by
    refine balanced_bind (balanced_of_reads (only_ensureActive trivial)) fun _ => ?_
    refine balanced_bind (balanced_of_reads (only_ofExcept _)) fun now => ?_
    refine balanced_bind (balanced_of_only (only_ask trivial)) fun found => ?_
    cases found with
    | none => exact balanced_throw _
    | some updated =>
        exact balanced_bind (balanced_of_only (only_publish (fun _ => trivial) _ _ _ _ _)) fun _ =>
          balanced_pure _
  refine balanced_bind (balanced_of_reads (only_ensureActive trivial)) fun _ => ?_
  split
  · exact balanced_bind (balanced_of_only (only_ask trivial)) fun _ => hlast
  · exact hlast

end Service

/-- Whatever the service does for an operation, and however this ends, it holds one lock at a time and
none in the end. -/
theorem Operation.balanced_service (setup : Setup) (ctx : Context) (o : Operation) :
    Service.Balanced none (o.service setup ctx) := by
  cases o with
  | depend task prerequisite kind => exact Service.balanced_map _ (Service.balanced_depend _ _ _ _)
  | undepend id =>
      exact Service.balanced_bind (Service.balanced_undepend _ _) fun _ => Service.balanced_pure _
  | reschedule move => exact Service.balanced_map _ (Service.balanced_reschedule _ _ _)
  | transition task target c =>
      exact Service.balanced_map _ (Service.balanced_transition _ _ _ _ _)
  | dependencies task =>
      exact Service.balanced_of_reads (Service.only_map _ (Service.only_dependencies _ _))
  | dependents task =>
      exact Service.balanced_of_reads (Service.only_map _ (Service.only_dependents _ _))
  | history task =>
      exact Service.balanced_of_reads (Service.only_map _ (Service.only_history _ _))
  | conflicts => exact Service.balanced_of_reads (Service.only_map _ (Service.only_conflicts _))

end Overhaul
