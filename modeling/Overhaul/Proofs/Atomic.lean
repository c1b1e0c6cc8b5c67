import Overhaul.Proofs.Landing
import Overhaul.Proofs.Reschedule.Permitted

/-!
# Failing without a trace

When no call is interfered with, an operation fails before it has written anything. `Service.Atomic`
says so of a service. Main statement: every operation is atomic whose identifier no change has yet
(`Operation.atomic_service`).
-/

namespace Overhaul

namespace Service

variable {α β : Type} {s : Store}

/-- When the service fails undisturbed, the store is left as it was. -/
def Atomic (s : Store) (p : Service α) : Prop :=
  ∀ e, (s.serve p).1 = .error e → (s.serve p).2 = s

/-- A service that only reads leaves the store as it was in any case. -/
theorem serve_of_reads {p : Service α} (hp : Only Step.Reads p) : (s.serve p).2 = s := by
  obtain ⟨log, hcourse⟩ := s.course_serve p
  exact hcourse.store_eq_of_reads hp

/-- A service that never fails is atomic. -/
theorem atomic_of_ok {p : Service α} {a : α} (h : (s.serve p).1 = .ok a) : Atomic s p := by
  intro e he
  rw [h] at he
  cases he

theorem atomic_guard {c : Prop} [Decidable c] {f : Failure} {k : Unit → Service α}
    (h : ¬c → Atomic s (k ())) : Atomic s (if c then throw f >>= k else k ()) := by
  split
  · exact fun _ _ => rfl
  · rename_i hc
    exact h hc

theorem atomic_locked {tenant : TenantId} {p : Service α} (h : Atomic s p) :
    Atomic s (locked tenant p) := by
  unfold Atomic
  rw [Store.serve_locked]
  exact h

theorem atomic_map {p : Service α} (f : α → β) (h : Atomic s p) : Atomic s (f <$> p) := by
  intro e he
  rw [Store.serve_map] at he ⊢
  cases hr : (s.serve p).1 with
  | ok a =>
      rw [hr] at he
      cases he
  | error cause => exact h cause hr

/-- What follows a first reading finds the store as it was. -/
theorem atomic_bind_of_reads {p : Service α} {f : α → Service β} (hp : Only Step.Reads p)
    (hf : ∀ a, s.serve p = (.ok a, s) → Atomic s (f a)) : Atomic s (p >>= f) := by
  have hs : (s.serve p).2 = s := serve_of_reads hp
  unfold Atomic
  rw [Store.serve_bind]
  cases hr : s.serve p with
  | mk r s' =>
      rw [hr] at hs
      obtain rfl : s' = s := hs
      cases r with
      | ok a => exact hf a hr
      | error cause => exact fun _ _ => rfl

/-- Where nothing goes wrong, what lands is atomic. -/
theorem Lands.atomic {p : Service α} {Q : α → Store → Prop} (h : Lands (fun _ => True) s p Q) :
    Atomic s p := by
  obtain ⟨log, hcourse⟩ := s.course_serve p
  exact (h log _ _ hcourse).1

/-! ### Operations -/

/-- A move whose identifier is new is not refused any more once it is decided. -/
theorem atomic_reschedule (setup : Setup) {ctx : Context} (m : Move)
    (hfresh : s.changes.find? ⟨ctx.fresh⟩ = none) : Atomic s (reschedule setup ctx m) := by
  refine atomic_bind_of_reads (only_ofExcept _) fun window hwindow => atomic_guard fun _ => ?_
  have hbetween : Window.between m.start m.finish = .ok window := (Prod.mk.inj hwindow).1
  refine atomic_bind_of_reads (only_visibleTask trivial) fun task _ => atomic_guard fun _ => ?_
  refine atomic_bind_of_reads (only_ensureOpen task) fun _ _ => atomic_locked ?_
  refine atomic_bind_of_reads (only_draft _ _ _ _) fun d hd => ?_
  obtain ⟨log, hcourse⟩ := s.course_serve (draft ctx m window (Text.trimmed m.reason))
  rw [hd] at hcourse
  obtain ⟨-, hdrawn⟩ := course_draft hbetween hcourse
  have hnew : s.changes.find? d.change.id = none := by
    rw [hdrawn.change]
    exact hfresh
  obtain ⟨outbox, hcarry⟩ := Store.serve_carryOut setup hdrawn hnew
  exact atomic_of_ok (congrArg Prod.fst hcarry)

end Service

/-- An operation that fails undisturbed leaves the store as it was, when no change has the identifier
of its request. -/
theorem Operation.atomic_service {s : Store} (setup : Setup) {ctx : Context} (o : Operation)
    (hfresh : s.changes.find? ⟨ctx.fresh⟩ = none) : Service.Atomic s (o.service setup ctx) := by
  by_cases ho : ∃ m, o = .reschedule m
  · obtain ⟨m, rfl⟩ := ho
    exact Service.atomic_map _ (Service.atomic_reschedule _ m hfresh)
  · exact (o.lands_service setup ctx fun m hm => ho ⟨m, hm⟩).atomic

end Overhaul
