import Mathlib.Logic.Function.Basic
import Overhaul.Proofs.Concurrency.Approach
import Overhaul.Proofs.Session

/-!
# Requests at the same time

Requests that reach the service at the same time are dealt with side by side, step by step. When none
of them is disturbed, this comes to the same as when they are dealt with one after the other in some
order. Main statement: `World.serializable`.
-/

namespace Overhaul

/-- No call that is made for the request fails or is answered in any other way than as usual, and its
caller does not give up. -/
structure Request.Undisturbed (q : Request) : Prop where
  active : q.cancelled = false
  faults : q.faults = fun _ => []

/-- An undisturbed request comes to what its service comes to with the store alone. -/
theorem Request.Undisturbed.handle {q : Request} (h : q.Undisturbed) (w : World) :
    (w.handle q).1 = (w.store.run q.service.run).1 ∧
      (w.handle q).2.store = (w.store.run q.service.run).2 := by
  have hquiet : (w.facing q).Quiet := ⟨h.active, h.faults⟩
  exact hquiet.run q.service.run

/-- Programs that run one after the other do what requests do that are dealt with one after the
other. -/
theorem Serial.replies {n : Nat} {calls : Fin n → Request} (hcalls : ∀ i, (calls i).Undisturbed)
    {w : World} {counted : List (Fin n × Except Failure Answer)} {left : Store}
    (h : Serial (fun i => (calls i).service.run) w.store counted left) :
    w.replies (counted.map fun p => calls p.1) = counted.map Prod.snd ∧
      (w.after (counted.map fun p => calls p.1)).store = left := by
  induction h with
  | start => exact ⟨rfl, rfl⟩
  | @next counted left i _ ih =>
      obtain ⟨hreplies, hleft⟩ := ih
      obtain ⟨hresult, hstore⟩ := (hcalls i).handle (w.after (counted.map fun p => calls p.1))
      rw [hleft] at hresult hstore
      rw [List.map_append, List.map_append]
      constructor
      · rw [← hreplies, ← hresult]
        exact World.replies_concat _ _ _
      · rw [World.after_append, ← hstore]
        rfl

/-- The owners of some identifiers are known already; fresh ones can be given to whoever it may be. -/
theorem exists_owners {n : Nat} {kind : IdKind} {fresh : Fin n → BitVec 128}
    (hfresh : Function.Injective fresh) (owner : Fin n → TenantId) (known : Id kind → Option TenantId)
    (hnew : ∀ i, known ⟨fresh i⟩ = none) :
    ∃ owners : Id kind → TenantId,
      (∀ id a, known id = some a → owners id = a) ∧ ∀ i, owners ⟨fresh i⟩ = owner i := by
  have hinjective : Function.Injective fun i => (⟨fresh i⟩ : Id kind) :=
    fun i j hij => hfresh (Id.mk.inj hij)
  refine ⟨Function.extend _ owner fun id => (known id).getD (.ofNat 0), fun id a hid => ?_,
    fun i => hinjective.extend_apply owner _ i⟩
  rw [Function.extend_apply', hid]
  · rfl
  · rintro ⟨i, rfl⟩
    rw [hnew] at hid
    cases hid

/-- A store has a registry that gives the fresh identifiers of requests to whom they will belong. -/
theorem Store.exists_registry {n : Nat} {calls : Fin n → Request} {s : Store}
    (hfresh : Function.Injective fun i => (calls i).ctx.fresh)
    (hnew : ∀ i, s.dependencies.find? ⟨(calls i).ctx.fresh⟩ = none ∧
      s.changes.find? ⟨(calls i).ctx.fresh⟩ = none)
    (hkeyed : ∀ m ∈ s.outbox, ∃ task, m.key = Message.taskKey m.tenant task) :
    ∃ o : Registry, s.Registered o ∧ ∀ i, o.Issues (calls i) := by
  have howner : ∀ i, ∃ a, ∀ task ∈ (calls i).operation.subject?, ∀ t,
      s.tasks.find? task = some t → t.tenant = a := by
    intro i
    cases hsubject : (calls i).operation.subject? with
    | none => exact ⟨.ofNat 0, by simp⟩
    | some task =>
        cases ht : s.tasks.find? task with
        | none => exact ⟨.ofNat 0, by simp [ht]⟩
        | some t => exact ⟨t.tenant, by simp [ht]⟩
  choose owner howner using howner
  obtain ⟨dependency, hdependencies, hdependency⟩ := exists_owners hfresh owner
    (fun id => (s.dependencies.find? id).map Dependency.tenant) fun i => by rw [(hnew i).1]; rfl
  obtain ⟨change, hchanges, hchange⟩ := exists_owners hfresh owner
    (fun id => (s.changes.find? id).map ScheduleChange.tenant) fun i => by rw [(hnew i).2]; rfl
  refine ⟨⟨fun id => (s.tasks.find? id).map fun t => (t.tenant, t.deleted), dependency, change⟩,
    ⟨fun _ => rfl, fun d hd => ?_, fun c hc => ?_, hkeyed⟩, fun i task htask a deleted ha => ?_⟩
  · refine (hdependencies d.id d.tenant ?_).symm
    rw [Table.find?_eq_some_iff.mpr ⟨hd, rfl⟩]
    rfl
  · refine (hchanges c.id c.tenant ?_).symm
    rw [Table.find?_eq_some_iff.mpr ⟨hc, rfl⟩]
    rfl
  · obtain ⟨t, ht, hta⟩ := Option.map_eq_some_iff.mp ha
    cases hta
    rw [howner i task htask t ht]
    exact ⟨hdependency i, hchange i⟩

/-- Requests that may change something, under fresh identifiers of their own, reach the service at
the same time and are not disturbed. However their steps alternate, there is an order in which every
request ends in the same way when they are dealt with one after the other, and in which every tenant
finds the same afterwards: its tasks, its dependencies and how each task lists them, its history and
its waiting messages. -/
theorem World.serializable {n : Nat} {calls : Fin n → Request} {s : Store} {w : World}
    {results : Fin n → Except Failure Answer} (hmutates : ∀ i, (calls i).operation.Mutates)
    (hcalls : ∀ i, (calls i).Undisturbed)
    (hfresh : Function.Injective fun i => (calls i).ctx.fresh)
    (hnew : ∀ i, s.dependencies.find? ⟨(calls i).ctx.fresh⟩ = none ∧
      s.changes.find? ⟨(calls i).ctx.fresh⟩ = none)
    (hkeyed : ∀ m ∈ s.outbox, ∃ task, m.key = Message.taskKey m.tenant task)
    (hrun : Interleaving { store := s } (fun i => (calls i).service.run) w results) :
    ∃ order : List (Fin n), order.Perm (List.finRange n) ∧
      ({ store := s } : World).replies (order.map calls) = order.map results ∧
      ∀ tenant, w.store.SameFor tenant (({ store := s } : World).after (order.map calls)).store := by
  obtain ⟨o, hs, hissues⟩ := Store.exists_registry hfresh hnew hkeyed
  obtain ⟨order, left, hperm, hserial, hsame⟩ := hrun.serial ⟨rfl, rfl⟩ rfl hs fun i =>
    Request.approaches (hmutates i) (hissues i)
  obtain ⟨hreplies, hleft⟩ := hserial.replies hcalls
  simp only [List.map_map, Function.comp_def] at hreplies hleft
  refine ⟨order, hperm, hreplies, fun tenant => ?_⟩
  rw [hleft]
  exact hsame tenant

/-- Two callers remove the same dependency at the same time. Both find it, and then only one of them
is left with something to remove, and the other one is told that there is nothing. -/
theorem World.serializable_sample :
    let calls : Fin 2 → Request := fun i => {
      setup := {}
      ctx := ⟨⟨.ofNat 1, .ofNat 1, .scheduler⟩, Store.hour 0 0, BitVec.ofNat 128 (8 + i.val)⟩
      operation := .undepend (.ofNat 1) }
    let results : Fin 2 → Except Failure Answer := fun i =>
      if i = 0 then .ok (.removed (.ofNat 1)) else .error (.notFound (.dependency (.ofNat 1)))
    ∃ w : World, Interleaving { store := .sample } (fun i => (calls i).service.run) w results ∧
      ∃ order : List (Fin 2), order.Perm (List.finRange 2) ∧
        ({ store := .sample } : World).replies (order.map calls) = order.map results ∧
        ∀ tenant, w.store.SameFor tenant
          (({ store := .sample } : World).after (order.map calls)).store := by
  intro calls results
  have hrun : ∃ w : World,
      Interleaving { store := .sample } (fun i => (calls i).service.run) w results :=
    ⟨_, .step 0 rfl trivial <| .step 1 rfl trivial <| .step 0 rfl (by decide) <|
      .step 0 rfl trivial <| .step 0 rfl trivial <| .step 0 rfl trivial <|
      .step 1 rfl (by decide) <| .step 1 rfl trivial <| .step 1 rfl trivial <|
      .step 1 rfl trivial <| .finished (Fin.forall_fin_two.mpr ⟨rfl, rfl⟩)⟩
  obtain ⟨w, hrun⟩ := hrun
  have hfresh : ∀ i j, (calls i).ctx.fresh = (calls j).ctx.fresh → i = j := by decide
  exact ⟨w, hrun, serializable (fun _ => trivial) (fun _ => ⟨rfl, rfl⟩) hfresh (by decide)
    (fun _ hm => (List.not_mem_nil hm).elim) hrun⟩

end Overhaul
