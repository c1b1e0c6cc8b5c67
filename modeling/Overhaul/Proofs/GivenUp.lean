import Overhaul.Proofs.Answers
import Overhaul.Proofs.Landing
import Overhaul.Proofs.Reschedule.Cascade
import Overhaul.Proofs.Session

/-!
# Callers who have given up

An operation looks whether its caller has given up before it changes anything. `Program.Heeds` says
so of a program: as long as it is told that the caller has, it takes idle steps only. Main statements:
all operations that are for changing something heed this (`Operation.heeds_service`), and whatever
goes wrong, an operation is carried out altogether or not at all (`World.handle_all_or_nothing`).
-/

namespace Overhaul

/-- This is what a step may tell while the caller has given up. -/
def Step.Tells : (st : Step) → st.Reply → Prop
  | .isCancelled, b => b = true
  | .call _, _ | .lock _, _ | .unlock _, _ => True

/-- While the caller has given up, the program takes idle steps only, and is done with something in
`Q`. -/
def Program.Heeds {α : Type} (Q : α → Prop) : Program α → Prop
  | .done a => Q a
  | .step st next => st.Idle ∧ ∀ r, st.Tells r → (next r).Heeds Q

/-- While the caller has given up, the service takes idle steps only, and succeeds with answers in
`Q` only. -/
def Service.Heeds {α : Type} (Q : α → Prop) (p : Service α) : Prop :=
  p.run.Heeds fun r => ∀ a, r = .ok a → Q a

section

variable {α β : Type}

namespace Program

variable {P : α → Prop} {Q : β → Prop}

theorem Heeds.bind {p : Program α} {f : α → Program β} (hp : p.Heeds P)
    (hf : ∀ a, P a → (f a).Heeds Q) : (p >>= f).Heeds Q := by
  induction p with
  | done a => exact hf a hp
  | step st next ih => exact ⟨hp.1, fun r hr => ih r (hp.2 r hr)⟩

theorem Heeds.mono {R : α → Prop} {p : Program α} (hp : p.Heeds P) (h : ∀ a, P a → R a) :
    p.Heeds R := by
  induction p with
  | done a => exact h a hp
  | step st next ih => exact ⟨hp.1, fun r hr => ih r (hp.2 r hr)⟩

/-- What only reads takes idle steps. -/
theorem heeds_of_reads {p : Program α} (hp : p.Only Step.Reads) : p.Heeds fun _ => True := by
  induction p with
  | done a => trivial
  | step st next ih => exact ⟨hp.1.idle, fun r _ => ih r (hp.2 r)⟩

end Program

namespace Service

variable {Q : α → Prop}

theorem heeds_pure {a : α} (h : Q a) : Heeds Q (pure a) := by
  rintro _ ⟨⟩
  exact h

theorem heeds_throw (f : Failure) : Heeds Q (throw f) := by
  rintro a ⟨⟩

theorem Heeds.mono {R : α → Prop} {p : Service α} (hp : Heeds Q p) (h : ∀ a, Q a → R a) :
    Heeds R p :=
  Program.Heeds.mono hp fun _ hr a ha => h a (hr a ha)

theorem heeds_bind {P : β → Prop} {p : Service β} {f : β → Service α} (hp : Heeds P p)
    (hf : ∀ b, P b → Heeds Q (f b)) : Heeds Q (p >>= f) := by
  refine Program.Heeds.bind hp fun r hr => ?_
  cases r with
  | ok b => exact hf b (hr b rfl)
  | error e => exact heeds_throw e

theorem heeds_bind_of_reads {p : Service β} {f : β → Service α} (hp : Only Step.Reads p)
    (hf : ∀ b, Heeds Q (f b)) : Heeds Q (p >>= f) := by
  refine (Program.heeds_of_reads hp).bind fun r _ => ?_
  cases r with
  | ok b => exact hf b
  | error e => exact heeds_throw e

/-- A caller who has given up is told so, and nothing follows. -/
theorem heeds_ensureActive_bind {k : Unit → Service α} : Heeds Q (ensureActive >>= k) := by
  refine heeds_bind (P := fun _ => False) ⟨trivial, ?_⟩ fun _ h => h.elim
  rintro _ rfl
  exact heeds_throw (α := Unit) _

theorem heeds_guard {c : Prop} [Decidable c] {f : Failure} {k : Unit → Service α}
    (h : Heeds Q (k ())) : Heeds Q (if c then throw f >>= k else k ()) := by
  split
  · exact heeds_throw f
  · exact h

theorem heeds_map {p : Service β} {f : β → α} (h : Heeds (fun b => Q (f b)) p) :
    Heeds Q (f <$> p) := by
  rw [← bind_pure_comp]
  exact heeds_bind h fun _ hb => heeds_pure hb

theorem heeds_ofExcept {e : Except Failure α} (h : ∀ a, e = .ok a → Q a) : Heeds Q (ofExcept e) := h

theorem heeds_outcome {p : Service α} (h : Heeds Q p) :
    Heeds (fun r => ∀ a, r = .ok a → Q a) p.outcome := by
  change Program.Heeds _ (Except.ok <$> p.run)
  rw [← bind_pure_comp]
  refine Program.Heeds.bind h fun r hr => ?_
  rintro _ ⟨⟩
  exact hr

theorem heeds_locked {tenant : TenantId} {p : Service α} (h : Heeds Q p) :
    Heeds Q (locked tenant p) := by
  refine heeds_bind (p := ExceptT.lift (Program.only (.lock tenant))) (P := fun _ => True)
    ⟨trivial, fun _ _ _ _ => trivial⟩ fun _ _ => ?_
  refine heeds_bind (heeds_outcome h) fun r hr => ?_
  refine heeds_bind (p := ExceptT.lift (Program.only (.unlock tenant))) (P := fun _ => True)
    ⟨trivial, fun _ _ _ _ => trivial⟩ fun _ _ => ?_
  exact heeds_ofExcept hr

/-! ### Operations -/

theorem heeds_depend (ctx : Context) (task prerequisite : TaskId) (kind : Option DependencyKind) :
    Heeds (fun _ => False) (depend ctx task prerequisite kind) := by
  unfold depend
  refine heeds_guard (heeds_bind_of_reads (only_visibleTask trivial) fun waiting => ?_)
  refine heeds_bind_of_reads (only_visibleTask trivial) fun awaited => heeds_guard (heeds_locked ?_)
  refine heeds_bind_of_reads (only_ask (by trivial)) fun present => heeds_guard ?_
  refine heeds_bind_of_reads (only_reaches (fun _ => trivial) _ _ _) fun circular => ?_
  exact heeds_guard heeds_ensureActive_bind

theorem heeds_undepend (ctx : Context) (id : DependencyId) :
    Heeds (fun _ => False) (undepend ctx id) := by
  refine heeds_bind_of_reads (only_ask (by trivial)) fun found => ?_
  cases found with
  | none => exact heeds_throw _
  | some d => exact heeds_locked heeds_ensureActive_bind

theorem heeds_transition (setup : Setup) (ctx : Context) (id : TaskId) (target : TaskState)
    (c : Circumstances) : Heeds (fun _ => True) (transition setup ctx id target c) := by
  refine heeds_bind_of_reads (only_visibleTask trivial) fun _ => heeds_locked ?_
  refine heeds_bind_of_reads (only_visibleTask trivial) fun current => ?_
  refine heeds_bind_of_reads (only_ofExcept _) fun _ => ?_
  dsimp only
  split
  · exact heeds_pure trivial
  · exact heeds_ensureActive_bind

theorem heeds_draft (ctx : Context) (m : Move) (window : Window) (reason : String) :
    Heeds (fun _ => False) (draft ctx m window reason) := by
  refine heeds_bind_of_reads (only_visibleTask trivial) fun t => ?_
  refine heeds_bind_of_reads (only_ensureOpen t) fun _ => ?_
  refine heeds_bind_of_reads (only_ofExcept _) fun now => ?_
  dsimp only
  split
  · exact heeds_bind_of_reads (only_plan (fun _ => trivial) (fun _ => trivial) _ _ _ _ _) fun _ =>
      heeds_ensureActive_bind
  · exact heeds_bind_of_reads (only_pure _) fun _ => heeds_ensureActive_bind

theorem heeds_reschedule (setup : Setup) (ctx : Context) (m : Move) :
    Heeds (fun _ => False) (reschedule setup ctx m) := by
  refine heeds_bind_of_reads (only_ofExcept _) fun window => heeds_guard ?_
  refine heeds_bind_of_reads (only_visibleTask trivial) fun task => heeds_guard ?_
  refine heeds_bind_of_reads (only_ensureOpen task) fun _ => heeds_locked ?_
  exact heeds_bind (heeds_draft _ _ _ _) fun _ h => h.elim

end Service

end

/-- An operation that is for changing something changes nothing while its caller has given up, and
nothing but a transition succeeds then. -/
theorem Operation.heeds_service (setup : Setup) (ctx : Context) {o : Operation} (ho : o.kinds ≠ []) :
    Service.Heeds (fun _ => ∃ id target c, o = .transition id target c) (o.service setup ctx) := by
  cases o with
  | depend task prerequisite kind =>
      exact Service.heeds_map ((Service.heeds_depend _ _ _ _).mono fun _ h => h.elim)
  | undepend id =>
      exact Service.heeds_bind (Service.heeds_undepend _ _) fun _ h => h.elim
  | reschedule m => exact Service.heeds_map ((Service.heeds_reschedule _ _ _).mono fun _ h => h.elim)
  | transition task target c =>
      exact Service.heeds_map ((Service.heeds_transition _ _ _ _ _).mono fun _ _ => ⟨_, _, _, rfl⟩)
  | _ => exact absurd rfl ho

namespace World

variable {w : World}

/-- An idle step changes nothing, and who has given up does not take it back. -/
theorem take_of_idle {st : Step} (hst : st.Idle) (hw : w.cancelled = true) :
    (w.take st).2.store = w.store ∧ (w.take st).2.released = w.released ∧
      (w.take st).2.cancelled = true ∧ st.Tells (w.take st).1 := by
  cases st with
  | call c =>
      have hleft : (w.take (.call c)).2 = w.past c.kind := answer_snd_of_reads w hst
      rw [hleft]
      exact ⟨rfl, rfl, by simp [past, hw], trivial⟩
  | lock tenant => exact ⟨rfl, rfl, hw, trivial⟩
  | unlock tenant => exact ⟨rfl, rfl, hw, trivial⟩
  | isCancelled => exact ⟨rfl, rfl, hw, hw⟩

/-- A program that heeds that its caller has given up changes nothing then. -/
theorem run_of_heeds {α : Type} {Q : α → Prop} {p : Program α} (hp : p.Heeds Q)
    (hw : w.cancelled = true) :
    (run p w).2.store = w.store ∧ (run p w).2.released = w.released ∧ Q (run p w).1 := by
  induction p generalizing w with
  | done a => exact ⟨rfl, rfl, hp⟩
  | step st next ih =>
      obtain ⟨hstore, hreleased, hgiven, htells⟩ := take_of_idle hp.1 hw
      obtain ⟨hstore', hreleased', hresult⟩ := ih _ (hp.2 _ htells) hgiven
      exact ⟨hstore'.trans hstore, hreleased'.trans hreleased, hresult⟩

/-- Whatever fails, whatever calls answer that there is nothing, and whenever the caller gives up: an
operation that is not a move leaves the store as it was when it fails, and has its effect, and no
other, when it succeeds. A caller who had given up beforehand has nothing changed, by a move neither,
nor any parts given back; only a task that is in the state already is still shown. -/
theorem handle_all_or_nothing (w : World) (q : Request) (hindexed : w.store.Indexed) :
    ((∀ m, q.operation ≠ .reschedule m) →
      (∀ f, (w.handle q).1 = .error f → (w.handle q).2.store = w.store) ∧
      ∀ a, (w.handle q).1 = .ok a → q.operation.Effect q.ctx w.store a (w.handle q).2.store) ∧
    (q.cancelled = true → q.operation.kinds ≠ [] →
      ((w.handle q).2.store = w.store ∧ (w.handle q).2.released = w.released) ∧
      ∀ a, (w.handle q).1 = .ok a → ∃ t c, q.operation = .transition t.id t.state c ∧
        w.store.task? q.ctx.scope t.id = some t ∧ a = .task t) := by
  have hlands : (∀ m, q.operation ≠ .reschedule m) →
      (∀ f, (w.handle q).1 = .error f → (w.handle q).2.store = w.store) ∧
      ∀ a, (w.handle q).1 = .ok a → q.operation.Effect q.ctx w.store a (w.handle q).2.store := by
    intro ho
    obtain ⟨hfail, hok⟩ := q.operation.lands_service q.setup q.ctx ho _ _ _ (course_handle w q)
    exact ⟨hfail, fun a ha => hok a ha hindexed⟩
  refine ⟨hlands, fun hcancelled hkinds => ?_⟩
  have hheeds := q.operation.heeds_service q.setup q.ctx hkinds
  obtain ⟨hstore, hreleased, hresult⟩ := run_of_heeds (w := w.facing q) hheeds hcancelled
  refine ⟨⟨hstore, hreleased⟩, fun a ha => ?_⟩
  obtain ⟨id, target, c, hop⟩ := hresult a ha
  have heffect := (hlands (by simp [hop])).2 a ha
  have hstays : (w.handle q).2.store = w.store := hstore
  rw [hop, hstays] at heffect
  cases heffect with
  | stays ht => exact ⟨_, c, hop, ht, rfl⟩
  | enters ht hne _ henters => exact absurd rfl (henters.ne ht hne)
  | reads hnone => simp [Operation.kinds] at hnone

/-- A scheduler of the first tenant asks for something, and this happens to the first call of a
kind. -/
def mishap (o : Operation) (kind : CallKind) (fault : Fault) (h : fault.Within False) : Request where
  setup := {}
  ctx := { sampleContext with clock := Store.hour 6 0, fresh := 9 }
  operation := o
  faults := fun k => if k = kind then [fault] else []
  honest := by
    intro k f hf
    split at hf
    · rwa [List.mem_singleton.mp hf]
    · cases hf

/-- A dependency is not made when the store cannot be written to; a task is cancelled although its
caller gives up meanwhile; and a caller who had given up beforehand has nothing moved. -/
theorem handle_all_or_nothing_sample :
    let w : World := { store := .sample }
    let q₁ := mishap (.depend (.ofNat 3) (.ofNat 1) none) .addDependency (.fail "disk full")
      not_false
    let q₂ := mishap (.transition (.ofNat 1) .cancelled
      { aircraft := .operational, now := Store.hour 6 0 }) .setState .cancel trivial
    let q₃ := { mishap (.reschedule ⟨.ofNat 1, Store.hour 1 0, Store.hour 2 0, "no hangar", true⟩)
      .task .none trivial with cancelled := true }
    let t : Task := { Store.sampleTask 1 0 0 with state := .cancelled, updated := Store.hour 6 0 }
    ((w.handle q₁).1 = .error (.store (.unavailable "disk full")) ∧
        (w.handle q₁).2.store = w.store) ∧
      ((w.handle q₂).1 = .ok (.task t) ∧
        q₂.operation.Effect q₂.ctx w.store (.task t) (w.handle q₂).2.store) ∧
      (w.handle q₃).1 = .error .cancelled ∧ (w.handle q₃).2.store = w.store := by
  intro w q₁ q₂ q₃ t
  have hfail : (w.handle q₁).1 = .error (.store (.unavailable "disk full")) := by cbv
  have hok : (w.handle q₂).1 = .ok (.task t) := by cbv
  have hgiven : (w.handle q₃).1 = .error .cancelled := by cbv
  obtain ⟨hlands₁, -⟩ := handle_all_or_nothing w q₁ Store.indexed_sample
  obtain ⟨hlands₂, -⟩ := handle_all_or_nothing w q₂ Store.indexed_sample
  obtain ⟨-, hheeds⟩ := handle_all_or_nothing w q₃ Store.indexed_sample
  refine ⟨⟨hfail, (hlands₁ ?_).1 _ hfail⟩, ⟨hok, (hlands₂ ?_).2 _ hok⟩, hgiven, (hheeds rfl ?_).1.1⟩
  · simp [q₁, mishap]
  · simp [q₂, mishap]
  · simp [q₃, mishap, Operation.kinds]

end World

end Overhaul
