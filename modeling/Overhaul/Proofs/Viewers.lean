import Overhaul.Proofs.Answers
import Overhaul.Proofs.Reschedule.Cascade
import Overhaul.Proofs.Store.Sessions

/-!
# What viewers can do

A role is asked for when a task is moved, and when it is cancelled. It is not when a dependency is made
or removed; and nobody but other mechanics than its own is kept from beginning a task, or from
completing it. So viewers do not only look on. Main statement: a session of viewers leaves the history,
the windows and the reserved parts alone, and as long as none of them makes or removes a dependency, or
begins or completes a task, it leaves everything alone (`World.viewers_session`).
-/

namespace Overhaul

/-! ### What no role is asked for -/

/-- The operation makes or removes a dependency. -/
def Operation.Relinks : Operation → Prop
  | .depend _ _ _ | .undepend _ => True
  | .reschedule _ | .transition _ _ _ | .dependencies _ | .dependents _ | .history _ | .conflicts =>
    False

/-- Work that is begun, or completed. -/
def TaskState.IsWorked (state : TaskState) : Prop := state = .inProgress ∨ state = .completed

/-- The operation begins or completes a task. -/
def Operation.Works : Operation → Prop
  | .transition _ target _ => target.IsWorked
  | .depend _ _ _ | .undepend _ | .reschedule _ | .dependencies _ | .dependents _ | .history _
  | .conflicts => False

/-- An edit for which no role is asked: dependencies come and go if there is somebody who relinks, and
tasks are begun and completed if there is somebody who works. -/
inductive Edit.Unguarded (relinks works : Prop) : Edit → Prop
  | addDependency (d : Dependency) : relinks → Unguarded relinks works (.addDependency d)
  | removeDependency (scope : Scope) (id : DependencyId) :
      relinks → Unguarded relinks works (.removeDependency scope id)
  | setState (scope : Scope) (id : TaskId) {state : TaskState} (notes : String) (now : Timestamp) :
      works → state.IsWorked → Unguarded relinks works (.setState scope id state notes now)
  | announce (m : Message) : works → Unguarded relinks works (.announce m)

/-- No role is asked for what the step does to a store, and it gives no parts back. -/
structure Step.Unguarded (relinks works : Prop) (st : Step) : Prop where
  edits : st.Edits (Edit.Unguarded relinks works)
  releases : ∀ tenant task, st ≠ .call (.releaseParts tenant task)

theorem Step.Idle.unguarded {relinks works : Prop} {st : Step} (h : st.Idle) :
    st.Unguarded relinks works := by
  refine ⟨h.edits, ?_⟩
  rintro tenant task rfl
  exact h.elim

theorem Step.unguarded_of_edit? {relinks works : Prop} {st : Step} {e : Edit}
    (he : st.edit? = some e) (h : e.Unguarded relinks works) : st.Unguarded relinks works := by
  refine ⟨edits_of_edit? he h, ?_⟩
  rintro tenant task rfl
  cases he

/-- The calls that make and remove dependencies are unguarded. -/
theorem Step.IdleOr.unguarded {relinks works : Prop} {kinds : List CallKind} {st : Step}
    (h : st.IdleOr kinds)
    (hkinds : ∀ kind ∈ kinds, (kind = .addDependency ∨ kind = .removeDependency) ∧ relinks) :
    st.Unguarded relinks works := by
  rcases h with hidle | ⟨c, rfl, hkind⟩
  · exact hidle.unguarded
  obtain ⟨hkind, hrelinks⟩ := hkinds _ hkind
  cases c with
  | addDependency d => exact Step.unguarded_of_edit? rfl (.addDependency d hrelinks)
  | removeDependency scope id =>
      exact Step.unguarded_of_edit? rfl (.removeDependency scope id hrelinks)
  | _ => simp [Call.kind] at hkind

namespace Service

variable {setup : Setup} {ctx : Context}

/-- An actor who manages no work takes a task to no other states than those of work. -/
theorem Grants.isWorked {target : TaskState} {c : Circumstances} {t : Task}
    (h : Grants setup ctx target c t) (hmanages : ctx.actor.managesWork = false) :
    target.IsWorked := by
  obtain ⟨hne, hcheck⟩ := h
  unfold Transition.check at hcheck
  rw [if_neg hne] at hcheck
  cases target with
  | scheduled => cases hcheck
  | inProgress => exact .inl rfl
  | completed => exact .inr rfl
  | cancelled =>
      dsimp only at hcheck
      rw [Transition.checkCancellation, hmanages] at hcheck
      split at hcheck <;> cases hcheck

theorem only_unguarded_reschedule {relinks works : Prop} {m : Move}
    (hmoves : ctx.actor.movesWork = false) :
    Only (Step.Unguarded relinks works) (reschedule setup ctx m) := by
  refine only_bind (only_ofExcept _) fun window => only_guard fun _ => ?_
  refine only_bind (only_visibleTask (Step.Idle.unguarded trivial)) fun task => only_guard fun h => ?_
  rw [hmoves] at h
  exact absurd rfl h

theorem only_unguarded_transition {relinks : Prop} {id : TaskId} {target : TaskState}
    {c : Circumstances} (hmanages : ctx.actor.managesWork = false) :
    Only (Step.Unguarded relinks target.IsWorked) (transition setup ctx id target c) := by
  refine only_transition (fun _ => Step.Idle.unguarded) ?_ ?_ ?_
  · rintro t hgrants rfl
    rcases hgrants.isWorked hmanages with h | h <;> cases h
  · intro t hgrants scope now _
    have hworked := hgrants.isWorked hmanages
    exact Step.unguarded_of_edit? rfl (.setState scope id c.notes now hworked hworked)
  · intro t hgrants tenant
    refine only_publish (fun m => ?_) _ _ _ _ _
    exact Step.unguarded_of_edit? rfl (.announce m (hgrants.isWorked hmanages))

end Service

/-- Who neither moves nor manages work does only what no role is asked for. -/
theorem Operation.only_unguarded (setup : Setup) {ctx : Context}
    (hmoves : ctx.actor.movesWork = false) (hmanages : ctx.actor.managesWork = false)
    (o : Operation) : Service.Only (Step.Unguarded o.Relinks o.Works) (o.service setup ctx) := by
  have honly := o.only_service setup ctx
  cases o with
  | reschedule m => exact Service.only_map _ (Service.only_unguarded_reschedule hmoves)
  | transition id target c =>
      exact Service.only_map _ (Service.only_unguarded_transition hmanages)
  | _ =>
      refine Program.Only.imp (fun st hst => hst.unguarded ?_) honly
      simp [Operation.kinds, Operation.Relinks]

/-! ### What it leaves alone -/

/-- What becomes of a task by work alone: it is begun or completed, with more notes. -/
inductive Task.Worked (t : Task) : Task → Prop
  | same : Worked t t
  | entered {state : TaskState} (notes : String) (updated : Timestamp) :
      state.IsWorked → Worked t { t with state, notes, updated }

theorem Task.Worked.trans {t t₁ t₂ : Task} (h : t.Worked t₁) (h' : t₁.Worked t₂) : t.Worked t₂ := by
  cases h' with
  | same => exact h
  | entered notes updated hstate =>
      cases h with
      | same => exact .entered notes updated hstate
      | entered _ _ _ => exact .entered notes updated hstate

/-- What a session may make of a store in which nothing happens that a role is asked for: the history
and all windows stay, and everything does unless somebody relinks or works. -/
structure Store.Spared (relinks works : Prop) (s s' : Store) : Prop where
  changes : s'.changes = s.changes
  tasks : ∀ id, Option.Rel Task.Worked (s.tasks.find? id) (s'.tasks.find? id)
  links : ¬relinks → s'.dependencies = s.dependencies ∧ s'.prerequisites = s.prerequisites ∧
    s'.dependents = s.dependents
  idle : ¬works → s'.tasks = s.tasks ∧ s'.outbox = s.outbox

namespace Store

variable {relinks works relinks' works' : Prop} {s s₁ s₂ s' : Store}

theorem rel_worked_refl (o : Option Task) : Option.Rel Task.Worked o o := by
  cases o with
  | none => exact .none
  | some t => exact .some .same

theorem rel_worked_trans {o o₁ o₂ : Option Task} (h : Option.Rel Task.Worked o o₁)
    (h' : Option.Rel Task.Worked o₁ o₂) : Option.Rel Task.Worked o o₂ := by
  cases h with
  | none => exact h'
  | some h =>
      cases h' with
      | some h' => exact .some (h.trans h')

theorem Spared.refl (s : Store) : s.Spared relinks works s :=
  ⟨rfl, fun _ => rel_worked_refl _, fun _ => ⟨rfl, rfl, rfl⟩, fun _ => ⟨rfl, rfl⟩⟩

theorem Spared.trans (h : s.Spared relinks works s₁) (h' : s₁.Spared relinks works s₂) :
    s.Spared relinks works s₂ := by
  refine ⟨h'.changes.trans h.changes, fun id => rel_worked_trans (h.tasks id) (h'.tasks id),
    fun hlinks => ?_, fun hidle => ?_⟩
  · obtain ⟨hd, hp, ha⟩ := h.links hlinks
    rw [← hd, ← hp, ← ha]
    exact h'.links hlinks
  · obtain ⟨ht, ho⟩ := h.idle hidle
    rw [← ht, ← ho]
    exact h'.idle hidle

theorem Spared.mono (hrelinks : relinks → relinks') (hworks : works → works')
    (h : s.Spared relinks works s') : s.Spared relinks' works' s' :=
  ⟨h.changes, h.tasks, fun hlinks => h.links (hlinks ∘ hrelinks), fun hidle =>
    h.idle (hidle ∘ hworks)⟩

/-- Where nobody relinks or works, nothing changes. -/
theorem Spared.eq (h : s.Spared relinks works s') (hrelinks : ¬relinks) (hworks : ¬works) :
    s' = s := by
  obtain ⟨hd, hp, ha⟩ := h.links hrelinks
  obtain ⟨ht, ho⟩ := h.idle hworks
  have hc := h.changes
  cases s
  cases s'
  congr

/-- An edit for which no role is asked. -/
theorem Spared.of_edited {e : Edit} (he : e.Unguarded relinks works)
    (hedited : s.edited? e = some s') : s.Spared relinks works s' := by
  cases he with
  | addDependency d hrelinks =>
      obtain ⟨-, -, -, rfl⟩ :=
        addDependency_eq_ok_iff.mp (Chronicle.toOption_eq_some_iff.mp hedited)
      exact ⟨rfl, fun _ => rel_worked_refl _, fun h => absurd hrelinks h, fun _ => ⟨rfl, rfl⟩⟩
  | removeDependency scope id hrelinks =>
      obtain ⟨d, -, rfl⟩ := removeDependency_eq_some_iff.mp hedited
      exact ⟨rfl, fun _ => rel_worked_refl _, fun h => absurd hrelinks h, fun _ => ⟨rfl, rfl⟩⟩
  | setState scope id notes now hworks hstate =>
      obtain ⟨⟨t', s''⟩, hset, rfl⟩ := Option.map_eq_some_iff.mp hedited
      obtain ⟨t, ht, rfl, rfl⟩ := setState_eq_some_iff.mp hset
      refine ⟨rfl, fun id' => ?_, fun _ => ⟨rfl, rfl, rfl⟩, fun h => absurd hworks h⟩
      rw [Table.find?_put]
      split
      · rename_i hid
        have hfound := (task?_eq_some_iff.mp ht).1
        rw [← id_eq_of_task? ht, hid] at hfound
        rw [hfound]
        exact .some (.entered _ _ hstate)
      · exact rel_worked_refl _
  | announce m hworks =>
      cases hedited
      exact ⟨rfl, fun _ => rel_worked_refl _, fun _ => ⟨rfl, rfl, rfl⟩, fun h => absurd hworks h⟩

end Store

namespace World

/-! ### Sessions of viewers -/

/-- A viewer's request, wherever it passes through. -/
theorem spared_trail (w : World) {q : Request} (hviewer : q.ctx.actor.role = .viewer) :
    ∀ v ∈ trail q.service.run (w.facing q), v.released = w.released ∧
      w.store.Spared q.operation.Relinks q.operation.Works v.store := by
  have hmoves : q.ctx.actor.movesWork = false := by simp [Actor.movesWork, hviewer]
  have hmanages : q.ctx.actor.managesWork = false := by simp [Actor.managesWork, hviewer]
  have honly : ∀ x ∈ w.transcriptOf q, x.step.Unguarded q.operation.Relinks q.operation.Works :=
    (course_handle w q).only (q.operation.only_unguarded q.setup hmoves hmanages)
  intro v hv
  refine ⟨released_trail q.service.run (fun x hx => (honly x hx).releases) v hv, ?_⟩
  refine forall_trail_of_edits (J := w.store.Spared q.operation.Relinks q.operation.Works)
    (within_facing w q) q.service.run (fun x hx => (honly x hx).edits) ?_ (.refl _) v hv
  exact fun e s s' he hedited h => h.trans (.of_edited he hedited)

/-- In a session in which all actors are viewers, whatever fails and whenever one gives up, no parts
are given back, nothing is recorded in the history, and no more becomes of a task than that it is begun
or completed. The dependencies stay as they are unless a viewer asks for one to be made or removed, and
the tasks and the outbox unless a viewer asks for a task to be begun or completed. Without such
requests nothing changes at all. -/
theorem viewers_session {w : World} {qs : List Request}
    (hviewers : ∀ q ∈ qs, q.ctx.actor.role = .viewer) :
    ∀ v ∈ w.session qs, v.released = w.released ∧
      w.store.Spared (∃ q ∈ qs, q.operation.Relinks) (∃ q ∈ qs, q.operation.Works) v.store ∧
      ((∀ q ∈ qs, ¬q.operation.Relinks ∧ ¬q.operation.Works) → v.store = w.store) := by
  intro v hv
  obtain ⟨hreleased, hspared⟩ := forall_session_of_mem
    (P := fun u => u.released = w.released ∧
      w.store.Spared (∃ q ∈ qs, q.operation.Relinks) (∃ q ∈ qs, q.operation.Works) u.store)
    (fun q hq u hu u' hu' => by
      obtain ⟨hsame, htrail⟩ := spared_trail u (hviewers q hq) u' hu'
      refine ⟨hsame.trans hu.1, hu.2.trans (htrail.mono ?_ ?_)⟩
      · exact fun h => ⟨q, hq, h⟩
      · exact fun h => ⟨q, hq, h⟩)
    ⟨rfl, .refl _⟩ v hv
  refine ⟨hreleased, hspared, fun h => hspared.eq ?_ ?_⟩
  · rintro ⟨q, hq, hrelinks⟩
    exact (h q hq).1 hrelinks
  · rintro ⟨q, hq, hworks⟩
    exact (h q hq).2 hworks

end World

/-- The small store, in which somebody is to do the first task. -/
def sampleStaffed : Store :=
  { Store.sample with
    tasks := Store.sample.tasks.put { Store.sampleTask 1 0 0 with mechanic := some (.ofNat 2) } }

/-- A viewer of the first tenant asks at six in the morning. -/
def sampleViewer : Context := { sampleContext with actor := ⟨.ofNat 1, .ofNat 9, .viewer⟩ }

/-- A viewer asks for something, where parts are reserved. -/
def viewerAsks (o : Operation) : Request where
  setup := { reservesParts := true }
  ctx := sampleViewer
  operation := o
  honest := Request.honest_of_nil

/-- A viewer wants to put the first task off and to cancel the second one, and then begins the first
task. -/
def sampleViewing : List Operation := [
  .reschedule sampleMove,
  .transition (.ofNat 2) .cancelled { aircraft := .grounded, now := Store.hour 6 0 },
  .transition (.ofNat 1) .inProgress { aircraft := .grounded, now := Store.hour 6 0 }]

/-- Nothing has changed until the first task is begun, and then only this has. -/
theorem viewers_session_sample :
    let w : World := { store := sampleStaffed }
    let qs := sampleViewing.map viewerAsks
    (∀ q ∈ qs, q.ctx.actor.role = .viewer) ∧
      w.replies (qs.take 2) = [.error (.forbidden .moving), .error (.forbidden .cancelling)] ∧
      (w.after (qs.take 2)).store = w.store ∧
      (w.after qs).released = w.released ∧ (w.after qs).store.changes = w.store.changes ∧
      (w.after qs).store.dependencies = w.store.dependencies ∧
      ((w.after qs).store.tasks.find? (.ofNat 1)).map Task.state = some .inProgress := by
  intro w qs
  have hviewers : ∀ q ∈ qs, q.ctx.actor.role = .viewer := by decide
  have hrelinks : ∀ q ∈ qs, ¬q.operation.Relinks := by
    simp [qs, sampleViewing, viewerAsks, Operation.Relinks]
  have hworks : ∀ q ∈ qs.take 2, ¬q.operation.Works := by
    simp [qs, sampleViewing, viewerAsks, Operation.Works, TaskState.IsWorked]
  obtain ⟨-, -, hsame⟩ := World.viewers_session
    (fun q hq => hviewers q (List.mem_of_mem_take hq)) _ (w.after_mem_session (qs.take 2))
  obtain ⟨hreleased, hspared, -⟩ := World.viewers_session hviewers _ (w.after_mem_session qs)
  have hnone : ¬∃ q ∈ qs, q.operation.Relinks := fun ⟨q, hq, h⟩ => hrelinks q hq h
  refine ⟨hviewers, by cbv, hsame fun q hq => ?_, hreleased, hspared.changes,
    (hspared.links hnone).1, by cbv⟩
  exact ⟨hrelinks q (List.mem_of_mem_take hq), hworks q hq⟩

/-- Viewers do not only look on: one can remove a dependency, and one can begin a task. -/
theorem not_viewers_look_on :
    (¬∀ (w : World) (q : Request), q.ctx.actor.role = .viewer → q.operation.Relinks →
      (w.handle q).2.store = w.store) ∧
    ¬∀ (w : World) (q : Request), q.ctx.actor.role = .viewer → q.operation.Works →
      (w.handle q).2.store = w.store := by
  constructor
  · intro h
    have hsame := h { store := .sample } (viewerAsks (.undepend (.ofNat 2))) rfl trivial
    have hfewer : ((World.handle { store := .sample }
        (viewerAsks (.undepend (.ofNat 2)))).2.store.dependencies.rows.length) = 1 := by cbv
    rw [hsame] at hfewer
    cases hfewer
  · intro h
    let begin : Operation :=
      .transition (.ofNat 1) .inProgress { aircraft := .grounded, now := Store.hour 6 0 }
    have hsame := h { store := sampleStaffed } (viewerAsks begin) rfl (.inl rfl)
    have hbegun : ((World.handle { store := sampleStaffed }
        (viewerAsks begin)).2.store.tasks.find? (.ofNat 1)).map Task.state =
          some .inProgress := by cbv
    rw [hsame] at hbegun
    exact absurd hbegun (by decide)

end Overhaul
