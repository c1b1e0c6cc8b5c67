import Overhaul.Proofs.Session
import Overhaul.Proofs.Transitions

/-!
# The lives of tasks

A task changes its state only when somebody asks for just that and may do so, and only along the ways
that there are. Once it is closed or deleted nothing is ever written over its record again, whatever
else is moved or moved back. Main statement: `World.lives_session`.
-/

namespace Overhaul

/-- The task is closed or deleted. -/
def Task.Final (t : Task) : Prop := t.state.isClosed = true ∨ t.deleted.isSome = true

/-- The request asks for the task to enter the state, and its actor may take it there. -/
def Request.Grants (q : Request) (t : Task) (target : TaskState) : Prop :=
  ∃ c, q.operation = .transition t.id target c ∧
    Transition.check q.ctx.actor t target c q.setup.settings.tolerances = .ok ()

namespace Store

/-- Closed and deleted tasks are recorded in the second store just as they were in the first. -/
def Keeps (s s' : Store) : Prop :=
  ∀ id t, s.tasks.find? id = some t → t.Final → s'.tasks.find? id = some t

/-- What may become of tasks from one store to the next. -/
structure Lives (grants : Task → TaskState → Prop) (s s' : Store) : Prop where
  /-- No task comes or goes. -/
  known : ∀ id, (s'.tasks.find? id).isSome = (s.tasks.find? id).isSome
  keeps : s.Keeps s'
  /-- A task that is in another state was granted to enter it. -/
  enters : ∀ id t t', s.tasks.find? id = some t → s'.tasks.find? id = some t' →
    t'.state ≠ t.state → t.state.Leads t'.state ∧ grants t t'.state

variable {grants : Task → TaskState → Prop} {s s₁ s₂ s' : Store}

theorem Keeps.refl (s : Store) : s.Keeps s := fun _ _ ht _ => ht

theorem Keeps.trans (h : s.Keeps s₁) (h' : s₁.Keeps s₂) : s.Keeps s₂ :=
  fun id t ht hfinal => h' id t (h id t ht hfinal) hfinal

theorem lives_of_tasks_eq (h : s'.tasks = s.tasks) : s.Lives grants s' := by
  refine ⟨fun id => by rw [h], fun id t ht _ => by rwa [h], fun id t t' ht ht' hne => ?_⟩
  rw [h, ht] at ht'
  cases ht'
  exact absurd rfl hne

/-- A record may be written over that of an open task, in the same state or in one that is granted. -/
theorem lives_put {t u : Task} (hu : s.tasks.find? t.id = some u) (hopen : ¬u.Final)
    (hstate : t.state ≠ u.state → u.state.Leads t.state ∧ grants u t.state) :
    s.Lives grants { s with tasks := s.tasks.put t } := by
  refine ⟨fun id => ?_, fun id v hv hfinal => ?_, fun id v v' hv hv' hne => ?_⟩
  · rw [Table.find?_put]
    split
    · rename_i hid
      rw [← hid, hu]
      rfl
    · rfl
  · rw [Table.find?_put, if_neg]
    · exact hv
    · rintro rfl
      rw [hu] at hv
      cases hv
      exact hopen hfinal
  · rw [Table.find?_put] at hv'
    split at hv'
    · rename_i hid
      rw [← hid, hu] at hv
      cases hv
      cases hv'
      exact hstate hne
    · rw [hv] at hv'
      cases hv'
      exact absurd rfl hne

end Store

/-! ### What steps do to tasks -/

/-- The step writes no record of a task. -/
def Step.SparesTasks : Step → Prop
  | .call (.putTask _) | .call (.setState _ _ _ _ _) => False
  | _ => True

theorem Step.Idle.sparesTasks {st : Step} (h : st.Idle) : st.SparesTasks := by
  cases st with
  | call c => cases c <;> first | exact h.elim | trivial
  | _ => trivial

theorem Step.IdleOr.sparesTasks {kinds : List CallKind} {st : Step} (h : st.IdleOr kinds)
    (hput : .putTask ∉ kinds) (hset : .setState ∉ kinds) : st.SparesTasks := by
  rcases h with h | ⟨c, rfl, hkind⟩
  · exact h.sparesTasks
  · cases c with
    | putTask t => exact absurd hkind hput
    | setState scope id state notes now => exact absurd hkind hset
    | _ => trivial

/-- Only the calls that write a task change the tasks. -/
theorem Exchange.tasks_eq {sound : CallKind → Prop} {x : Exchange} {s s' : Store}
    (hx : x.step.SparesTasks) (h : x.Carries sound s s') : s'.tasks = s.tasks := by
  obtain ⟨st, e⟩ := x
  cases st with
  | call c =>
      cases c with
      | putTask t => exact hx.elim
      | setState scope id state notes now => exact hx.elim
      | addDependency d =>
          rcases carries_addDependency h with ⟨-, hadd⟩ | ⟨_, -, rfl⟩
          · obtain ⟨-, -, -, rfl⟩ := Store.addDependency_eq_ok_iff.mp hadd
            rfl
          · rfl
      | removeDependency scope id =>
          rcases carries_removeDependency h with ⟨-, hremove⟩ | ⟨-, rfl⟩
          · obtain ⟨d, -, rfl⟩ := Store.removeDependency_eq_some_iff.mp hremove
            rfl
          · rfl
      | addChange c => rcases carries_addChange h with ⟨-, -, rfl⟩ | ⟨_, -, rfl⟩ <;> rfl
      | announce m => rcases carries_announce h with ⟨-, rfl⟩ | ⟨_, -, rfl⟩ <;> rfl
      | releaseParts tenant task =>
          cases h with
          | performed => rfl
          | failed => rfl
          | nothing _ _ _ _ hv => cases hv
      | _ =>
          obtain rfl := store_of_reads (by trivial) h
          rfl
  | _ =>
      obtain rfl := store_of_idle (by trivial) h
      rfl

/-! ### What a move may write -/

/-- The record is that of an open task, and so is the one that it may be written over. -/
def Store.Holds (s : Store) (t : Task) : Prop :=
  ¬t.Final ∧ ∃ u, s.tasks.find? t.id = some u ∧ u.state = t.state ∧ ¬u.Final

theorem Store.Holds.put {s : Store} {t t' : Task} (h : s.Holds t) (h' : s.Holds t') :
    Store.Holds { s with tasks := s.tasks.put t } t' := by
  obtain ⟨hopen, u, hu, hstate, -⟩ := h
  obtain ⟨hopen', u', hu', hstate', hopenu'⟩ := h'
  refine ⟨hopen', ?_⟩
  simp only [Table.find?_put]
  split
  · rename_i hid
    rw [← hid, hu] at hu'
    cases hu'
    exact ⟨t, rfl, hstate.symm.trans hstate', hopen⟩
  · exact ⟨u', hu', hstate', hopenu'⟩

/-- A task that is seen in a scope and open is not final. -/
theorem Store.not_final_of_task? {s : Store} {scope : Scope} {id : TaskId} {t : Task}
    (ht : s.task? scope id = some t) (hopen : t.state.isClosed = false) : ¬t.Final := by
  obtain ⟨-, -, hdeleted⟩ := Store.task?_eq_some_iff.mp ht
  simp [Task.Final, hopen, hdeleted]

/-- Whatever a move writes is a record of an open task in the state that it is in. -/
theorem Draft.Drawn.holds_of_writes {sound : Prop} {s : Store} {ctx : Context} {m : Move}
    {d : Draft} (h : d.Drawn sound s ctx m) {t : Task} (ht : d.Writes t) : s.Holds t := by
  obtain ⟨u, hu, hopen, heq⟩ := h.source_of_writes ht
  have hfinal : ¬u.Final := Store.not_final_of_task? hu hopen
  refine ⟨?_, u, (Store.task?_eq_some_iff.mp hu).1, ?_, hfinal⟩
  · rw [heq]
    exact hfinal
  · rw [heq]

/-- A step of a move leaves tasks in their states, and final tasks alone. -/
theorem Draft.Allows.lives {sound : CallKind → Prop} {grants : Task → TaskState → Prop} {d : Draft}
    {x : Exchange} {s s' : Store} (hx : d.Allows x.step) (hholds : ∀ t, d.Writes t → s.Holds t)
    (h : x.Carries sound s s') : s.Lives grants s' ∧ ∀ t, d.Writes t → s'.Holds t := by
  have hspared : x.step.SparesTasks → s.Lives grants s' ∧ ∀ t, d.Writes t → s'.Holds t := by
    intro hspares
    have htasks := Exchange.tasks_eq hspares h
    refine ⟨Store.lives_of_tasks_eq htasks, fun t ht => ?_⟩
    unfold Store.Holds
    rw [htasks]
    exact hholds t ht
  obtain ⟨st, e⟩ := x
  cases hx with
  | idle hidle => exact hspared hidle.sparesTasks
  | put ht =>
      rcases Exchange.carries_putTask h with ⟨-, rfl⟩ | ⟨_, -, rfl⟩
      · obtain ⟨-, u, hu, hstate, hopen⟩ := hholds _ ht
        exact ⟨Store.lives_put hu hopen fun hne => absurd hstate.symm hne,
          fun t' ht' => (hholds _ ht).put (hholds t' ht')⟩
      · exact ⟨Store.lives_of_tasks_eq rfl, hholds⟩
  | add ids => exact hspared trivial
  | announce m => exact hspared trivial

namespace World

variable {w : World} {q : Request}

/-- Steps that write no task leave all tasks as they are. -/
theorem isChain_of_sparesTasks {α : Type} {sound : CallKind → Prop} (hw : w.Within sound)
    {p : Program α} {grants : Task → TaskState → Prop}
    (h : ∀ x ∈ transcript p w, x.step.SparesTasks) :
    (trail p w).IsChain fun u v => u.store.Lives grants v.store := by
  refine isChain_trail (J := fun log _ => ∀ x ∈ log, x.step.SparesTasks) ?_ hw p h
  intro x log s s' hcarries hlog
  obtain ⟨hx, hlog⟩ := List.forall_mem_cons.mp hlog
  exact ⟨Store.lives_of_tasks_eq (Exchange.tasks_eq hx hcarries), hlog⟩

/-- A move leaves tasks in their states, and final tasks alone. -/
theorem isChain_of_allows {α : Type} {sound : CallKind → Prop} (hw : w.Within sound) {p : Program α}
    {grants : Task → TaskState → Prop} {d : Draft} {looked : Prop} {ctx : Context} {m : Move}
    (hdrawn : d.Drawn looked w.store ctx m) (h : ∀ x ∈ transcript p w, d.Allows x.step) :
    (trail p w).IsChain fun u v => u.store.Lives grants v.store := by
  refine isChain_trail (J := fun log s => (∀ x ∈ log, d.Allows x.step) ∧
    ∀ t, d.Writes t → s.Holds t) ?_ hw p ⟨h, fun t => hdrawn.holds_of_writes⟩
  rintro x log s s' hcarries ⟨hlog, hholds⟩
  obtain ⟨hx, hlog⟩ := List.forall_mem_cons.mp hlog
  obtain ⟨hlives, hholds'⟩ := hx.lives hholds hcarries
  exact ⟨hlives, hlog, hholds'⟩

/-- A transition lets its task enter its state, and leaves all else alone. -/
theorem isChain_of_transits {α : Type} {sound : CallKind → Prop} (hw : w.Within sound)
    {p : Program α} {setup : Setup} {ctx : Context} {id : TaskId} {target : TaskState}
    {c : Circumstances} {grants : Task → TaskState → Prop}
    (hgrants : ∀ t, t.id = id →
      Transition.check ctx.actor t target c setup.settings.tolerances = .ok () → grants t target)
    (h : Service.Transits setup ctx id target c w.store (transcript p w)) :
    (trail p w).IsChain fun u v => u.store.Lives grants v.store := by
  -- until the task enters its state, the tasks are what they were
  refine isChain_trail (J := fun log s => (∀ x ∈ log, x.step.SparesTasks) ∨
    s.tasks = w.store.tasks ∧ Service.Transits setup ctx id target c w.store log) ?_ hw p
    (.inr ⟨rfl, h⟩)
  have hspared : ∀ {log : List Exchange}, (∀ x ∈ log, x.step.IdleOr [.releaseParts]) →
      ∀ x ∈ log, x.step.SparesTasks :=
    fun hlog x hx => (hlog x hx).sparesTasks (by simp) (by simp)
  rintro x log s s' hcarries (hspares | ⟨hsame, htransits⟩)
  · obtain ⟨hx, hlog⟩ := List.forall_mem_cons.mp hspares
    exact ⟨Store.lives_of_tasks_eq (Exchange.tasks_eq hx hcarries), .inl hlog⟩
  generalize hwhole : x :: log = whole at htransits
  cases htransits with
  | stays hstays =>
      subst hwhole
      obtain ⟨hx, hlog⟩ := List.forall_mem_cons.mp (hspared hstays)
      exact ⟨Store.lives_of_tasks_eq (Exchange.tasks_eq hx hcarries), .inl hlog⟩
  | @enters t now pre post e ht hne hcheck hpre hpost =>
      cases pre with
      | cons y pre =>
          obtain ⟨rfl, rfl⟩ := List.cons.inj hwhole
          obtain ⟨hy, hpre'⟩ := List.forall_mem_cons.mp hpre
          have htasks := Exchange.tasks_eq (hy.sparesTasks (by simp) (by simp)) hcarries
          refine ⟨Store.lives_of_tasks_eq htasks, .inr ⟨htasks.trans hsame, ?_⟩⟩
          exact .enters ht hne hcheck hpre' hpost
      | nil =>
          obtain ⟨rfl, rfl⟩ := List.cons.inj hwhole
          refine ⟨?_, .inl fun x hx => (hpost x hx).sparesTasks (by simp) (by simp)⟩
          rcases Exchange.carries_setState hcarries with ⟨t', -, hset⟩ | ⟨-, rfl⟩
          swap
          · exact Store.lives_of_tasks_eq rfl
          obtain ⟨u, hu, rfl, rfl⟩ := Store.setState_eq_some_iff.mp hset
          obtain ⟨hfound, -, -⟩ := Store.task?_eq_some_iff.mp hu
          have hut : u = t := by
            rw [hsame, (Store.task?_eq_some_iff.mp ht).1] at hfound
            exact (Option.some.inj hfound).symm
          have hid := Store.id_eq_of_task? hu
          have hleads := Transition.leads_of_check hcheck hne
          subst hut
          rw [← hid] at hfound
          exact Store.lives_put hfound (Store.not_final_of_task? ht hleads.isOpen) fun _ =>
            ⟨hleads, hgrants u hid hcheck⟩

/-- What may become of tasks while a request is dealt with. -/
theorem lives_trail (w : World) (q : Request) :
    (trail q.service.run (w.facing q)).IsChain fun u v => u.store.Lives q.Grants v.store := by
  have hwithin := within_facing w q
  have hcourse := course_handle w q
  have honly := w.idleOr_transcriptOf q
  have hends := fun m => w.ends_of_reschedule (q := q) (m := m)
  obtain ⟨setup, ctx, operation, cancelled, faults, honest⟩ := q
  cases operation with
  | reschedule m =>
      obtain ⟨_, ⟨-, -, hidle⟩ | ⟨d, hdrawn, hallows, -⟩⟩ := hends m rfl
      · exact isChain_of_sparesTasks hwithin fun x hx => (hidle x hx).sparesTasks
      · exact isChain_of_allows hwithin hdrawn hallows
  | transition id target c =>
      obtain ⟨_, -, htransition⟩ := Service.course_map hcourse
      refine isChain_of_transits hwithin ?_ (Service.course_transition htransition)
      rintro t rfl hcheck
      exact ⟨c, rfl, hcheck⟩
  | _ =>
      exact isChain_of_sparesTasks hwithin fun x hx =>
        (honly x hx).sparesTasks (by simp [Operation.kinds]) (by simp [Operation.kinds])

/-- Whoever asks for whatever in a session, whatever fails, and whenever a caller gives up: a record
that is closed or deleted at some point is the same at all later points, and from each point to the
next a task changes its state only along one of the ways that there are, while a request is dealt with
that asks for just this and whose actor may do so. -/
theorem lives_session (w : World) (qs : List Request) :
    ((w.session qs).Pairwise fun u v => u.store.Keeps v.store) ∧
      (w.session qs).IsChain fun u v => u.store = v.store ∨
        ∃ before q after, qs = before ++ q :: after ∧
          u ∈ trail q.service.run ((w.after before).facing q) ∧
          v ∈ trail q.service.run ((w.after before).facing q) ∧
          u.store.Lives q.Grants v.store := by
  have htrail := fun before q after (_ : qs = before ++ q :: after) => lives_trail (w.after before) q
  refine ⟨?_, isChain_session (fun _ _ => .inl) fun before q after hqs => ?_⟩
  · have htrans : Trans (fun u v : World => u.store.Keeps v.store)
        (fun u v : World => u.store.Keeps v.store) fun u v : World => u.store.Keeps v.store :=
      ⟨Store.Keeps.trans⟩
    refine (isChain_session (fun u v huv => ?_) fun before q after hqs => ?_).pairwise
    · rw [← huv]
      exact .refl _
    · exact (htrail before q after hqs).imp fun _ _ h => h.keeps
  · refine (List.IsChain.iff_mem.mp (htrail before q after hqs)).imp ?_
    rintro u v ⟨hu, hv, hlives⟩
    exact .inr ⟨before, q, after, hqs, hu, hv, hlives⟩

end World

end Overhaul
