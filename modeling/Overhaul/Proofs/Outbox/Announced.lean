import Overhaul.Proofs.History
import Overhaul.Proofs.Outbox.Delivered
import Overhaul.Proofs.Task.Lifecycle

/-!
# What is announced

A move is announced when it is in the history, and a transition when the task has entered its state.
`Request.Reports` says what is announced in terms of the store that a request finds and the one that
it leaves. Main statement: the outbox is called for just that, once for each event, whatever goes
wrong with the request (`World.reports_handle`).
-/

namespace Overhaul

/-- What is announced of a change in the history, if it can be written. -/
def ScheduleChange.announcement? (c : ScheduleChange) : Option Message :=
  c.fields?.map fun fields =>
    .aboutTask c.tenant c.task "task.rescheduled" (.of (Fields.json fields))

/-- What is announced of a task that enters a state. -/
def Task.announcement (t : Task) (target : TaskState) (notes : String) : Message :=
  .aboutTask t.tenant t.id "task.state_changed"
    (.of (Service.transitionPayload t.id t.state target notes))

/-- The state of each task. -/
def Store.states (s : Store) (id : TaskId) : Option TaskState := (s.tasks.find? id).map Task.state

/-- What a request makes of the history and of the states of tasks, and what is announced of it. -/
inductive Request.Reports (q : Request) (s s' : Store) : List Message → Prop
  /-- Nothing happened that others have to know. -/
  | nothing : s'.changes = s.changes → s'.states = s.states → Reports q s s' []
  /-- The history has one more change. -/
  | moved {c : ScheduleChange} :
      s'.changes.rows = s.changes.rows ++ [c] → s'.states = s.states →
      Reports q s s' c.announcement?.toList
  /-- A task has entered another state, as was asked for. -/
  | entered {t : Task} {target : TaskState} {c : Circumstances} :
      q.operation = .transition t.id target c → s.tasks.find? t.id = some t → t.state ≠ target →
      s'.changes = s.changes → s'.states = Function.update s.states t.id (some target) →
      Reports q s s' [t.announcement target c.notes]

/-- What is announced is about a task. -/
theorem Request.Reports.about {q : Request} {s s' : Store} {ms : List Message}
    (h : q.Reports s s' ms) :
    ∀ m ∈ ms, ∃ tenant task event payload, m = .aboutTask tenant task event payload := by
  intro m hm
  cases h with
  | nothing => cases hm
  | @moved c =>
      rw [Option.mem_toList] at hm
      obtain ⟨fields, -, rfl⟩ := Option.map_eq_some_iff.mp hm
      exact ⟨_, _, _, _, rfl⟩
  | entered =>
      rw [List.mem_singleton.mp hm]
      exact ⟨_, _, _, _, rfl⟩

/-! ### Steps that announce nothing -/

/-- A step of other kinds puts nothing into the outbox. -/
theorem Step.IdleOr.message?_eq_none {kinds : List CallKind} (hkinds : .announce ∉ kinds)
    {st : Step} (h : st.IdleOr kinds) : st.message? = none := by
  rcases h with hidle | ⟨c, rfl, hkind⟩
  · cases st with
    | call c => cases c <;> first | rfl | exact hidle.elim
    | _ => rfl
  · cases c with
    | announce m => exact absurd hkind hkinds
    | _ => rfl

theorem attempted_eq_nil {kinds : List CallKind} (hkinds : .announce ∉ kinds) {log : List Exchange}
    (h : ∀ x ∈ log, x.step.IdleOr kinds) : attempted log = [] :=
  List.filterMap_eq_nil_iff.mpr fun x hx => (h x hx).message?_eq_none hkinds

theorem attempted_eq_nil_of_idle {log : List Exchange} (h : ∀ x ∈ log, x.step.Idle) :
    attempted log = [] :=
  attempted_eq_nil List.not_mem_nil fun x hx => .inl (h x hx)

theorem attempted_eq_nil_of_puts {d : Draft} {log : List Exchange} (h : ∀ x ∈ log, d.Puts x.step) :
    attempted log = [] := by
  have hkinds : CallKind.announce ∉ [CallKind.putTask] := by simp
  refine attempted_eq_nil hkinds fun x hx => ?_
  rcases h x hx with hstep | ⟨t, -, hstep⟩
  · exact .inl (hstep ▸ trivial)
  · exact hstep ▸ Step.idleOr_call (by simp [Call.kind])

namespace Service

variable {sound : CallKind → Prop} {s s' : Store} {log : List Exchange} {setup : Setup}

/-- The outbox is called once for an event that can be written. -/
theorem attempted_publish {tenant : TenantId} {task : TaskId} {eventType : String}
    {payload : Option Json} {r : Except Failure Unit} (hannounces : setup.announces = true)
    (h : Course sound (publish setup tenant task eventType payload) s log r s') :
    attempted log = (payload.map fun p => .aboutTask tenant task eventType (.of p)).toList := by
  cases payload with
  | none =>
      have hpure : publish setup tenant task eventType none = pure () := by simp [publish]
      rw [hpure] at h
      obtain ⟨rfl, -, -⟩ := course_pure h
      rfl
  | some p =>
      simp only [publish, hannounces] at h
      obtain ⟨_, -, hattempt⟩ := course_map h
      obtain ⟨e, rfl, -, -⟩ := course_attempt hattempt
      rfl

/-- A change is announced when it is in the history. -/
theorem reports_record {c : ScheduleChange} {r : Except Failure Unit}
    (hannounces : setup.announces = true) (h : Course sound (record setup c) s log r s') :
    (s'.changes = s.changes ∧ attempted log = []) ∨
      s'.changes.rows = s.changes.rows ++ [c] ∧ attempted log = c.announcement?.toList := by
  obtain ⟨f, hadd, -⟩ | ⟨_, log₁, log₂, s₁, hadd, hpublish, rfl⟩ := course_bind h
  · obtain ⟨e, rfl, hf, hx⟩ := course_ask hadd
    rcases Exchange.carries_addChange hx with ⟨rfl, -⟩ | ⟨cause, rfl, rfl⟩
    · cases hf
    · exact .inl ⟨rfl, rfl⟩
  · obtain ⟨rfl, hx⟩ := course_ask_ok hadd
    rcases Exchange.carries_addChange hx with ⟨-, hnew, rfl⟩ | ⟨cause, he, -⟩
    · obtain ⟨-, outbox, rfl⟩ := course_publish hpublish
      refine .inr ⟨Table.rows_put_of_find?_eq_none hnew, ?_⟩
      rw [attempted_append, attempted_publish hannounces hpublish, Option.map_map]
      rfl
    · cases he

/-- What carries a move out announces the change that it adds to the history. -/
theorem reports_carryOut {d : Draft} {r : Except Failure ScheduleChange}
    (hannounces : setup.announces = true) (h : Course sound (carryOut setup d) s log r s') :
    (s'.changes = s.changes ∧ attempted log = []) ∨
      ∃ c, s'.changes.rows = s.changes.rows ++ [c] ∧ attempted log = c.announcement?.toList := by
  rcases course_carryOut_cases h with ⟨cause, rfl, -, rfl⟩ |
    ⟨log₁, log₂, done, rfl, hputs, hdone, hend⟩
  · exact .inl ⟨rfl, rfl⟩
  rw [attempted_append, attempted_eq_nil_of_puts hputs, List.nil_append]
  rcases hend with ⟨rfl, hrecord⟩ | ⟨f, before, x, rfl, hx, rfl, hsettle⟩
  · obtain ⟨_, hrecord, -⟩ | ⟨_, log₃, log₄, s₁, hrecord, hpure, rfl⟩ := course_bind hrecord
    · exact (reports_record hannounces hrecord).imp_right fun h => ⟨_, h⟩
    · obtain ⟨rfl, -, rfl⟩ := course_pure hpure
      rw [List.append_nil]
      exact (reports_record hannounces hrecord).imp_right fun h => ⟨_, h⟩
  · unfold settle at hsettle
    split at hsettle
    · obtain ⟨_, -, houtcome⟩ := course_map hsettle
      obtain ⟨_, -, hrecord⟩ := course_outcome houtcome
      exact (reports_record hannounces hrecord).imp_right fun h => ⟨_, h⟩
    · have hsteps := hsettle.only (only_writeBack (P := Step.IdleOr [.putTask])
        (fun _ => Step.idleOr_call (List.mem_singleton_self _)) _)
      obtain ⟨-, -, back, -, rfl, -⟩ := course_writeBack hsettle
      exact .inl ⟨rfl, attempted_eq_nil (by simp) hsteps⟩

/-- The task that enters a state is the one that was found, or nothing happens. -/
theorem carries_enter {scope : Scope} {id : TaskId} {target : TaskState} {notes : String}
    {now : Timestamp} {t : Task} {e : Except CallError (Option Task)}
    (ht : s.task? scope id = some t)
    (h : Exchange.Carries sound
      ⟨.call (.setState (.only t.tenant) id target notes now), e⟩ s s') :
    (∃ t' : Task, e = .ok (some t') ∧ t'.tenant = t.tenant ∧ t'.state = target ∧
      s' = { s with tasks := s.tasks.put t' } ∧ t'.id = id) ∨ (∀ t', e ≠ .ok (some t')) ∧ s' = s := by
  have hid := Store.id_eq_of_task? ht
  obtain ⟨hfound, -, -⟩ := Store.task?_eq_some_iff.mp ht
  refine (Exchange.carries_setState h).imp_left ?_
  rintro ⟨t', he, hset⟩
  obtain ⟨u, hu, rfl, rfl⟩ := Store.setState_eq_some_iff.mp hset
  obtain rfl : t = u := by
    rw [(Store.task?_eq_some_iff.mp hu).1] at hfound
    exact (Option.some.inj hfound).symm
  exact ⟨_, he, rfl, rfl, rfl, hid⟩

/-- The task enters its state, which is announced, or stays in the one that it was in. -/
theorem reports_enter {ctx : Context} {id : TaskId} {target : TaskState} {c : Circumstances}
    {t : Task} {now : Timestamp} {r : Except Failure Task} (hannounces : setup.announces = true)
    (ht : s.task? ctx.scope id = some t)
    (h : Course sound (enter setup id target c t now) s log r s') :
    s'.changes = s.changes ∧ ((s'.states = s.states ∧ attempted log = []) ∨
      s'.states = Function.update s.states id (some target) ∧
        attempted log = [t.announcement target c.notes]) := by
  obtain ⟨_, hfail, -⟩ | ⟨found, log₁, log₂, s₁, hask, hrest, rfl⟩ := course_bind h
  · obtain ⟨e, rfl, hf, hx⟩ := course_ask hfail
    rcases carries_enter ht hx with ⟨t', rfl, -⟩ | ⟨-, rfl⟩
    · cases hf
    · exact ⟨rfl, .inl ⟨rfl, rfl⟩⟩
  obtain ⟨rfl, hx⟩ := course_ask_ok hask
  rcases carries_enter ht hx with ⟨t', he, htenant, rfl, rfl, rfl⟩ | ⟨hne, rfl⟩
  · cases he
    obtain ⟨_, log₃, log₄, s₂, hpublish, hpure, rfl⟩ :=
      course_bind_of_ok (fun h => ⟨(), (course_publish h).1⟩) hrest
    obtain ⟨rfl, -, rfl⟩ := course_pure hpure
    obtain ⟨-, outbox, rfl⟩ := course_publish hpublish
    refine ⟨rfl, .inr ⟨?_, ?_⟩⟩
    · funext id
      simp only [Store.states, Table.find?_put, Function.update_apply, eq_comm (a := id)]
      split <;> rfl
    · rw [List.append_nil, attempted_append, attempted_publish hannounces hpublish, htenant,
        Task.announcement, Store.id_eq_of_task? ht]
      rfl
  · cases found with
    | none =>
        obtain ⟨rfl, -, rfl⟩ := course_throw hrest
        exact ⟨rfl, .inl ⟨rfl, rfl⟩⟩
    | some updated => exact absurd rfl (hne updated)

end Service

/-! ### Requests -/

namespace World

/-- What is the same from each world of a run to the next is the same in all of them. -/
theorem eq_of_isChain_trail {α β : Type} {f : World → β} {p : Program α} {w : World}
    (h : (trail p w).IsChain fun u v => f v = f u) : ∀ v ∈ trail p w, f v = f w := by
  have htrans : Trans (fun u v : World => f v = f u) (fun u v : World => f v = f u)
      fun u v : World => f v = f u := ⟨fun h h' => h'.trans h⟩
  cases p with
  | done a =>
      intro v hv
      rw [List.mem_singleton.mp hv]
  | step st next =>
      intro v hv
      rcases List.mem_cons.mp hv with rfl | hv
      · rfl
      · exact List.rel_of_pairwise_cons h.pairwise hv

/-- Only a transition takes a task from one state to another. -/
theorem states_handle {w : World} {q : Request}
    (h : ∀ id target c, q.operation ≠ .transition id target c) :
    (w.handle q).2.store.states = w.store.states := by
  have hsame : (trail q.service.run (w.facing q)).IsChain fun u v =>
      v.store.states = u.store.states := by
    refine (lives_trail w q).imp fun u v hlives => funext fun id => ?_
    have hknown := hlives.known id
    unfold Store.states
    cases ht : u.store.tasks.find? id with
    | none =>
        rw [ht, Option.isSome_none, Option.isSome_eq_false_iff, Option.isNone_iff_eq_none] at hknown
        rw [hknown]
    | some t =>
        rw [ht] at hknown
        obtain ⟨t', ht'⟩ := Option.isSome_iff_exists.mp hknown
        rw [ht']
        by_contra hne
        obtain ⟨-, c, hop, -⟩ := hlives.enters id t t' ht ht' fun hstate => hne (by simp [hstate])
        exact h _ _ _ hop
  exact eq_of_isChain_trail hsame _ (run_mem_trail _ _)

/-- The outbox is called once for a change that a request adds to the history and once for a task
that it takes to another state, and for nothing else, whatever goes wrong. -/
theorem reports_handle (w : World) (q : Request) (hannounces : q.setup.announces = true) :
    q.Reports w.store (w.handle q).2.store (attempted (w.transcriptOf q)) := by
  have hcourse := course_handle w q
  have honly := w.idleOr_transcriptOf q
  by_cases htransition : ∃ id target c, q.operation = .transition id target c
  · obtain ⟨id, target, c, hop⟩ := htransition
    rw [Request.service, hop] at hcourse
    obtain ⟨_, -, hcourse⟩ := Service.course_map hcourse
    cases Service.course_transition_cases hcourse with
    | stays hlog hs =>
        rw [attempted_eq_nil (by simp) hlog, hs]
        exact .nothing rfl rfl
    | @enters t now pre mid post ht hne hcheck hlog hpre hpost henter =>
        obtain rfl := Store.id_eq_of_task? ht
        rw [hlog, attempted_append, attempted_append, attempted_eq_nil (by simp) hpre,
          attempted_eq_nil_of_idle hpost, List.append_nil, List.nil_append]
        obtain ⟨hchanges, ⟨hstates, hnone⟩ | ⟨hstates, hone⟩⟩ :=
          Service.reports_enter hannounces ht henter
        · rw [hnone]
          exact .nothing hchanges hstates
        · rw [hone]
          exact .entered hop (Store.task?_eq_some_iff.mp ht).1 hne hchanges hstates
  have hstates := states_handle (w := w) fun id target c hop => htransition ⟨id, target, c, hop⟩
  by_cases hmove : ∃ m, q.operation = .reschedule m
  · obtain ⟨m, hop⟩ := hmove
    rw [Request.service, hop] at hcourse
    obtain ⟨_, -, hcourse⟩ := Service.course_map hcourse
    rcases Service.course_reschedule_cases hcourse with
      ⟨-, hs, hidle⟩ | ⟨d, pre, mid, post, -, hlog, hidle, hcarry⟩
    · rw [attempted_eq_nil_of_idle hidle, hs]
      exact .nothing rfl rfl
    · obtain ⟨hpre, hpost⟩ := List.forall_mem_append.mp hidle
      rw [hlog, attempted_append, attempted_append, attempted_eq_nil_of_idle hpre,
        attempted_eq_nil_of_idle hpost, List.append_nil, List.nil_append]
      rcases Service.reports_carryOut hannounces hcarry with ⟨hchanges, hnone⟩ | ⟨c, hrows, hone⟩
      · rw [hnone]
        exact .nothing hchanges hstates
      · rw [hone]
        exact .moved hrows hstates
  · have hkinds : .announce ∉ q.operation.kinds ∧ .putTask ∉ q.operation.kinds ∧
        .addChange ∉ q.operation.kinds := by
      cases hop : q.operation with
      | reschedule m => exact absurd ⟨m, hop⟩ hmove
      | transition id target c => exact absurd ⟨id, target, c, hop⟩ htransition
      | _ => simp [Operation.kinds]
    obtain ⟨hannounce, hput, hadd⟩ := hkinds
    rw [attempted_eq_nil hannounce honly]
    exact .nothing (hcourse.sameWindows honly hput hadd).1 hstates

end World

end Overhaul
