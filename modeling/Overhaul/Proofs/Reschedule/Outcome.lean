import Overhaul.Proofs.Reschedule.Draft

/-!
# How a move ends

What was decided is carried out, as far as the calls succeed. `Draft.Allows` says which steps carry it
out, and `Draft.Carried` what they leave. Main statement: a move either fails and leaves the store
alone, or carries out what was decided (`course_reschedule`).
-/

namespace Overhaul

/-- The exchange puts an end to a cascade: a record cannot be written, or the caller has given up. -/
inductive Exchange.Stops : Exchange → Prop
  | failed (t : Task) (cause : CallError) : Stops ⟨.call (.putTask t), .error cause⟩
  | cancelled : Stops ⟨.isCancelled, true⟩

/-- After something had put an end to a cascade, a record could not be written back. -/
def Unrestored (log : List Exchange) : Prop :=
  ∃ before x after, log = before ++ x :: after ∧ x.Stops ∧
    ∃ t cause, (⟨.call (.putTask t), .error cause⟩ : Exchange) ∈ after

theorem Unrestored.append {log : List Exchange} (h : Unrestored log) (pre post : List Exchange) :
    Unrestored (pre ++ log ++ post) := by
  obtain ⟨before, x, after, rfl, hx, t, cause, hmem⟩ := h
  refine ⟨pre ++ before, x, after ++ post, by simp, hx, t, cause, ?_⟩
  exact List.mem_append_left _ hmem

namespace Draft

/-- A step that may be taken to carry it out. -/
inductive Allows (d : Draft) : Step → Prop
  | idle {st : Step} : st.Idle → Allows d st
  | put {t : Task} : d.Writes t → Allows d (.call (.putTask t))
  | add (ids : List TaskId) : Allows d (.call (.addChange { d.change with affected := ids }))
  | announce (m : Message) : Allows d (.call (.announce m))

/-- A step with which a record is written, or before which the caller could still give up. -/
def Puts (d : Draft) (st : Step) : Prop :=
  st = .isCancelled ∨ ∃ t, d.Writes t ∧ st = .call (.putTask t)

theorem Puts.allows {d : Draft} {st : Step} (h : d.Puts st) : d.Allows st := by
  rcases h with rfl | ⟨t, ht, rfl⟩
  · exact .idle trivial
  · exact .put ht

theorem Allows.of_record {d : Draft} {done : List Shift} {st : Step}
    (h : st = .call (.addChange (d.record done)) ∨ ∃ m, st = .call (.announce m)) : d.Allows st := by
  rcases h with rfl | ⟨m, rfl⟩
  · exact .add _
  · exact .announce m

/-- How carrying it out may end, and in which store. -/
inductive Carried (d : Draft) (s : Store) (log : List Exchange) :
    Except Failure ScheduleChange → Store → Prop
  /-- Not even the first record could be written. -/
  | refused (failure : Failure) : Carried d s log (.error failure) s
  /-- What was written is in the history: all of it, or what was written before something failed. -/
  | recorded {done : List Shift} {r : Except Failure ScheduleChange} (outbox : Outbox) :
      done <+: d.shifts → r = .ok (d.record done) ∧ done = d.shifts ∨ (∃ f, r = .error f) →
      s.changes.find? d.change.id = none →
      Carried d s log r { s with
        tasks := s.tasks.putAll (d.written done)
        changes := s.changes.put (d.record done)
        outbox }
  /-- What was written could not be recorded. -/
  | unrecorded {done : List Shift} (failure : Failure) {c : ScheduleChange} {cause : CallError} :
      done <+: d.shifts → (⟨.call (.addChange c), .error cause⟩ : Exchange) ∈ log →
      Carried d s log (.error failure) { s with tasks := s.tasks.putAll (d.written done) }
  /-- What was written was written back, as far as this was possible. -/
  | restored {done : List Shift} {back : List Task} (failure : Failure) :
      done <+: d.shifts → back.Sublist (d.restores done) →
      (back = d.restores done ∨ Unrestored log) →
      Carried d s log (.error failure) { s with
        tasks := (s.tasks.putAll (d.written done)).putAll back }

theorem Carried.append {d : Draft} {s s' : Store} {log : List Exchange}
    {r : Except Failure ScheduleChange} (h : d.Carried s log r s') (pre post : List Exchange) :
    d.Carried s (pre ++ log ++ post) r s' := by
  cases h with
  | refused failure => exact .refused failure
  | recorded outbox hdone hr hnew => exact .recorded outbox hdone hr hnew
  | unrecorded failure hdone hmem =>
      exact .unrecorded failure hdone (List.mem_append_left _ (List.mem_append_right _ hmem))
  | restored failure hdone hback hall =>
      exact .restored failure hdone hback (hall.imp_right fun h => h.append pre post)

/-- When all goes well, everything was written and recorded. -/
theorem Carried.of_ok {d : Draft} {s s' : Store} {log : List Exchange} {change : ScheduleChange}
    (h : d.Carried s log (.ok change) s') : change = d.record d.shifts ∧ ∃ outbox, s' = { s with
      tasks := s.tasks.putAll (d.written d.shifts)
      changes := s.changes.put (d.record d.shifts)
      outbox } := by
  cases h with
  | recorded outbox hdone hr hnew =>
      rcases hr with ⟨hr, rfl⟩ | ⟨_, hr⟩
      · exact ⟨Except.ok.inj hr, outbox, rfl⟩
      · cases hr

end Draft

/-- How a move may end: it fails and leaves the store alone, or what was decided is carried out. -/
def Move.Ends (sound : Prop) (s : Store) (ctx : Context) (m : Move) (log : List Exchange)
    (r : Except Failure ScheduleChange) (s' : Store) : Prop :=
  ((∃ f, r = .error f) ∧ s' = s ∧ ∀ x ∈ log, x.step.Idle) ∨
    ∃ d : Draft, d.Drawn sound s ctx m ∧ (∀ x ∈ log, d.Allows x.step) ∧ d.Carried s log r s'

/-- How a move may unfold: it fails and leaves the store alone, or what was decided is carried out,
with idle steps before and after. -/
def Move.Unfolds (sound : CallKind → Prop) (setup : Setup) (s : Store) (ctx : Context) (m : Move)
    (log : List Exchange) (r : Except Failure ScheduleChange) (s' : Store) : Prop :=
  ((∃ f, r = .error f) ∧ s' = s ∧ ∀ x ∈ log, x.step.Idle) ∨
    ∃ (d : Draft) (pre mid post : List Exchange), d.Drawn (sound .task) s ctx m ∧
      log = pre ++ mid ++ post ∧ (∀ x ∈ pre ++ post, x.step.Idle) ∧
      Service.Course sound (Service.carryOut setup d) s mid r s'

/-- Idle steps before and after change nothing about how a move unfolds. -/
theorem Move.Unfolds.append {sound : CallKind → Prop} {setup : Setup} {s s' : Store} {ctx : Context}
    {m : Move} {log : List Exchange} {r : Except Failure ScheduleChange}
    (h : m.Unfolds sound setup s ctx log r s') {pre post : List Exchange}
    (hpre : ∀ x ∈ pre, x.step.Idle) (hpost : ∀ x ∈ post, x.step.Idle) :
    m.Unfolds sound setup s ctx (pre ++ log ++ post) r s' := by
  rcases h with ⟨hr, hs, hidle⟩ | ⟨d, pre', mid, post', hdrawn, rfl, hidle, hcarry⟩
  · refine .inl ⟨hr, hs, ?_⟩
    simp only [List.forall_mem_append]
    exact ⟨⟨hpre, hidle⟩, hpost⟩
  · refine .inr ⟨d, pre ++ pre', mid, post' ++ post, hdrawn, by simp, ?_, hcarry⟩
    simp only [List.forall_mem_append] at hidle ⊢
    exact ⟨⟨hpre, hidle.1⟩, hidle.2, hpost⟩

namespace Service

variable {sound : CallKind → Prop} {s s' : Store} {log : List Exchange}

/-- A record that is written is in its place, or a failure is heard of. -/
theorem course_put {t : Task} {r : Except Failure Unit}
    (h : Course sound (ask (.putTask t)) s log r s') :
    (log = [⟨.call (.putTask t), .ok ()⟩] ∧ r = .ok () ∧ s' = { s with tasks := s.tasks.put t }) ∨
      ∃ cause, log = [⟨.call (.putTask t), .error cause⟩] ∧ r = .error (.store cause) ∧ s' = s := by
  obtain ⟨e, rfl, rfl, hx⟩ := course_ask h
  rcases Exchange.carries_putTask hx with ⟨rfl, rfl⟩ | ⟨cause, rfl, rfl⟩
  · exact .inl ⟨rfl, rfl, rfl⟩
  · exact .inr ⟨cause, rfl, rfl, rfl⟩

/-- A record of a cascade is in its place, or the cascade has come to an end. -/
theorem course_ensureActive_put {t : Task} {r : Except Failure Unit}
    (h : Course sound (do ensureActive; ask (.putTask t)) s log r s') :
    (∀ x ∈ log, x.step = .isCancelled ∨ x.step = .call (.putTask t)) ∧
      ((r = .ok () ∧ s' = { s with tasks := s.tasks.put t }) ∨
        ∃ f before x, r = .error f ∧ s' = s ∧ log = before ++ [x] ∧ x.Stops) := by
  obtain ⟨f, hactive, rfl⟩ | ⟨_, log₁, log₂, s₁, hactive, hput, rfl⟩ := course_bind h
  · obtain ⟨rfl, ⟨rfl, -⟩ | ⟨-, hr⟩⟩ := course_ensureActive hactive
    · exact ⟨by simp, .inr ⟨f, [], _, rfl, rfl, rfl, .cancelled⟩⟩
    · cases hr
  · obtain ⟨rfl, ⟨-, hr⟩ | ⟨rfl, -⟩⟩ := course_ensureActive hactive
    · cases hr
    · rcases course_put hput with ⟨rfl, rfl, rfl⟩ | ⟨cause, rfl, rfl, rfl⟩
      · exact ⟨by simp, .inl ⟨rfl, rfl⟩⟩
      · exact ⟨by simp, .inr ⟨_, [_], _, rfl, rfl, rfl, .failed t cause⟩⟩

/-- Some of the tasks at the head of a cascade are moved, the first one first, until something puts
an end to it. -/
theorem course_writeCascade {d : Draft} {shifts : List Shift}
    {r : Except Failure (List Task × Option Failure)}
    (hmem : ∀ x ∈ shifts, x ∈ d.shifts)
    (h : Course sound (writeCascade shifts) s log r s') :
    (∀ x ∈ log, d.Puts x.step) ∧ ∃ done failure, done <+: shifts ∧
      r = .ok (done.map Shift.before, failure) ∧
      s' = { s with tasks := s.tasks.putAll (done.map Shift.after) } ∧
      (failure = none ∧ done = shifts ∨
        ∃ f before x, failure = some f ∧ log = before ++ [x] ∧ x.Stops) := by
  induction shifts generalizing s s' log r with
  | nil =>
      obtain ⟨rfl, rfl, rfl⟩ := course_pure h
      exact ⟨by simp, [], none, List.prefix_rfl, rfl, rfl, .inl ⟨rfl, rfl⟩⟩
  | cons shift rest ih =>
      have hshift := hmem shift List.mem_cons_self
      obtain ⟨e, log₁, log₂, s₁, hhead, hrest, rfl⟩ := course_outcome_bind h
      obtain ⟨hsteps, hone⟩ := course_ensureActive_put hhead
      have hputs : ∀ x ∈ log₁, d.Puts x.step := fun x hx =>
        (hsteps x hx).imp_right fun h => ⟨_, .inr (.inr ⟨shift, hshift, .inr rfl⟩), h⟩
      rcases hone with ⟨rfl, rfl⟩ | ⟨f, before, x, rfl, rfl, rfl, hx⟩
      · have hmem' : ∀ x ∈ rest, x ∈ d.shifts := fun x hx => hmem x (List.mem_cons_of_mem _ hx)
        obtain ⟨e, log₃, log₄, s₂, htail, hpure, rfl⟩ := course_bind_of_ok (fun h => by
          obtain ⟨-, done, failure, -, he, -⟩ := ih hmem' h
          exact ⟨_, he⟩) hrest
        obtain ⟨hputs', done, failure, hdone, he, rfl, hend⟩ := ih hmem' htail
        cases he
        obtain ⟨rfl, rfl, rfl⟩ := course_pure hpure
        refine ⟨?_, shift :: done, failure, ?_, rfl, rfl, ?_⟩
        · intro x hx
          rw [List.append_nil] at hx
          exact (List.mem_append.mp hx).elim (hputs x) (hputs' x)
        · exact List.cons_prefix_cons.mpr ⟨rfl, hdone⟩
        · rcases hend with ⟨rfl, rfl⟩ | ⟨f, before, x, rfl, rfl, hx⟩
          · exact .inl ⟨rfl, rfl⟩
          · exact .inr ⟨f, log₁ ++ before, x, rfl, by simp, hx⟩
      · obtain ⟨rfl, rfl, rfl⟩ := course_pure hrest
        rw [List.append_nil]
        exact ⟨hputs, [], some f, List.nil_prefix, rfl, rfl, .inr ⟨f, before, x, rfl, rfl, hx⟩⟩

/-- A change that is recorded has a new identifier, or a failure is heard of. -/
theorem course_record {setup : Setup} {c : ScheduleChange} {r : Except Failure Unit}
    (h : Course sound (record setup c) s log r s') :
    (∀ x ∈ log, x.step = .call (.addChange c) ∨ ∃ m, x.step = .call (.announce m)) ∧
      ((r = .ok () ∧ s.changes.find? c.id = none ∧
          ∃ outbox, s' = { s with changes := s.changes.put c, outbox }) ∨
        ∃ cause, r = .error (.store cause) ∧ s' = s ∧
          log = [⟨.call (.addChange c), .error cause⟩]) := by
  obtain ⟨f, hadd, rfl⟩ | ⟨_, log₁, log₂, s₁, hadd, hpublish, rfl⟩ := course_bind h
  · obtain ⟨e, rfl, hf, hx⟩ := course_ask hadd
    rcases Exchange.carries_addChange hx with ⟨rfl, -⟩ | ⟨cause, rfl, rfl⟩
    · cases hf
    · cases hf
      exact ⟨by simp, .inr ⟨cause, rfl, rfl, rfl⟩⟩
  · obtain ⟨e, rfl, he, hx⟩ := course_ask hadd
    rcases Exchange.carries_addChange hx with ⟨rfl, hnew, rfl⟩ | ⟨cause, rfl, rfl⟩
    · obtain ⟨rfl, outbox, rfl⟩ := course_publish hpublish
      refine ⟨?_, .inl ⟨rfl, hnew, outbox, rfl⟩⟩
      intro x hx
      rcases List.mem_append.mp hx with hx | hx
      · exact .inl (by rw [List.mem_singleton.mp hx])
      · exact .inr (hpublish.only (P := fun st => ∃ m, st = .call (.announce m))
          (only_publish (fun m => ⟨m, rfl⟩) _ _ _ _ _) x hx)
    · cases he

/-- The records that can be written back are in their places again, in order; when one of them
cannot, a failure is heard of. -/
theorem course_writeBack {ts : List Task} {r : Except Failure Unit}
    (h : Course sound (writeBack ts) s log r s') :
    (∀ x ∈ log, ∃ t ∈ ts, x.step = .call (.putTask t)) ∧ r = .ok () ∧ ∃ back : List Task,
      back.Sublist ts ∧ s' = { s with tasks := s.tasks.putAll back } ∧
      (back = ts ∨ ∃ t cause, (⟨.call (.putTask t), .error cause⟩ : Exchange) ∈ log) := by
  induction ts generalizing s log r with
  | nil =>
      obtain ⟨rfl, rfl, rfl⟩ := course_pure h
      exact ⟨by simp, rfl, [], List.Sublist.refl _, rfl, .inl rfl⟩
  | cons t rest ih =>
      obtain ⟨_, log₁, log₂, s₁, hput, hrest, rfl⟩ := course_bind_of_ok (fun h => by
        obtain ⟨_, he, hattempt⟩ := course_map h
        obtain ⟨_, -, rfl, -⟩ := course_attempt hattempt
        exact ⟨_, he⟩) h
      obtain ⟨_, -, hattempt⟩ := course_map hput
      obtain ⟨e, rfl, -, hx⟩ := course_attempt hattempt
      obtain ⟨hsteps, rfl, back, hback, rfl, hall⟩ := ih hrest
      have hsteps' : ∀ x ∈ [(⟨.call (.putTask t), e⟩ : Exchange)] ++ log₂,
          ∃ u ∈ t :: rest, x.step = .call (.putTask u) := by
        intro x hx
        rcases List.mem_append.mp hx with hx | hx
        · exact ⟨t, List.mem_cons_self, by rw [List.mem_singleton.mp hx]⟩
        · obtain ⟨u, hu, hstep⟩ := hsteps x hx
          exact ⟨u, List.mem_cons_of_mem _ hu, hstep⟩
      refine ⟨hsteps', rfl, ?_⟩
      rcases Exchange.carries_putTask hx with ⟨rfl, rfl⟩ | ⟨cause, rfl, rfl⟩
      · refine ⟨t :: back, hback.cons_cons t, rfl, ?_⟩
        rcases hall with rfl | ⟨u, cause, hu⟩
        · exact .inl rfl
        · exact .inr ⟨u, cause, List.mem_append_right _ hu⟩
      · exact ⟨back, hback.cons t, rfl, .inr ⟨t, cause, by simp⟩⟩

/-- A cascade that went through is recorded, unless this fails. -/
theorem course_record_all {setup : Setup} {d : Draft} {r : Except Failure ScheduleChange}
    (h : Course sound (do record setup (d.record d.shifts); return d.record d.shifts)
      { s with tasks := s.tasks.putAll (d.written d.shifts) } log r s') :
    (∀ x ∈ log, d.Allows x.step) ∧ d.Carried s log r s' := by
  obtain ⟨f, hrecord, rfl⟩ | ⟨_, log₁, log₂, s₁, hrecord, hpure, rfl⟩ := course_bind h
  · obtain ⟨hsteps, ⟨hr, -⟩ | ⟨cause, -, rfl, rfl⟩⟩ := course_record hrecord
    · cases hr
    · refine ⟨fun x hx => .of_record (hsteps x hx), ?_⟩
      exact .unrecorded f List.prefix_rfl List.mem_cons_self
  · obtain ⟨rfl, rfl, rfl⟩ := course_pure hpure
    rw [List.append_nil]
    obtain ⟨hsteps, ⟨-, hnew, outbox, rfl⟩ | ⟨cause, hr, -⟩⟩ := course_record hrecord
    · refine ⟨fun x hx => .of_record (hsteps x hx), ?_⟩
      exact .recorded outbox List.prefix_rfl (.inl ⟨rfl, rfl⟩) hnew
    · cases hr

/-- A cascade to which something put an end is recorded as far as it went, or taken back. Neither
can fail. -/
theorem course_settle {setup : Setup} {d : Draft} {done : List Shift} (hdone : done <+: d.shifts)
    (before : List Exchange) {x : Exchange} (hx : x.Stops) (f : Failure) {r : Except Failure Unit}
    (h : Course sound (settle setup d.root d.change (done.map Shift.before))
      { s with tasks := s.tasks.putAll (d.written done) } log r s') :
    r = .ok () ∧ (∀ y ∈ log, d.Allows y.step) ∧ d.Carried s (before ++ x :: log) (.error f) s' := by
  unfold settle at h
  split at h
  · obtain ⟨_, rfl, hrecord⟩ := course_map h
    obtain ⟨_, rfl, hrecord'⟩ := course_outcome hrecord
    have hids : (done.map Shift.before).map Task.id = done.map Shift.id := List.map_map
    rw [hids] at hrecord'
    obtain ⟨hsteps, hend⟩ := course_record hrecord'
    refine ⟨rfl, fun y hy => .of_record (hsteps y hy), ?_⟩
    rcases hend with ⟨rfl, hnew, outbox, rfl⟩ | ⟨cause, rfl, rfl, rfl⟩
    · exact .recorded outbox hdone (.inr ⟨f, rfl⟩) hnew
    · have hlast : ∀ y : Exchange, y ∈ before ++ [x, y] := by simp
      exact .unrecorded f hdone (hlast _)
  · obtain ⟨hsteps, rfl, back, hback, rfl, hall⟩ := course_writeBack h
    refine ⟨rfl, fun y hy => ?_, .restored f hdone hback ?_⟩
    · obtain ⟨t, ht, hstep⟩ := hsteps y hy
      rw [hstep]
      exact .put (d.writes_of_mem_restores hdone ht)
    · exact hall.imp_right fun hfail => ⟨before, x, log, rfl, hx, hfail⟩

/-- How carrying it out can go: not even the first record can be written; or everything is written,
and then recorded; or something puts an end to the cascade, and is then dealt with. -/
theorem course_carryOut_cases {setup : Setup} {d : Draft} {r : Except Failure ScheduleChange}
    (h : Course sound (carryOut setup d) s log r s') :
    (∃ cause, log = [⟨.call (.putTask d.moved), .error cause⟩] ∧ r = .error (.store cause) ∧
      s' = s) ∨
    ∃ log₁ log₂ done, log = log₁ ++ log₂ ∧ (∀ x ∈ log₁, d.Puts x.step) ∧ done <+: d.shifts ∧
      (done = d.shifts ∧ Course sound (do record setup (d.record done); return d.record done)
          { s with tasks := s.tasks.putAll (d.written done) } log₂ r s' ∨
        ∃ f before x, log₁ = before ++ [x] ∧ x.Stops ∧ r = .error f ∧
          Course sound (settle setup d.root d.change (done.map Shift.before))
            { s with tasks := s.tasks.putAll (d.written done) } log₂ (.ok ()) s') := by
  obtain ⟨f, hroot, rfl⟩ | ⟨_, log₁, log₂, s₁, hroot, hrest, rfl⟩ := course_bind h
  · rcases course_put hroot with ⟨-, hr, -⟩ | ⟨cause, rfl, hr, rfl⟩
    · cases hr
    · cases hr
      exact .inl ⟨cause, rfl, rfl, rfl⟩
  obtain ⟨rfl, -, rfl⟩ | ⟨_, -, hr, -⟩ := course_put hroot
  swap
  · cases hr
  obtain ⟨p, log₃, log₄, s₂, hcascade, hend, rfl⟩ := course_bind_of_ok (fun h => by
    obtain ⟨-, _, _, -, hr, -⟩ := course_writeCascade (d := d) (fun _ hx => hx) h
    exact ⟨_, hr⟩) hrest
  obtain ⟨hsteps, done, failure, hdone, hp, rfl, hstop⟩ :=
    course_writeCascade (fun _ hx => hx) hcascade
  cases hp
  have hputs : ∀ x ∈ (⟨.call (.putTask d.moved), .ok ()⟩ : Exchange) :: log₃, d.Puts x.step :=
    List.forall_mem_cons.mpr ⟨.inr ⟨_, .inl rfl, rfl⟩, hsteps⟩
  refine .inr ⟨_ :: log₃, log₄, done, rfl, hputs, hdone, ?_⟩
  rcases hstop with ⟨rfl, rfl⟩ | ⟨f, before, x, rfl, rfl, hx⟩
  · have hids : (d.shifts.map Shift.before).map Task.id = d.shifts.map Shift.id := List.map_map
    dsimp only at hend
    rw [hids] at hend
    exact .inl ⟨rfl, hend⟩
  · obtain ⟨_, log₅, log₆, s₃, hsettle, hthrow, rfl⟩ := course_bind_of_ok (fun h =>
      ⟨(), (course_settle hdone before hx f h).1⟩) hend
    obtain ⟨rfl, rfl, rfl⟩ := course_throw hthrow
    rw [List.append_nil]
    exact .inr ⟨f, _ :: before, x, rfl, hx, rfl, hsettle⟩

/-- What was decided is carried out, as far as the calls succeed. -/
theorem course_carryOut {setup : Setup} {d : Draft} {r : Except Failure ScheduleChange}
    (h : Course sound (carryOut setup d) s log r s') :
    (∀ x ∈ log, d.Allows x.step) ∧ d.Carried s log r s' := by
  rcases course_carryOut_cases h with ⟨cause, rfl, rfl, rfl⟩ |
    ⟨log₁, log₂, done, rfl, hputs, hdone, hend⟩
  · exact ⟨List.forall_mem_singleton.mpr (.put (.inl rfl)), .refused _⟩
  have hallows : (∀ x ∈ log₂, d.Allows x.step) → ∀ x ∈ log₁ ++ log₂, d.Allows x.step :=
    fun hlast x hx => (List.mem_append.mp hx).elim (fun hx => (hputs x hx).allows) (hlast x)
  rcases hend with ⟨rfl, hrecord⟩ | ⟨f, before, x, rfl, hx, rfl, hsettle⟩
  · obtain ⟨hlast, hcarried⟩ := course_record_all hrecord
    refine ⟨hallows hlast, ?_⟩
    simpa using hcarried.append log₁ []
  · obtain ⟨-, hlast, hcarried⟩ := course_settle hdone before hx f hsettle
    refine ⟨hallows hlast, ?_⟩
    simpa using hcarried

/-- A move unfolds as what follows its first reading does, or fails before that. -/
theorem unfolds_of_reads {α : Type} {setup : Setup} {ctx : Context} {m : Move} {p : Service α}
    {f : α → Service ScheduleChange} {r : Except Failure ScheduleChange} (hp : Only Step.Reads p)
    (h : Course sound (p >>= f) s log r s')
    (hf : ∀ a log₁ log₂, Course sound p s log₁ (.ok a) s → Course sound (f a) s log₂ r s' →
      m.Unfolds sound setup s ctx log₂ r s') : m.Unfolds sound setup s ctx log r s' := by
  rcases course_bind_of_reads hp h with ⟨⟨e, -, hr⟩, hs, hidle⟩ | ⟨a, log₁, log₂, h₁, h₂, hidle, rfl⟩
  · exact .inl ⟨⟨e, hr⟩, hs, hidle⟩
  · have hnone : ∀ x ∈ ([] : List Exchange), x.step.Idle := by simp
    simpa using (hf a log₁ log₂ h₁ h₂).append hidle hnone

/-- A move fails and leaves the store alone, or carries out what was decided. -/
theorem course_reschedule_cases {setup : Setup} {ctx : Context} {m : Move}
    {r : Except Failure ScheduleChange} (h : Course sound (reschedule setup ctx m) s log r s') :
    m.Unfolds sound setup s ctx log r s' := by
  refine unfolds_of_reads (only_ofExcept _) h fun window _ log₁ hbetween h₁ => ?_
  obtain ⟨-, hwindow, -⟩ := course_ofExcept hbetween
  have hfail : ∀ f : Failure, m.Unfolds sound setup s ctx [] (.error f) s :=
    fun f => .inl ⟨⟨f, rfl⟩, rfl, by simp⟩
  rcases course_guard h₁ with ⟨rfl, rfl, rfl⟩ | ⟨-, h₂⟩
  · exact hfail _
  refine unfolds_of_reads (only_visibleTask trivial) h₂ fun t _ log₂ _ h₃ => ?_
  rcases course_guard h₃ with ⟨rfl, rfl, rfl⟩ | ⟨-, h₄⟩
  · exact hfail _
  refine unfolds_of_reads (only_ensureOpen t) h₄ fun _ _ log₃ _ h₅ => ?_
  obtain ⟨log₄, rfl, hlocked⟩ := course_locked h₅
  have hunfolds : m.Unfolds sound setup s ctx log₄ r s' := by
    refine unfolds_of_reads (only_draft ctx m window _) hlocked fun d _ log₅ hdraft hcarry => ?_
    exact .inr ⟨d, [], log₅, [], (course_draft hwindow.symm hdraft).2, by simp, by simp, hcarry⟩
  have hlock : ∀ x ∈ [(⟨.lock t.tenant, ()⟩ : Exchange)], x.step.Idle :=
    List.forall_mem_singleton.mpr trivial
  have hunlock : ∀ x ∈ [(⟨.unlock t.tenant, ()⟩ : Exchange)], x.step.Idle :=
    List.forall_mem_singleton.mpr trivial
  simpa using hunfolds.append hlock hunlock

/-- A move fails and leaves the store alone, or ends as what was decided is carried out. -/
theorem course_reschedule {setup : Setup} {ctx : Context} {m : Move}
    {r : Except Failure ScheduleChange} (h : Course sound (reschedule setup ctx m) s log r s') :
    m.Ends (sound .task) s ctx log r s' := by
  rcases course_reschedule_cases h with hfail | ⟨d, pre, mid, post, hdrawn, rfl, hidle, hcarry⟩
  · exact .inl hfail
  obtain ⟨hallows, hcarried⟩ := course_carryOut hcarry
  refine .inr ⟨d, hdrawn, ?_, hcarried.append pre post⟩
  simp only [List.forall_mem_append] at hidle ⊢
  exact ⟨⟨fun x hx => .idle (hidle.1 x hx), hallows⟩, fun x hx => .idle (hidle.2 x hx)⟩

end Service

end Overhaul
