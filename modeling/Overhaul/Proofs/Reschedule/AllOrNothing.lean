import Overhaul.Proofs.Reschedule.Cascade

/-!
# Moves that leave no trace when they fail

Where the policy is to roll cascades back, a move that fails leaves the store as it found it, provided
that what was written could be written back. Only a move that was carried out to its end and then
cannot be recorded stays as it is. Main statement: `rollBack_exact`.
-/

namespace Overhaul

/-- The change could not be recorded, for this reason. -/
def Unrecorded (log : List Exchange) (c : ScheduleChange) (cause : CallError) : Prop :=
  (⟨.call (.addChange c), .error cause⟩ : Exchange) ∈ log

theorem Unrecorded.of_idle {pre mid post : List Exchange} {c : ScheduleChange} {cause : CallError}
    (hidle : ∀ x ∈ pre ++ post, x.step.Idle) (h : Unrecorded (pre ++ mid ++ post) c cause) :
    Unrecorded mid c cause := by
  simp only [Unrecorded, List.mem_append] at h
  rcases h with (h | h) | h
  · exact (hidle _ (List.mem_append_left _ h)).elim
  · exact h
  · exact (hidle _ (List.mem_append_right _ h)).elim

/-- Writing records never keeps a change from being recorded. -/
theorem not_unrecorded_of_puts {d : Draft} {log : List Exchange} (h : ∀ x ∈ log, d.Puts x.step)
    (c : ScheduleChange) (cause : CallError) : ¬Unrecorded log c cause := by
  intro hmem
  rcases h _ hmem with hstep | ⟨t, -, hstep⟩ <;> cases hstep

namespace Service

variable {sound : CallKind → Prop} {s s' : Store} {log : List Exchange}

/-- Where cascades are rolled back, a draft that is not carried out leaves the store as it was, or
everything is written and then not recorded. -/
theorem course_carryOut_rollBack {setup : Setup} {d : Draft} {looked : Prop} {ctx : Context}
    {m : Move} {f : Failure} (hpolicy : setup.settings.cascade = .rollBack)
    (hdrawn : d.Drawn looked s ctx m) (h : Course sound (carryOut setup d) s log (.error f) s')
    (hrestored : ¬Unrestored log) :
    (s' = s ∧ ∀ c cause, ¬Unrecorded log c cause) ∨
      (s' = { s with tasks := s.tasks.putAll (d.written d.shifts) } ∧
        (∃ c cause, Unrecorded log c cause) ∧
        ∀ c cause, Unrecorded log c cause → c = d.record d.shifts ∧ f = .store cause) := by
  rcases course_carryOut_cases h with ⟨cause, rfl, -, rfl⟩ |
    ⟨log₁, log₂, done, rfl, hputs, hdone, hend⟩
  · exact .inl ⟨rfl, not_unrecorded_of_puts (List.forall_mem_singleton.mpr (.inr ⟨_, .inl rfl, rfl⟩))⟩
  rcases hend with ⟨rfl, hrecord⟩ | ⟨g, before, x, rfl, hx, hg, hsettle⟩
  · -- the failure is that of recording
    obtain ⟨g, hrecord, hg⟩ | ⟨_, _, _, _, -, hpure, -⟩ := course_bind hrecord
    · obtain ⟨-, ⟨hr, -⟩ | ⟨cause, hr, rfl, rfl⟩⟩ := course_record hrecord
      · cases hr
      · cases hr
        cases hg
        refine .inr ⟨rfl, ⟨_, _, List.mem_append_right _ List.mem_cons_self⟩, fun c cause' hmem => ?_⟩
        rcases List.mem_append.mp hmem with hmem | hmem
        · exact absurd hmem (not_unrecorded_of_puts hputs c cause')
        · cases List.mem_singleton.mp hmem
          exact ⟨rfl, rfl⟩
    · obtain ⟨-, hr, -⟩ := course_pure hpure
      cases hr
  · -- everything was written back
    rw [settle, hpolicy] at hsettle
    obtain ⟨hsteps, -, back, -, rfl, rfl | ⟨t, cause, hfail⟩⟩ := course_writeBack hsettle
    · have hputs' : ∀ y ∈ before ++ [x] ++ log₂, d.Puts y.step := by
        intro y hy
        rcases List.mem_append.mp hy with hy | hy
        · exact hputs y hy
        · obtain ⟨t, ht, hstep⟩ := hsteps y hy
          exact .inr ⟨t, d.writes_of_mem_restores hdone ht, hstep⟩
      refine .inl ⟨?_, not_unrecorded_of_puts hputs'⟩
      exact congrArg (fun tasks => { s with tasks }) (hdrawn.putAll_restores hdone)
    · exact absurd ⟨before, x, log₂, by simp, hx, t, cause, hfail⟩ hrestored

end Service

/-- Where cascades are rolled back and everything that is to be written back can be, a move that
fails has left the store as it was. The one exception is a change that cannot be recorded: the move
fails for that reason, the tasks stay where the change says, and nothing is recorded or announced. -/
theorem rollBack_exact {w : World} (hsound : w.Within fun _ => False) {setup : Setup} {ctx : Context}
    {m : Move} (hpolicy : setup.settings.cascade = .rollBack) {failure : Failure}
    (herror : (w.serve (Service.reschedule setup ctx m)).1 = .error failure)
    (hrestored : ¬Unrestored (w.heard (Service.reschedule setup ctx m))) :
    let log := w.heard (Service.reschedule setup ctx m)
    let left := (w.serve (Service.reschedule setup ctx m)).2.store
    ((∀ c cause, ¬Unrecorded log c cause) → left = w.store) ∧
      ∀ c cause, Unrecorded log c cause → failure = .store cause ∧
        left.changes = w.store.changes ∧ left.outbox = w.store.outbox ∧
        ∃ root, w.store.task? ctx.scope m.task = some root ∧
          w.store.Displaced left root c.newStart c.newFinish c.nanos c.created c.affected := by
  have hcourse := World.course_serve hsound (Service.reschedule setup ctx m)
  rw [herror] at hcourse
  dsimp only
  generalize w.heard (Service.reschedule setup ctx m) = log at hcourse hrestored ⊢
  generalize (w.serve (Service.reschedule setup ctx m)).2.store = left at hcourse ⊢
  rcases Service.course_reschedule_cases hcourse with ⟨-, rfl, hidle⟩ |
    ⟨d, pre, mid, post, hdrawn, rfl, hidle, hcarry⟩
  · exact ⟨fun _ => rfl, fun c cause hmem => (hidle _ hmem).elim⟩
  have hrestored' : ¬Unrestored mid := fun h => hrestored (h.append pre post)
  rcases Service.course_carryOut_rollBack hpolicy hdrawn hcarry hrestored' with
    ⟨rfl, hnone⟩ | ⟨rfl, ⟨c, cause, hmem⟩, hall⟩
  · exact ⟨fun _ => rfl, fun c cause hmem => absurd (hmem.of_idle hidle) (hnone c cause)⟩
  · constructor
    · intro hnone
      refine absurd ?_ (hnone c cause)
      exact List.mem_append_left _ (List.mem_append_right _ hmem)
    · intro c cause hmem
      obtain ⟨rfl, rfl⟩ := hall c cause (hmem.of_idle hidle)
      exact ⟨rfl, rfl, rfl, d.root, hdrawn.root,
        hdrawn.displaced List.prefix_rfl w.store.changes w.store.outbox⟩

/-- A record could not be written, or the caller had given up. -/
def Exchange.hinders : Exchange → Bool
  | ⟨.call (.putTask _), .error _⟩ => true
  | ⟨.isCancelled, true⟩ => true
  | _ => false

/-- When something was hindered once at most, nothing was left that should have been written back. -/
theorem not_unrestored_of_countP {log : List Exchange} (h : log.countP Exchange.hinders ≤ 1) :
    ¬Unrestored log := by
  rintro ⟨before, x, after, rfl, hx, t, cause, hmem⟩
  have hstop : x.hinders = true := by cases hx <;> rfl
  have hlater : 0 < after.countP Exchange.hinders := List.countP_pos_iff.mpr ⟨_, hmem, rfl⟩
  rw [List.countP_append, List.countP_cons_of_pos hstop] at h
  omega

/-- The kind of the call that a step makes. -/
def Step.kind? : Step → Option CallKind
  | .call c => some c.kind
  | _ => none

/-- A world over the small store in which so many calls of a kind go well, and the next one fails. -/
def fullAfter (n : Nat) (kind : CallKind) : World where
  store := .sample
  faults k := if k = kind then List.replicate n .none ++ [.fail "disk full"] else []

theorem within_fullAfter (n : Nat) (kind : CallKind) : (fullAfter n kind).Within fun _ => False := by
  intro k f hf
  by_cases hk : k = kind
  · simp only [fullAfter, if_pos hk, List.mem_append, List.mem_singleton] at hf
    rcases hf with hf | rfl
    · rw [List.eq_of_mem_replicate hf]
      trivial
    · exact id
  · simp [fullAfter, hk] at hf

/-- Cascades are rolled back. -/
def sampleSetup : Setup where
  settings := { cascade := .rollBack }

/-- The second task of the small store cannot be written, and the first one is moved back. -/
theorem rollBack_exact_sample : ((fullAfter 1 .putTask).serve
    (Service.reschedule sampleSetup sampleContext sampleMove)).2.store = .sample := by
  have hcount : ((fullAfter 1 .putTask).heard
      (Service.reschedule sampleSetup sampleContext sampleMove)).countP Exchange.hinders ≤ 1 := by cbv
  have herror : ((fullAfter 1 .putTask).serve
      (Service.reschedule sampleSetup sampleContext sampleMove)).1 =
      .error (.store (.unavailable "disk full")) := by cbv
  have hwhole := rollBack_exact (within_fullAfter 1 .putTask) rfl herror
    (not_unrestored_of_countP hcount)
  refine hwhole.1 fun c cause hmem => ?_
  have hnone : ((fullAfter 1 .putTask).heard
      (Service.reschedule sampleSetup sampleContext sampleMove)).all
        fun x => decide (x.step.kind? ≠ some .addChange) := by cbv
  simpa [Step.kind?, Call.kind] using List.all_eq_true.mp hnone _ hmem

/-- A move whose change cannot be recorded fails, and yet its tasks stay where it has put them. -/
theorem rollBack_unrecorded : ¬∀ (w : World) (setup : Setup) (ctx : Context) (m : Move)
    (failure : Failure), w.Within (fun _ => False) → setup.settings.cascade = .rollBack →
      (w.serve (Service.reschedule setup ctx m)).1 = .error failure →
      ¬Unrestored (w.heard (Service.reschedule setup ctx m)) →
      (w.serve (Service.reschedule setup ctx m)).2.store = w.store := by
  intro h
  have hcount : ((fullAfter 0 .addChange).heard
      (Service.reschedule sampleSetup sampleContext sampleMove)).countP Exchange.hinders ≤ 1 := by cbv
  have herror : ((fullAfter 0 .addChange).serve
      (Service.reschedule sampleSetup sampleContext sampleMove)).1 =
      .error (.store (.unavailable "disk full")) := by cbv
  have hsame := h (fullAfter 0 .addChange) sampleSetup sampleContext sampleMove _
    (within_fullAfter 0 .addChange) rfl herror (not_unrestored_of_countP hcount)
  have hmoved : (((fullAfter 0 .addChange).serve
      (Service.reschedule sampleSetup sampleContext sampleMove)).2.store.tasks.find?
        (.ofNat 1)).map Task.start = some (Store.hour 1 0) := by cbv
  rw [hsame] at hmoved
  exact absurd hmoved (by decide)

end Overhaul
