import Overhaul.Proofs.Answers
import Overhaul.Proofs.Outbox.Announced

/-!
# Messages that do not get there

No operation looks at whether a message got into the outbox. So a session goes as it would if all
messages got there: every request ends the same, and but for the outbox the same is left
(`World.replies_sparing`). With this, `World.outbox_tells` says all that there is to say of what waits
in the outbox.
-/

namespace Overhaul

/-! ### What would happen if all messages got there -/

/-- The fault, but that the call does not fail. -/
def Fault.spared : Fault → Fault
  | .fail _ => .none
  | f => f

/-- The faults, but that no message fails to get into the outbox. -/
def sparing (faults : CallKind → List Fault) (kind : CallKind) : List Fault :=
  if kind = .announce then (faults kind).map Fault.spared else faults kind

theorem Fault.Within.spared {sound : Prop} {f : Fault} (h : f.Within sound) :
    f.spared.Within sound := by
  cases f with
  | fail text => trivial
  | _ => exact h

/-- The request, but that no message fails to get into the outbox. -/
def Request.sparing (q : Request) : Request :=
  { q with
    faults := Overhaul.sparing q.faults
    honest := by
      intro kind f hf
      unfold Overhaul.sparing at hf
      split at hf
      · obtain ⟨g, hg, rfl⟩ := List.mem_map.mp hf
        exact (q.honest kind g hg).spared
      · exact q.honest kind f hf }

/-- Where messages are spared, the caller gives up just as early. -/
theorem head?_sparing (faults : CallKind → List Fault) (kind : CallKind) :
    (sparing faults kind).head? = some .cancel ↔ (faults kind).head? = some .cancel := by
  unfold sparing
  split
  · rcases faults kind with - | ⟨f, rest⟩
    · rfl
    · cases f <;> simp [Fault.spared]
  · rfl

/-- Where messages are spared, the next one does not fail to get there. -/
theorem failsNext_sparing (faults : CallKind → List Fault) :
    World.failsNext (sparing faults .announce) = false := by
  rw [sparing, if_pos rfl]
  rcases faults .announce with - | ⟨f, rest⟩
  · rfl
  · cases f <;> rfl

namespace World

/-- The world with these messages waiting, and where no more messages fail to get into the outbox. -/
def sparing (w : World) (outbox : Outbox) : World :=
  { w with store := { w.store with outbox }, faults := Overhaul.sparing w.faults }

variable {w : World} {outbox : Outbox}

/-- The outbox plays no part in what is done with other calls. -/
theorem perform_sparing {c : Call} (h : c.kind ≠ .announce) :
    (w.sparing outbox).perform c = ((w.perform c).1, (w.perform c).2.sparing outbox) := by
  cases c with
  | announce m => exact absurd rfl h
  | putTask t => simp only [perform, sparing, Store.putTask]; split <;> rfl
  | setState scope id state notes now =>
      simp only [perform, sparing, Store.setState, Store.task?]
      cases (w.store.tasks.find? id).filter (·.visibleIn scope) <;> rfl
  | addDependency d =>
      simp only [perform, sparing, Store.addDependency]
      cases w.store.dependencies.find? d.id with
      | some d' => rfl
      | none =>
          dsimp only
          cases [d.task, d.prerequisite].find? fun t => (w.store.tasks.find? t).isNone <;> rfl
  | removeDependency scope id =>
      simp only [perform, sparing, Store.removeDependency, Store.dependency?]
      cases (w.store.dependencies.find? id).filter fun d => scope.includes d.tenant <;> rfl
  | addChange c => simp only [perform, sparing, Store.addChange]; split <;> rfl
  | _ => rfl

theorem past_sparing (kind : CallKind) :
    (w.sparing outbox).past kind = (w.past kind).sparing outbox := by
  have hfaults : ((w.sparing outbox).past kind).faults = ((w.past kind).sparing outbox).faults := by
    funext k
    simp only [past, sparing, Overhaul.sparing]
    by_cases hk : k = kind
    · subst hk
      by_cases ha : k = .announce <;> simp [ha]
    · simp [hk]
  calc (w.sparing outbox).past kind
    _ = { (w.past kind).sparing outbox with faults := ((w.sparing outbox).past kind).faults } := by
        simp [past, sparing, head?_sparing]
    _ = (w.past kind).sparing outbox := by rw [hfaults]

theorem answer_sparing {c : Call} (h : c.kind ≠ .announce) :
    (w.sparing outbox).answer c = ((w.answer c).1, (w.answer c).2.sparing outbox) := by
  have hfaults : (w.sparing outbox).faults c.kind = w.faults c.kind := if_neg h
  rw [answer_eq, answer_eq, hfaults, past_sparing, perform_sparing h]
  split
  · rfl
  · cases c.nothing? <;> rfl
  all_goals rfl

/-- A message gets there when it is spared, whatever would have happened to it. -/
theorem answer_announce_sparing (m : Message) :
    ((w.sparing outbox).answer (.announce m)).2 =
      (w.answer (.announce m)).2.sparing (outbox.put m) := by
  rw [answer_of_not_failsNext rfl (fun _ _ => rfl) (failsNext_sparing w.faults)]
  change (((w.sparing outbox).past .announce).perform (.announce m)).2 = _
  rw [past_sparing]
  cases hfails : failsNext (w.faults .announce) with
  | false =>
      rw [answer_of_not_failsNext rfl (fun _ _ => rfl) hfails]
      rfl
  | true =>
      obtain ⟨text, rest, hfaults⟩ := eq_cons_of_failsNext hfails
      rw [answer_of_fail hfaults]
      rfl

end World

/-! ### Programs that do not look whether a message got there -/

/-- Whatever the program is told about a message that it sends, it goes on in the same way. -/
def Program.Heedless {α : Type} : Program α → Prop
  | .done _ => True
  | .step st next =>
    (∀ r, (next r).Heedless) ∧ (st.message?.isSome = true → ∀ r r', next r = next r')

section

variable {α β : Type}

theorem Program.Heedless.bind {p : Program α} {f : α → Program β} (hp : p.Heedless)
    (hf : ∀ a, (f a).Heedless) : (p >>= f).Heedless := by
  induction p with
  | done a => exact hf a
  | step st next ih =>
      refine ⟨fun r => ih r (hp.1 r), fun hm r r' => ?_⟩
      exact congrArg (Program.bind · f) (hp.2 hm r r')

/-- A program that sends no messages has nothing to look at. -/
theorem Program.Heedless.of_only {kinds : List CallKind} (hkinds : .announce ∉ kinds) {p : Program α}
    (hp : p.Only (Step.IdleOr kinds)) : p.Heedless := by
  induction p with
  | done a => trivial
  | step st next ih =>
      refine ⟨fun r => ih r (hp.2 r), fun hm => ?_⟩
      rw [hp.1.message?_eq_none hkinds] at hm
      cases hm

/-- Such a program ends the same when its messages are spared, and all but the outbox is left as it
would be. -/
theorem Program.Heedless.run {p : Program α} (hp : p.Heedless) (w : World) (outbox : Outbox) :
    ∃ left, World.run p (w.sparing outbox) =
      ((World.run p w).1, (World.run p w).2.sparing left) := by
  induction p generalizing w outbox with
  | done a => exact ⟨outbox, rfl⟩
  | step st next ih =>
      simp only [World.run_step]
      by_cases hm : st.message?.isSome = true
      · obtain ⟨m, rfl⟩ : ∃ m, st = .call (.announce m) := by
          unfold Step.message? at hm
          split at hm
          · exact ⟨_, rfl⟩
          · cases hm
        obtain ⟨left, hleft⟩ := ih (w.take (.call (.announce m))).1 (hp.1 _)
          (w.take (.call (.announce m))).2 (outbox.put m)
        refine ⟨left, ?_⟩
        rw [hp.2 hm _ (w.take (.call (.announce m))).1]
        change World.run _ ((w.sparing outbox).answer (.announce m)).2 = _
        rw [World.answer_announce_sparing]
        exact hleft
      · have htake : (w.sparing outbox).take st = ((w.take st).1, (w.take st).2.sparing outbox) := by
          cases st with
          | call c =>
              refine World.answer_sparing fun hkind => hm ?_
              cases c with
              | announce m => rfl
              | _ => cases hkind
          | _ => rfl
        rw [htake]
        exact ih _ (hp.1 _) _ _

namespace Service

/-- Whatever the service is told about a message that it sends, it goes on in the same way. -/
def Heedless (p : Service α) : Prop := Program.Heedless p.run

theorem heedless_of_only {kinds : List CallKind} (hkinds : .announce ∉ kinds) {p : Service α}
    (hp : Only (Step.IdleOr kinds) p) : Heedless p :=
  Program.Heedless.of_only hkinds hp

theorem heedless_of_reads {p : Service α} (hp : Only Step.Reads p) : Heedless p :=
  heedless_of_only List.not_mem_nil hp.idleOr

theorem heedless_pure (a : α) : Heedless (pure a : Service α) := trivial

theorem heedless_throw (f : Failure) : Heedless (throw f : Service α) := trivial

theorem heedless_bind {p : Service α} {f : α → Service β} (hp : Heedless p)
    (hf : ∀ a, Heedless (f a)) : Heedless (p >>= f) := by
  refine Program.Heedless.bind hp fun r => ?_
  cases r with
  | ok a => exact hf a
  | error e => trivial

theorem heedless_guard {c : Prop} [Decidable c] {f : Failure} {k : Unit → Service α}
    (h : Heedless (k ())) : Heedless (if c then throw f >>= k else k ()) := by
  split
  · exact heedless_throw f
  · exact h

theorem heedless_map {p : Service α} (f : α → β) (hp : Heedless p) : Heedless (f <$> p) := by
  rw [← bind_pure_comp]
  exact heedless_bind hp fun _ => heedless_pure _

theorem heedless_outcome {p : Service α} (hp : Heedless p) : Heedless p.outcome := by
  change Program.Heedless (Except.ok <$> p.run)
  rw [← bind_pure_comp]
  exact Program.Heedless.bind hp fun _ => trivial

theorem heedless_ask {c : Call} (h : c.kind ≠ .announce) : Heedless (ask c) :=
  heedless_of_only (fun hmem => h (List.mem_singleton.mp hmem).symm)
    (only_idleOr_ask (List.mem_singleton_self _))

theorem heedless_locked {tenant : TenantId} {p : Service α} (hp : Heedless p) :
    Heedless (locked tenant p) := by
  have hstep : ∀ st : Step, st.message? = none → Program.Heedless (Program.only st) :=
    fun st hst => ⟨fun _ => trivial, fun hm => by rw [hst] at hm; cases hm⟩
  have hlift : ∀ st : Step, st.message? = none → Heedless (ExceptT.lift (Program.only st)) := by
    intro st hst
    change Program.Heedless (Except.ok <$> Program.only st)
    rw [← bind_pure_comp]
    exact (hstep st hst).bind fun _ => trivial
  refine heedless_bind (hlift _ rfl) fun _ => heedless_bind (heedless_outcome hp) fun r => ?_
  exact heedless_bind (hlift _ rfl) fun _ => trivial

theorem heedless_publish (setup : Setup) (tenant : TenantId) (task : TaskId) (eventType : String)
    (payload : Option Json) : Heedless (publish setup tenant task eventType payload) := by
  unfold publish
  split
  · exact ⟨fun _ => trivial, fun _ _ _ => rfl⟩
  · exact heedless_pure ()

theorem heedless_record (setup : Setup) (c : ScheduleChange) : Heedless (record setup c) :=
  heedless_bind (heedless_ask (by simp [Call.kind])) fun _ => heedless_publish _ _ _ _ _

theorem heedless_carryOut (setup : Setup) (d : Draft) : Heedless (carryOut setup d) := by
  refine heedless_bind (heedless_ask (by simp [Call.kind])) fun _ => ?_
  have hput : ∀ t : Task, Step.IdleOr [.putTask] (.call (.putTask t)) :=
    fun _ => Step.idleOr_call (List.mem_singleton_self _)
  have hcascade := only_writeCascade (.inl trivial) hput d.shifts
  refine heedless_bind (heedless_of_only (by simp) hcascade) fun p => ?_
  obtain ⟨written, failure⟩ := p
  cases failure with
  | none => exact heedless_bind (heedless_record _ _) fun _ => heedless_pure _
  | some failure =>
      refine heedless_bind ?_ fun _ => heedless_throw _
      unfold settle
      split
      · exact heedless_map _ (heedless_outcome (heedless_record _ _))
      · exact heedless_of_only (by simp) (only_writeBack hput _)

theorem heedless_reschedule (setup : Setup) (ctx : Context) (m : Move) :
    Heedless (reschedule setup ctx m) := by
  refine heedless_bind (heedless_of_reads (only_ofExcept _)) fun window => heedless_guard ?_
  refine heedless_bind (heedless_of_reads (only_visibleTask trivial)) fun task => heedless_guard ?_
  refine heedless_bind (heedless_of_reads (only_ensureOpen task)) fun _ => heedless_locked ?_
  exact heedless_bind (heedless_of_reads (only_draft _ _ _ _)) fun d => heedless_carryOut setup d

theorem heedless_transition (setup : Setup) (ctx : Context) (id : TaskId) (target : TaskState)
    (c : Circumstances) : Heedless (transition setup ctx id target c) := by
  refine heedless_bind (heedless_of_reads (only_visibleTask trivial)) fun t => heedless_locked ?_
  refine heedless_bind (heedless_of_reads (only_visibleTask trivial)) fun current => ?_
  refine heedless_bind (heedless_of_reads (only_ofExcept _)) fun _ => ?_
  have hlast : Heedless (do
      ensureActive
      let now ← ofExcept ctx.now
      enter setup id target c current now) := by
    refine heedless_bind (heedless_of_reads (only_ensureActive trivial)) fun _ => ?_
    refine heedless_bind (heedless_of_reads (only_ofExcept _)) fun now => ?_
    refine heedless_bind (heedless_ask (by simp [Call.kind])) fun found => ?_
    cases found with
    | none => exact heedless_throw _
    | some updated => exact heedless_bind (heedless_publish _ _ _ _ _) fun _ => heedless_pure _
  dsimp only
  split
  · exact heedless_pure _
  refine heedless_bind (heedless_of_reads (only_ensureActive trivial)) fun _ => ?_
  split
  · exact heedless_bind (heedless_ask (by simp [Call.kind])) fun _ => hlast
  · exact hlast

end Service

end

/-- No operation looks at whether its messages got there. -/
theorem Operation.heedless_service (setup : Setup) (ctx : Context) (o : Operation) :
    Service.Heedless (o.service setup ctx) := by
  have honly := o.only_service setup ctx
  cases o with
  | reschedule m => exact Service.heedless_map _ (Service.heedless_reschedule _ _ _)
  | transition id target c => exact Service.heedless_map _ (Service.heedless_transition _ _ _ _ _)
  | _ => exact Service.heedless_of_only (by simp [Operation.kinds]) honly

/-! ### Sessions -/

namespace World

/-- A request ends the same when its messages are spared. -/
theorem handle_sparing (w : World) (outbox : Outbox) (q : Request) :
    ∃ left, (w.sparing outbox).handle q.sparing =
      ((w.handle q).1, (w.handle q).2.sparing left) :=
  Program.Heedless.run (q.operation.heedless_service q.setup q.ctx) (w.facing q) outbox

theorem session_sparing (w : World) (outbox : Outbox) (qs : List Request) :
    ∃ left, (w.sparing outbox).replies (qs.map Request.sparing) = w.replies qs ∧
      (w.sparing outbox).after (qs.map Request.sparing) = (w.after qs).sparing left := by
  induction qs generalizing w outbox with
  | nil => exact ⟨outbox, rfl, rfl⟩
  | cons q qs ih =>
      obtain ⟨left, hhandle⟩ := handle_sparing w outbox q
      obtain ⟨left', hreplies, hafter⟩ := ih (w.handle q).2 left
      refine ⟨left', ?_, ?_⟩
      · rw [List.map_cons, replies, replies, hhandle, hreplies]
      · change ((w.sparing outbox).handle q.sparing).2.after (qs.map Request.sparing) = _
        rw [hhandle]
        exact hafter

/-- Every request of a session ends as it would if all messages got there, and but for the outbox the
same is left. -/
theorem replies_sparing (w : World) (qs : List Request) :
    w.replies (qs.map Request.sparing) = w.replies qs ∧
      ∃ outbox, (w.after (qs.map Request.sparing)).store = { (w.after qs).store with outbox } := by
  cases qs with
  | nil => exact ⟨rfl, w.store.outbox, rfl⟩
  | cons q qs =>
      -- the first request is met in the same world, whatever was to go wrong before it
      obtain ⟨left, hreplies, hafter⟩ := session_sparing w w.store.outbox (q :: qs)
      exact ⟨hreplies, left, congrArg World.store hafter⟩

/-- All messages of a session are about tasks. -/
theorem about_of_mem_attempted {w : World} {qs : List Request}
    (hannounces : ∀ q ∈ qs, q.setup.announces = true) {m : Message}
    (hm : m ∈ attempted (w.transcripts qs).flatten) :
    ∃ tenant task event payload, m = .aboutTask tenant task event payload := by
  induction qs generalizing w with
  | nil => cases hm
  | cons q qs ih =>
      obtain ⟨hq, hqs⟩ := List.forall_mem_cons.mp hannounces
      rw [transcripts, List.flatten_cons, attempted_append] at hm
      rcases List.mem_append.mp hm with hm | hm
      · exact (reports_handle w q hq).about m hm
      · exact ih hqs hm

end World

/-- The first task of the small store is put off while the outbox cannot be reached, and then the
second one is moved on its own. -/
def sampleUnheard : List Request :=
  [{ setup := {}, ctx := sampleContext, operation := .reschedule sampleMove,
      faults := fun kind => if kind = .announce then [.fail "outbox out of reach"] else [],
      honest := by
        intro kind f hf
        split at hf
        · rw [List.mem_singleton.mp hf]
          exact not_false
        · cases hf },
    { setup := {}, ctx := { sampleContext with fresh := 8 }, operation := .reschedule
        ⟨.ofNat 2, Store.hour 9 0, Store.hour 12 0, "hangar occupied", false⟩,
      honest := Request.honest_of_nil }]

end Overhaul
