import Overhaul.Proofs.Dependencies.Acyclic
import Overhaul.Proofs.History
import Overhaul.Proofs.Outbox.Delivered
import Overhaul.Proofs.Record.Text
import Overhaul.Proofs.Store.Durable
import Overhaul.Proofs.Transitions

/-!
# What a request leaves to later ones

Whatever goes wrong with a request, it leaves a durable store durable, takes no identifier but its own
for a change, and announces nothing that could not be read back. Main statements:
`World.abreast_handle`, `World.find?_changes_handle` and `World.readable_trail`.
-/

namespace Overhaul

variable {sound : CallKind → Prop} {ctx : Context} {s s' : Store}

/-! ### Dependencies -/

/-- The store is durable, and no dependency was made after a request; what was made at its time was
made for it. -/
structure Store.Abreast (s : Store) (ctx : Context) : Prop where
  durable : s.Durable
  made : ∀ d ∈ s.dependencies.rows, d.created.unixNanos < ctx.clock.unixNanos ∨
    d.created.unixNanos = ctx.clock.unixNanos ∧ d.id = ⟨ctx.fresh⟩

theorem Store.SameGraph.abreast (h : s.SameGraph s') (hs : s.Abreast ctx) : s'.Abreast ctx := by
  have howner : ∀ u : Store, ∀ id, (u.tasks.find? id).isSome = (u.owner? id).isSome := by
    intro u id
    exact (Option.isSome_map ..).symm
  refine ⟨hs.durable.of_eq h.dependencies h.prerequisites h.dependents fun id hid => ?_, ?_⟩
  · rwa [howner, h.owner?, ← howner]
  · rw [h.dependencies]
    exact hs.made

namespace Exchange

variable {x : Exchange}

/-- A dependency that is made for the request comes last. It is made at most once, as its identifier
is taken afterwards. -/
theorem abreast_of_adds (hx : x.step.Adds ctx) (h : x.Carries sound s s') (hs : s.Abreast ctx) :
    s'.Abreast ctx := by
  rcases hx with hidle | ⟨d, hstep, hid, hclock⟩
  · rwa [store_of_idle hidle h]
  obtain ⟨_, e⟩ := x
  subst hstep
  rcases carries_addDependency h with ⟨-, hadd⟩ | ⟨_, -, rfl⟩
  swap
  · exact hs
  have htime := (Timestamp.inUtc?_eq_some_iff.mp hclock).1
  have hnew := (Store.addDependency_eq_ok_iff.mp hadd).1
  have hlater : ∀ f ∈ s.dependencies.rows, f.created.unixNanos < d.created.unixNanos := by
    intro f hf
    rcases hs.made f hf with hlt | ⟨-, hid'⟩
    · exact htime ▸ hlt
    · rw [Table.find?_eq_none_iff] at hnew
      exact absurd (List.mem_map.mpr ⟨f, hf, hid'.trans hid.symm⟩) hnew
  refine ⟨hs.durable.addDependency hadd hlater, fun f hf => ?_⟩
  obtain ⟨-, -, -, rfl⟩ := Store.addDependency_eq_ok_iff.mp hadd
  rcases Table.mem_rows_put.mp hf with rfl | ⟨hf, -⟩
  · exact .inr ⟨htime, hid⟩
  · exact hs.made f hf

theorem abreast_of_removes (hx : x.step.IdleOr [.removeDependency]) (h : x.Carries sound s s')
    (hs : s.Abreast ctx) : s'.Abreast ctx := by
  rcases hx with hidle | ⟨c, hstep, hkind⟩
  · rwa [store_of_idle hidle h]
  obtain ⟨_, e⟩ := x
  subst hstep
  cases c with
  | removeDependency scope id =>
      rcases carries_removeDependency h with ⟨-, hremove⟩ | ⟨-, rfl⟩
      swap
      · exact hs
      refine ⟨hs.durable.removeDependency hremove, ?_⟩
      obtain ⟨d, -, rfl⟩ := Store.removeDependency_eq_some_iff.mp hremove
      exact fun f hf => hs.made f (Table.mem_rows_erase.mp hf).1
  | _ => simp [Call.kind] at hkind

end Exchange

namespace World

/-- A request that comes after all dependencies were made leaves them in the order of their making. -/
theorem abreast_handle (w : World) (q : Request) (h : w.store.Abreast q.ctx) :
    (w.handle q).2.store.Abreast q.ctx := by
  have hcourse := course_handle w q
  have honly := w.idleOr_transcriptOf q
  have hspares := sparesGraph_transcriptOf w q
  have hsame : .addDependency ∉ q.operation.kinds → .removeDependency ∉ q.operation.kinds →
      (w.handle q).2.store.Abreast q.ctx := by
    intro hadd hremove
    refine Store.SameGraph.abreast ?_ h
    refine hcourse.keeps (J := w.store.SameGraph) (fun x hx _ _ hcarries => ?_) (.refl _)
    exact Exchange.sameGraph_trans (hspares hadd hremove x hx) hcarries
  cases hop : q.operation with
  | depend task prerequisite kind =>
      rw [Request.service, hop] at hcourse
      obtain ⟨_, -, hdepend⟩ := Service.course_map hcourse
      have hadds := hdepend.only (Service.only_depend_adds q.ctx task prerequisite kind)
      exact hdepend.keeps (J := (·.Abreast q.ctx))
        (fun x hx _ _ hcarries => Exchange.abreast_of_adds (hadds x hx) hcarries) h
  | undepend id =>
      rw [hop] at honly
      exact hcourse.keeps (J := (·.Abreast q.ctx))
        (fun x hx _ _ hcarries => Exchange.abreast_of_removes (honly x hx) hcarries) h
  | _ => exact hsame (by simp [hop, Operation.kinds]) (by simp [hop, Operation.kinds])

/-! ### Changes -/

/-- A request takes no identifier of a change but its own. -/
theorem find?_changes_handle (w : World) (q : Request) {id : ChangeId} (h : id ≠ ⟨q.ctx.fresh⟩) :
    (w.handle q).2.store.changes.find? id = w.store.changes.find? id := by
  rcases q.moves_or_spares with ⟨m, hop⟩ | ⟨hput, hadd⟩
  · obtain ⟨_, ⟨-, hs, -⟩ | ⟨d, hdrawn, -, hcarried⟩⟩ := w.ends_of_reschedule hop
    · rw [hs]
    generalize (w.handle q).2.store = s' at hcarried
    cases hcarried with
    | @recorded done outbox _ _ =>
        have hid : (d.record done).id = ⟨q.ctx.fresh⟩ := congrArg ScheduleChange.id hdrawn.change
        rw [Table.find?_put, if_neg]
        exact fun heq => h (heq.symm.trans hid)
    | _ => rfl
  · rw [((course_handle w q).sameWindows (w.idleOr_transcriptOf q) hput hadd).1]

end World

/-! ### Messages -/

/-- Readable messages may be put into the outbox. -/
theorem Outbox.Readable.foldl_put {outbox : Outbox} (h : Outbox.Readable outbox)
    {sent : List Message} (hsent : ∀ m ∈ sent, m.payload.json.Readable (Node.depthLimit - 3)) :
    Outbox.Readable (sent.foldl Outbox.put outbox) := by
  induction sent generalizing outbox with
  | nil => exact h
  | cons m sent ih =>
      obtain ⟨hm, hrest⟩ := List.forall_mem_cons.mp hsent
      refine ih (fun m' hm' => ?_) hrest
      rcases mem_of_mem_upsert hm' with rfl | hm'
      · exact hm
      · exact h m' hm'

/-- What the step announces, if anything, is read back. -/
def Step.Legible : Step → Prop
  | .call (.announce m) => m.payload.json.Readable (Node.depthLimit - 3)
  | _ => True

theorem Step.IdleOr.legible {kinds : List CallKind} {st : Step} (h : st.IdleOr kinds)
    (hkinds : .announce ∉ kinds) : st.Legible := by
  rcases h with h | ⟨c, rfl, hkind⟩
  · cases st with
    | call c => cases c <;> first | exact h.elim | trivial
    | _ => trivial
  · cases c with
    | announce m => exact absurd hkind hkinds
    | _ => trivial

theorem Exchange.readable {x : Exchange} (hx : x.step.Legible) (h : x.Carries sound s s')
    (hs : Outbox.Readable s.outbox) : Outbox.Readable s'.outbox := by
  rw [outbox_eq h]
  refine hs.foldl_put fun m hmem => ?_
  obtain ⟨y, hy, hm⟩ := List.mem_filterMap.mp hmem
  rw [List.mem_singleton.mp hy] at hm
  unfold delivered? at hm
  split at hm
  · cases hm
    exact hx
  · cases hm

namespace Service

theorem only_legible_of_idleOr {α : Type} {kinds : List CallKind} {p : Service α}
    (hp : Only (Step.IdleOr kinds) p) (hkinds : .announce ∉ kinds) : Only Step.Legible p :=
  Program.Only.imp (fun _ h => h.legible hkinds) hp

theorem only_legible_of_reads {α : Type} {p : Service α} (hp : Only Step.Reads p) :
    Only Step.Legible p :=
  only_legible_of_idleOr hp.idleOr List.not_mem_nil

theorem only_legible_publish {setup : Setup} {tenant : TenantId} {task : TaskId}
    {eventType : String} {payload : Option Json}
    (h : ∀ v ∈ payload, v.Readable (Node.depthLimit - 3)) :
    Only Step.Legible (publish setup tenant task eventType payload) := by
  unfold publish
  split
  · exact only_map _ (only_attempt (h _ rfl).sorted)
  · exact only_pure _

/-- What is recorded is announced as a record. -/
theorem only_legible_record (setup : Setup) (c : ScheduleChange) :
    Only Step.Legible (record setup c) := by
  refine only_bind (only_ask trivial) fun _ => only_legible_publish fun v hv => ?_
  obtain ⟨fields, hfields, rfl⟩ := Option.map_eq_some_iff.mp hv
  exact c.readable_json 122 hfields

theorem readable_transitionPayload (task : TaskId) (source target : TaskState) (notes : String) :
    (transitionPayload task source target notes).Readable (Node.depthLimit - 3) := by
  refine Json.readable_obj.mpr ?_
  simp only [List.forall_mem_cons, List.not_mem_nil, false_implies, implies_true, and_true]
  exact ⟨Json.readable_str _ _, Json.readable_str _ _, Json.readable_str _ _,
    Json.readable_str _ _⟩

theorem only_legible_reschedule (setup : Setup) (ctx : Context) (m : Move) :
    Only Step.Legible (reschedule setup ctx m) := by
  refine only_bind (only_ofExcept _) fun window => only_guard fun _ => ?_
  refine only_bind (only_visibleTask trivial) fun task => only_guard fun _ => ?_
  refine only_bind (only_ensureOpen task) fun _ => only_locked trivial trivial ?_
  refine only_bind (only_legible_of_reads (only_draft _ _ _ _)) fun d => ?_
  exact only_carryOut trivial (fun _ => trivial) (only_legible_record setup) d

theorem only_legible_transition (setup : Setup) (ctx : Context) (id : TaskId) (target : TaskState)
    (c : Circumstances) : Only Step.Legible (transition setup ctx id target c) := by
  have hidle : ∀ st : Step, st.Idle → st.Legible :=
    fun st h => Step.IdleOr.legible (.inl h) List.not_mem_nil
  refine only_transition hidle (fun _ _ _ _ _ => trivial) (fun _ _ _ _ _ => trivial) ?_
  intro t _ tenant
  refine only_legible_publish fun v hv => ?_
  cases hv
  exact readable_transitionPayload _ _ _ _

end Service

/-- Whatever an operation announces is read back. -/
theorem Operation.only_legible (setup : Setup) (ctx : Context) (o : Operation) :
    Service.Only Step.Legible (o.service setup ctx) := by
  cases o with
  | reschedule m => exact Service.only_map _ (Service.only_legible_reschedule _ _ _)
  | transition id target c =>
      exact Service.only_map _ (Service.only_legible_transition _ _ _ _ _)
  | _ =>
      exact Service.only_legible_of_idleOr (Operation.only_service _ _ _) (by simp [Operation.kinds])

namespace World

/-- A request adds no message that is not read back. -/
theorem readable_trail (w : World) (q : Request) (h : Outbox.Readable w.store.outbox) :
    ∀ v ∈ trail q.service.run (w.facing q), Outbox.Readable v.store.outbox := by
  have honly := (course_handle w q).only (Operation.only_legible q.setup q.ctx q.operation)
  exact along (J := fun s => Outbox.Readable s.outbox) (within_facing w q) q.service.run
    (fun x hx _ _ hcarries => Exchange.readable (honly x hx) hcarries) h

theorem readable_handle (w : World) (q : Request) (h : Outbox.Readable w.store.outbox) :
    Outbox.Readable (w.handle q).2.store.outbox :=
  readable_trail w q h _ (run_mem_trail q.service.run (w.facing q))

end World

end Overhaul
