import Overhaul.Proofs.Reschedule.Cascade
import Overhaul.Proofs.Session

/-!
# Dependencies never close a circle

`Store.Orderly` says what the dependencies of a tenant are always like: they join two different
tasks that the tenant owns, no two of them join the same tasks, and no task waits for itself, not
even through others. Main statement: a session that starts from an orderly store passes through
orderly stores only, whatever goes wrong (`World.orderly_session`).
-/

namespace Overhaul

open Relation

namespace Store

variable {s s' : Store}

/-- The tenant that owns a task, deleted or not. -/
def owner? (s : Store) (task : TaskId) : Option TenantId := (s.tasks.find? task).map Task.tenant

/-- The dependencies of a tenant are in order. -/
structure Orderly (s : Store) (tenant : TenantId) : Prop where
  /-- Both ends are tasks that the tenant owns. -/
  owned : ∀ d ∈ s.dependencies.rows, d.tenant = tenant →
    s.owner? d.task = some tenant ∧ s.owner? d.prerequisite = some tenant
  /-- No task waits for itself directly. -/
  distinct : ∀ d ∈ s.dependencies.rows, d.tenant = tenant → d.task ≠ d.prerequisite
  /-- No two dependencies join the same tasks. -/
  unique : ∀ d ∈ s.dependencies.rows, ∀ e ∈ s.dependencies.rows, d.tenant = tenant →
    e.tenant = tenant → d.task = e.task → d.prerequisite = e.prerequisite → d = e
  /-- No task waits for itself through others. -/
  acyclic : ∀ task, ¬TransGen (s.Waits tenant) task task

/-- The indexes are right, and the dependencies of all tenants are in order. -/
structure InOrder (s : Store) : Prop where
  indexed : s.Indexed
  orderly : ∀ tenant, s.Orderly tenant

/-- The dependencies with their indexes, and the owners of all tasks, are the same. -/
structure SameGraph (s s' : Store) : Prop where
  dependencies : s'.dependencies = s.dependencies
  prerequisites : s'.prerequisites = s.prerequisites
  dependents : s'.dependents = s.dependents
  owner? : ∀ task, s'.owner? task = s.owner? task

theorem SameGraph.refl (s : Store) : s.SameGraph s := ⟨rfl, rfl, rfl, fun _ => rfl⟩

theorem SameGraph.trans {s₁ s₂ s₃ : Store} (h : s₁.SameGraph s₂) (h' : s₂.SameGraph s₃) :
    s₁.SameGraph s₃ :=
  ⟨h'.dependencies.trans h.dependencies, h'.prerequisites.trans h.prerequisites,
    h'.dependents.trans h.dependents, fun task => (h'.owner? task).trans (h.owner? task)⟩

theorem SameGraph.indexed (h : s.SameGraph s') (hs : s.Indexed) : s'.Indexed :=
  hs.of_eq h.dependencies h.prerequisites h.dependents

theorem SameGraph.orderly (h : s.SameGraph s') {tenant : TenantId} (hs : s.Orderly tenant) :
    s'.Orderly tenant := by
  have hwaits : s'.Waits tenant = s.Waits tenant := by
    unfold Waits
    rw [h.dependencies]
  constructor
  · intro d hd htenant
    rw [h.owner?, h.owner?]
    exact hs.owned d (h.dependencies ▸ hd) htenant
  · rw [h.dependencies]
    exact hs.distinct
  · rw [h.dependencies]
    exact hs.unique
  · rw [hwaits]
    exact hs.acyclic

theorem SameGraph.inOrder (h : s.SameGraph s') (hs : s.InOrder) : s'.InOrder :=
  ⟨h.indexed hs.indexed, fun tenant => h.orderly (hs.orderly tenant)⟩

/-- A task that is written over its record keeps its owner. -/
theorem sameGraph_put {t : Task} (h : s.owner? t.id = some t.tenant) :
    s.SameGraph { s with tasks := s.tasks.put t } := by
  refine ⟨rfl, rfl, rfl, fun task => ?_⟩
  simp only [owner?, Table.find?_put]
  split
  · rename_i hid
    rw [← hid, ← owner?, h]
    rfl
  · rfl

theorem owner?_of_task? {scope : Scope} {task : TaskId} {t : Task}
    (h : s.task? scope task = some t) : s.owner? task = some t.tenant := by
  rw [owner?, (task?_eq_some_iff.mp h).1]
  rfl

/-! ### One more dependency, and one less -/

/-- The dependency can be made: it joins two different tasks that its tenant owns, which no
dependency joins yet, and its prerequisite does not already wait for its task. -/
structure Admits (s : Store) (d : Dependency) : Prop where
  distinct : d.task ≠ d.prerequisite
  owned : s.owner? d.task = some d.tenant ∧ s.owner? d.prerequisite = some d.tenant
  isNew : ∀ e ∈ s.dependencies.rows, e.tenant = d.tenant → e.task = d.task →
    e.prerequisite ≠ d.prerequisite
  acyclic : ¬ReflTransGen (s.Waits d.tenant) d.prerequisite d.task

theorem Admits.orderly_link {d : Dependency} (hd : s.Admits d)
    (hnew : s.dependencies.find? d.id = none) {tenant : TenantId} (hs : s.Orderly tenant) :
    (s.link d).Orderly tenant := by
  have hrows : (s.link d).dependencies.rows = s.dependencies.rows ++ [d] :=
    Table.rows_put_of_find?_eq_none hnew
  have hmem : ∀ e, e ∈ (s.link d).dependencies.rows ↔ e ∈ s.dependencies.rows ∨ e = d := by
    simp [hrows]
  have howner : ∀ task, (s.link d).owner? task = s.owner? task := fun _ => rfl
  constructor
  · intro e he htenant
    rw [howner, howner]
    rcases (hmem e).mp he with he | rfl
    · exact hs.owned e he htenant
    · rw [← htenant]
      exact hd.owned
  · intro e he htenant
    rcases (hmem e).mp he with he | rfl
    · exact hs.distinct e he htenant
    · exact hd.distinct
  · intro e he f hf het hft htask hpre
    rcases (hmem e).mp he with he' | rfl
    · rcases (hmem f).mp hf with hf' | rfl
      · exact hs.unique e he' f hf' het hft htask hpre
      · exact absurd hpre (hd.isNew e he' (het.trans hft.symm) htask)
    · rcases (hmem f).mp hf with hf' | rfl
      · exact absurd hpre.symm (hd.isNew f hf' (hft.trans het.symm) htask.symm)
      · rfl
  · by_cases htenant : d.tenant = tenant
    · subst htenant
      refine acyclic_insert (a := d.task) (b := d.prerequisite) ?_ hs.acyclic hd.acyclic
      rintro x y ⟨e, he, het, rfl, rfl⟩
      rcases (hmem e).mp he with he | rfl
      · exact .inl ⟨e, he, het, rfl, rfl⟩
      · exact .inr ⟨rfl, rfl⟩
    · intro task hpath
      refine hs.acyclic task (TransGen.mono ?_ _ _ hpath)
      rintro x y ⟨e, he, het, rfl, rfl⟩
      rcases (hmem e).mp he with he | rfl
      · exact ⟨e, he, het, rfl, rfl⟩
      · exact absurd het htenant

theorem Admits.inOrder {d : Dependency} (hd : s.Admits d) (hadd : s.addDependency d = .ok s')
    (hs : s.InOrder) : s'.InOrder := by
  refine ⟨hs.indexed.addDependency hadd, fun tenant => ?_⟩
  obtain ⟨hnew, -, -, rfl⟩ := addDependency_eq_ok_iff.mp hadd
  exact hd.orderly_link hnew (hs.orderly tenant)

/-- Fewer dependencies are still in order. -/
theorem Orderly.unlink {tenant : TenantId} (hs : s.Orderly tenant) (d : Dependency) :
    (s.unlink d).Orderly tenant := by
  have hmem : ∀ e ∈ (s.unlink d).dependencies.rows, e ∈ s.dependencies.rows :=
    fun e he => (Table.mem_rows_erase.mp he).1
  constructor
  · exact fun e he => hs.owned e (hmem e he)
  · exact fun e he => hs.distinct e (hmem e he)
  · exact fun e he f hf => hs.unique e (hmem e he) f (hmem f hf)
  · intro task hpath
    refine hs.acyclic task (TransGen.mono ?_ _ _ hpath)
    rintro x y ⟨e, he, h⟩
    exact ⟨e, hmem e he, h⟩

theorem InOrder.removeDependency (hs : s.InOrder) {scope : Scope} {id : DependencyId}
    (hremove : s.removeDependency scope id = some s') : s'.InOrder := by
  refine ⟨hs.indexed.removeDependency hremove, fun tenant => ?_⟩
  obtain ⟨d, -, rfl⟩ := removeDependency_eq_some_iff.mp hremove
  exact (hs.orderly tenant).unlink d

/-- In the small store every task waits for ones with lower numbers only. -/
theorem lt_of_waits_sample {tenant : TenantId} {a b : TaskId}
    (h : TransGen (sample.Waits tenant) a b) : b.toNat < a.toNat := by
  have hlower : ∀ d ∈ sample.dependencies.rows, d.prerequisite.toNat < d.task.toNat := by decide
  induction h with
  | single h =>
      obtain ⟨d, hd, -, rfl, rfl⟩ := h
      exact hlower d hd
  | tail _ h ih =>
      obtain ⟨d, hd, -, rfl, rfl⟩ := h
      exact Nat.lt_trans (hlower d hd) ih

theorem orderly_sample (tenant : TenantId) : sample.Orderly tenant := by
  have howned : ∀ d ∈ sample.dependencies.rows, sample.owner? d.task = some d.tenant ∧
      sample.owner? d.prerequisite = some d.tenant := by decide
  have hdistinct : ∀ d ∈ sample.dependencies.rows, d.task ≠ d.prerequisite := by decide
  have hunique : ∀ d ∈ sample.dependencies.rows, ∀ e ∈ sample.dependencies.rows,
      d.task = e.task → d = e := by decide
  constructor
  · rintro d hd rfl
    exact howned d hd
  · exact fun d hd _ => hdistinct d hd
  · exact fun d hd e he _ _ htask _ => hunique d hd e he htask
  · exact fun task h => Nat.lt_irrefl _ (lt_of_waits_sample h)

end Store

/-! ### What steps do to the dependencies -/

/-- The step leaves the dependencies and the owners of all tasks alone. -/
def Step.SparesGraph (s : Store) : Step → Prop
  | .call (.putTask t) => s.owner? t.id = some t.tenant
  | .call (.addDependency _) | .call (.removeDependency _ _) => False
  | _ => True

/-- The step is idle, or makes a dependency under the identifier which the store admits. -/
def Step.Makes (s : Store) (id : DependencyId) (st : Step) : Prop :=
  st.Idle ∨ ∃ d : Dependency, st = .call (.addDependency d) ∧ d.id = id ∧ s.Admits d

theorem Step.Idle.sparesGraph {st : Step} (h : st.Idle) (s : Store) : st.SparesGraph s := by
  cases st with
  | call c => cases c <;> trivial
  | _ => trivial

theorem Step.IdleOr.sparesGraph {kinds : List CallKind} {st : Step} (h : st.IdleOr kinds)
    (hput : .putTask ∉ kinds) (hadd : .addDependency ∉ kinds) (hremove : .removeDependency ∉ kinds)
    (s : Store) : st.SparesGraph s := by
  rcases h with h | ⟨c, rfl, hkind⟩
  · exact h.sparesGraph s
  · cases c with
    | putTask t => exact absurd hkind hput
    | addDependency d => exact absurd hkind hadd
    | removeDependency scope id => exact absurd hkind hremove
    | _ => trivial

theorem Exchange.sameGraph {sound : CallKind → Prop} {x : Exchange} {s s' : Store}
    (hx : x.step.SparesGraph s) (h : x.Carries sound s s') : s.SameGraph s' := by
  obtain ⟨st, e⟩ := x
  cases st with
  | call c =>
      cases c with
      | putTask t =>
          rcases carries_putTask h with ⟨-, rfl⟩ | ⟨_, -, rfl⟩
          · exact Store.sameGraph_put hx
          · exact .refl _
      | setState scope id state notes now =>
          rcases carries_setState h with ⟨t', -, hset⟩ | ⟨-, rfl⟩
          · obtain ⟨t, ht, rfl, rfl⟩ := Store.setState_eq_some_iff.mp hset
            have howner := Store.owner?_of_task? ht
            rw [← Store.id_eq_of_task? ht] at howner
            exact Store.sameGraph_put howner
          · exact .refl _
      | addChange c =>
          rcases carries_addChange h with ⟨-, -, rfl⟩ | ⟨_, -, rfl⟩
          · exact ⟨rfl, rfl, rfl, fun _ => rfl⟩
          · exact .refl _
      | announce m =>
          rcases carries_announce h with ⟨-, rfl⟩ | ⟨_, -, rfl⟩
          · exact ⟨rfl, rfl, rfl, fun _ => rfl⟩
          · exact .refl _
      | releaseParts tenant task =>
          cases h with
          | performed => exact .refl _
          | failed => exact .refl _
          | nothing _ _ _ _ hv => cases hv
      | addDependency d => exact hx.elim
      | removeDependency scope id => exact hx.elim
      | _ =>
          obtain rfl := store_of_reads (by trivial) h
          exact .refl _
  | _ =>
      obtain rfl := store_of_idle (by trivial) h
      exact .refl _

/-- The owners and the dependencies stay the same along steps that leave them alone. -/
theorem Exchange.sameGraph_trans {sound : CallKind → Prop} {x : Exchange} {s s₁ s₂ : Store}
    (hx : x.step.SparesGraph s) (h : x.Carries sound s₁ s₂) (hs : s.SameGraph s₁) :
    s.SameGraph s₂ := by
  refine hs.trans (sameGraph ?_ h)
  obtain ⟨st, e⟩ := x
  cases st with
  | call c =>
      cases c with
      | putTask t => exact (hs.owner? t.id).trans hx
      | _ => exact hx
  | _ => trivial

namespace Service

variable {sound : CallKind → Prop} {s s' : Store} {log : List Exchange}

/-- The steps for a new dependency are idle, or make one that the store admits. -/
theorem course_depend (hindexed : s.Indexed) {ctx : Context} {task prerequisite : TaskId}
    {kind : Option DependencyKind} {r : Except Failure Dependency}
    (h : Course sound (depend ctx task prerequisite kind) s log r s') :
    ∀ x ∈ log, x.step.Makes s ⟨ctx.fresh⟩ := by
  have hA : ∀ st : Step, st.Idle → st.Makes s ⟨ctx.fresh⟩ := fun _ => .inl
  unfold depend at h
  rcases course_guard h with ⟨rfl, -⟩ | ⟨hne, h₁⟩
  · simp
  refine log_of_reads hA (only_visibleTask trivial) h₁ fun waiting _ _ hwaiting h₂ => ?_
  refine log_of_reads hA (only_visibleTask trivial) h₂ fun awaited _ _ hawaited h₃ => ?_
  rcases course_guard h₃ with ⟨rfl, -⟩ | ⟨htenants, h₄⟩
  · simp
  obtain ⟨log', rfl, h₅⟩ := course_locked h₄
  suffices hmade : ∀ x ∈ log', x.step.Makes s ⟨ctx.fresh⟩ by
    intro x hx
    rcases List.mem_cons.mp hx with rfl | hx
    · exact .inl trivial
    · rcases List.mem_append.mp hx with hx | hx
      · exact hmade x hx
      · rw [List.mem_singleton.mp hx]
        exact .inl trivial
  refine log_of_reads hA (only_ask (by trivial)) h₅ fun present _ _ hpresent h₆ => ?_
  rcases course_guard h₆ with ⟨rfl, -⟩ | ⟨hnew, h₇⟩
  · simp
  refine log_of_reads hA (only_reaches (fun _ => trivial) _ _ _) h₇ fun circular _ _ hsearch h₈ => ?_
  rcases course_guard h₈ with ⟨rfl, -⟩ | ⟨hcircular, h₉⟩
  · simp
  refine log_of_reads hA (only_ensureActive trivial) h₉ fun _ _ _ _ h₁₀ => ?_
  refine log_of_reads hA (only_ofExcept _) h₁₀ fun now _ _ _ h₁₁ => ?_
  have hadmits : s.Admits ⟨⟨ctx.fresh⟩, waiting.tenant, task, prerequisite,
      kind.getD .finishToStart, now⟩ := by
    have htenant : awaited.tenant = waiting.tenant := (not_not.mp htenants).symm
    obtain ⟨-, hwaiting'⟩ := course_visibleTask hwaiting
    obtain ⟨-, hawaited'⟩ := course_visibleTask hawaited
    refine ⟨hne, ⟨Store.owner?_of_task? hwaiting', ?_⟩, ?_, ?_⟩
    · rw [← htenant]
      exact Store.owner?_of_task? hawaited'
    · intro e he het htask hpre
      obtain ⟨-, hx⟩ := course_ask_ok hpresent
      obtain ⟨-, rfl⟩ := Exchange.carries_dependenciesOf hx
      refine hnew (List.any_eq_true.mpr ⟨e, ?_, by simpa using hpre⟩)
      exact hindexed.mem_dependenciesOf.mpr ⟨he, het, htask⟩
    · rw [Bool.not_eq_true] at hcircular
      subst hcircular
      exact not_reaches hindexed hsearch (by simp) (by simp) prerequisite (.inr (by simp))
  intro x hx
  refine .inr ⟨_, h₁₁.only (P := (· = .call (.addDependency _))) ?_ x hx, rfl, hadmits⟩
  exact only_bind (only_ask rfl) fun _ => only_pure _

end Service

/-- Whatever a move writes belongs to the tenant that owned it before. -/
theorem Draft.Drawn.owner?_of_writes {sound : Prop} {s : Store} {ctx : Context} {m : Move}
    {d : Draft} (h : d.Drawn sound s ctx m) {t : Task} (ht : d.Writes t) :
    s.owner? t.id = some t.tenant := by
  obtain ⟨u, hu, -, heq⟩ := h.source_of_writes ht
  rw [Store.owner?_of_task? hu, heq]

theorem Draft.Allows.sparesGraph {sound : Prop} {s : Store} {ctx : Context} {m : Move} {d : Draft}
    (hd : d.Drawn sound s ctx m) {st : Step} (h : d.Allows st) : st.SparesGraph s := by
  cases h with
  | idle h => exact h.sparesGraph s
  | put h => exact hd.owner?_of_writes h
  | add ids => trivial
  | announce m => trivial

namespace World

variable {sound : CallKind → Prop} {w : World}

/-- Steps that leave the dependencies and the owners alone keep everything in order. -/
theorem inOrder_of_sparesGraph {α : Type} (hw : w.Within sound) {p : Program α}
    (hlog : ∀ x ∈ transcript p w, x.step.SparesGraph w.store) (h : w.store.InOrder) :
    ∀ v ∈ trail p w, v.store.InOrder := by
  intro v hv
  refine Store.SameGraph.inOrder ?_ h
  refine along hw p (J := w.store.SameGraph) ?_ (.refl _) v hv
  exact fun x hx _ _ hcarries => Exchange.sameGraph_trans (hlog x hx) hcarries

/-- Steps that make a dependency at most keep everything in order, when the store admits it. The
dependency is made at most once, as its identifier is taken afterwards. -/
theorem inOrder_of_makes {α : Type} (hw : w.Within sound) {p : Program α} {id : DependencyId}
    (hlog : ∀ x ∈ transcript p w, x.step.Makes w.store id) (h : w.store.InOrder) :
    ∀ v ∈ trail p w, v.store.InOrder := by
  intro v hv
  suffices hone : v.store = w.store ∨ ∃ d : Dependency, d.id = id ∧ w.store.Admits d ∧
      w.store.addDependency d = .ok v.store by
    rcases hone with hv | ⟨d, -, hd, hadd⟩
    · rwa [hv]
    · exact hd.inOrder hadd h
  refine along hw p (J := fun s => s = w.store ∨ ∃ d : Dependency, d.id = id ∧
    w.store.Admits d ∧ w.store.addDependency d = .ok s) ?_ (.inl rfl) v hv
  intro x hx s₁ s₂ hcarries hs₁
  rcases hlog x hx with hidle | ⟨d, hstep, hid, hadmits⟩
  · rwa [Exchange.store_of_idle hidle hcarries]
  obtain ⟨_, e⟩ := x
  subst hstep
  rcases Exchange.carries_addDependency hcarries with ⟨-, hadd⟩ | ⟨_, -, rfl⟩
  · rcases hs₁ with rfl | ⟨d', hid', -, hadd'⟩
    · exact .inr ⟨d, hid, hadmits, hadd⟩
    · obtain ⟨hnew, -⟩ := Store.addDependency_eq_ok_iff.mp hadd
      obtain ⟨-, -, -, rfl⟩ := Store.addDependency_eq_ok_iff.mp hadd'
      rw [Store.link, Table.find?_put, if_pos (hid'.trans hid.symm)] at hnew
      cases hnew
  · exact hs₁

/-- Steps that remove dependencies at most keep everything in order. -/
theorem inOrder_of_removes {α : Type} (hw : w.Within sound) {p : Program α}
    (hlog : ∀ x ∈ transcript p w, x.step.IdleOr [.removeDependency]) (h : w.store.InOrder) :
    ∀ v ∈ trail p w, v.store.InOrder := by
  refine along hw p ?_ h
  intro x hx s₁ s₂ hcarries hs₁
  rcases hlog x hx with hidle | ⟨c, hstep, hkind⟩
  · rwa [Exchange.store_of_idle hidle hcarries]
  obtain ⟨_, e⟩ := x
  subst hstep
  cases c with
  | removeDependency scope id =>
      rcases Exchange.carries_removeDependency hcarries with ⟨-, hremove⟩ | ⟨-, rfl⟩
      · exact hs₁.removeDependency hremove
      · exact hs₁
  | _ => simp [Call.kind] at hkind

/-- A request that neither makes nor removes a dependency leaves them and all owners alone. -/
theorem sparesGraph_transcriptOf (w : World) (q : Request)
    (hadd : .addDependency ∉ q.operation.kinds) (hremove : .removeDependency ∉ q.operation.kinds) :
    ∀ x ∈ w.transcriptOf q, x.step.SparesGraph w.store := by
  intro x hx
  rcases q.moves_or_spares with ⟨m, hop⟩ | ⟨hput, -⟩
  · obtain ⟨_, ⟨-, -, hidle⟩ | ⟨d, hdrawn, hallows, -⟩⟩ := w.ends_of_reschedule hop
    · exact (hidle x hx).sparesGraph _
    · exact (hallows x hx).sparesGraph hdrawn
  · exact (w.idleOr_transcriptOf q x hx).sparesGraph hput hadd hremove _

/-- A request keeps everything in order wherever it passes through. -/
theorem inOrder_trail (q : Request) (h : w.store.InOrder) :
    ∀ v ∈ trail q.service.run (w.facing q), v.store.InOrder := by
  have hwithin := within_facing w q
  have hcourse := course_handle w q
  have honly := w.idleOr_transcriptOf q
  have hspares := sparesGraph_transcriptOf w q
  obtain ⟨setup, ctx, operation, cancelled, faults, honest⟩ := q
  cases operation with
  | depend task prerequisite kind =>
      obtain ⟨_, -, hdepend⟩ := Service.course_map hcourse
      exact inOrder_of_makes hwithin (Service.course_depend h.indexed hdepend) h
  | undepend id => exact inOrder_of_removes hwithin honly h
  | _ =>
      exact inOrder_of_sparesGraph hwithin
        (hspares (by simp [Operation.kinds]) (by simp [Operation.kinds])) h

/-- A session that starts in order stays in order wherever it passes through: whoever asks for
whatever, whatever fails, and whenever a caller gives up. -/
theorem orderly_session (hindexed : w.store.Indexed) (h : ∀ tenant, w.store.Orderly tenant)
    (qs : List Request) : ∀ v ∈ w.session qs, ∀ tenant, v.store.Orderly tenant := by
  intro v hv
  exact (forall_session (fun _ q h => inOrder_trail q h) ⟨hindexed, h⟩ qs v hv).orderly

/-- A caller who wants the first task of the small store to wait for the last one is refused, and
everything stays in order. -/
theorem orderly_session_sample :
    let q : Request := {
      setup := {}
      ctx := ⟨⟨.ofNat 1, .ofNat 1, .scheduler⟩, Store.hour 0 0, 9⟩
      operation := .depend (.ofNat 1) (.ofNat 3) none }
    (({ store := .sample } : World).handle q).1 = .error (.conflict .circular) ∧
      ∀ v ∈ ({ store := .sample } : World).session [q], ∀ tenant, v.store.Orderly tenant :=
  ⟨by cbv, orderly_session Store.indexed_sample Store.orderly_sample _⟩

end World

end Overhaul
