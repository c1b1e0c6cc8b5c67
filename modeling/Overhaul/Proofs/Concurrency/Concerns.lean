import Overhaul.Proofs.Store.Tenants

/-!
# Calls that concern one tenant

A call concerns a tenant when it is about that tenant's records alone. Main statements: it is then
answered alike wherever the tenant finds the same, and leaves the same there (`Store.SameFor.reply`),
and no other tenant notices it (`Store.Registered.sameFor_reply`).
-/

namespace Overhaul

/-- The call is about records of the tenant alone. Listing tasks never is. -/
def Call.Concerns (o : Registry) (a : TenantId) : Call → Prop
  | .task scope id => scope = .only a ∨ ∃ deleted, o.task id = some (a, deleted)
  | .putTask t => t.tenant = a ∧ o.task t.id = some (a, t.deleted)
  | .tasksWhere _ => False
  | .setState scope _ _ _ _ => scope = .only a
  | .addDependency d => d.tenant = a ∧ o.dependency d.id = a
  | .dependency scope _ => scope = .only a
  | .removeDependency scope _ => scope = .only a
  | .dependenciesOf scope _ => scope = .only a
  | .dependentsOf scope _ => scope = .only a
  | .addChange c => c.tenant = a ∧ o.change c.id = a
  | .changesOf scope _ => scope = .only a
  | .announce m => m.tenant = a ∧ ∃ task, m.key = Message.taskKey a task
  | .releaseParts _ _ => True

namespace Store

/-! ### What calls are answered, and what they leave -/

theorem reply_putTask (s : Store) (t : Task) :
    s.reply (.putTask t) = match s.tasks.find? t.id with
      | some _ => (.ok (), { s with tasks := s.tasks.put t })
      | none => (.error (.refused (.taskNotFound t.id)), s) := by
  simp only [reply, World.perform, Store.putTask]
  cases s.tasks.find? t.id <;> rfl

theorem reply_setState (s : Store) (scope : Scope) (id : TaskId) (state : TaskState)
    (notes : String) (now : Timestamp) :
    s.reply (.setState scope id state notes now) = match s.task? scope id with
      | some t =>
        let t := { t with state, notes := withNotes t.notes notes, updated := now }
        (.ok (some t), { s with tasks := s.tasks.put t })
      | none => (.ok none, s) := by
  simp only [reply, World.perform, Store.setState]
  cases s.task? scope id <;> rfl

theorem reply_addDependency (s : Store) (d : Dependency) :
    s.reply (.addDependency d) = match s.dependencies.find? d.id with
      | some _ => (.error (.refused (.duplicateDependency d.id)), s)
      | none =>
        match [d.task, d.prerequisite].find? fun t => (s.tasks.find? t).isNone with
        | some unknown => (.error (.refused (.danglingDependency d.id unknown)), s)
        | none => (.ok (), s.link d) := by
  simp only [reply, World.perform, Store.addDependency]
  cases s.dependencies.find? d.id with
  | some e => rfl
  | none => cases [d.task, d.prerequisite].find? fun t => (s.tasks.find? t).isNone <;> rfl

theorem reply_removeDependency (s : Store) (scope : Scope) (id : DependencyId) :
    s.reply (.removeDependency scope id) = match s.dependency? scope id with
      | some d => (.ok true, s.unlink d)
      | none => (.ok false, s) := by
  simp only [reply, World.perform, Store.removeDependency]
  cases s.dependency? scope id <;> rfl

theorem reply_addChange (s : Store) (c : ScheduleChange) :
    s.reply (.addChange c) = match s.changes.find? c.id with
      | some _ => (.error (.refused (.duplicateChange c.id)), s)
      | none => (.ok (), { s with changes := s.changes.put c }) := by
  simp only [reply, World.perform, Store.addChange]
  cases s.changes.find? c.id <;> rfl

variable {o o' : Registry} {a b : TenantId} {s s' : Store} {c : Call}

/-- A visible task belongs to whom the registry gives it to. -/
theorem Registered.owner_of_task? (hs : s.Registered o) {scope : Scope} {id : TaskId} {t : Task}
    (ht : s.task? scope id = some t) : o.task id = some (t.tenant, t.deleted) := by
  rw [← hs.tasks, (task?_eq_some_iff.mp ht).1]
  rfl

theorem Registered.tenant_of_task? (hs : s.Registered o) {scope : Scope} {id : TaskId} {t : Task}
    {deleted : Option Timestamp} (hid : o.task id = some (a, deleted))
    (ht : s.task? scope id = some t) : t.tenant = a := by
  have howner := hs.owner_of_task? ht
  rw [hid] at howner
  cases howner
  rfl

/-- A task that is visible in one store is visible in all with the same registry. -/
theorem Registered.exists_task? (hs : s.Registered o) (hs' : s'.Registered o) {scope : Scope}
    {id : TaskId} {t : Task} (ht : s.task? scope id = some t) :
    ∃ t', s'.task? scope id = some t' ∧ t'.tenant = t.tenant := by
  obtain ⟨-, hscope, hvisible⟩ := task?_eq_some_iff.mp ht
  have howner := hs.owner_of_task? ht
  rw [← hs'.tasks] at howner
  obtain ⟨t', ht', hmap⟩ := Option.map_eq_some_iff.mp howner
  obtain ⟨htenant, hdeleted⟩ := Prod.mk.inj hmap
  exact ⟨t', task?_eq_some_iff.mpr ⟨ht', by rwa [htenant], by rwa [hdeleted]⟩, htenant⟩

theorem tenant_of_task?_only {id : TaskId} {t : Task} (ht : s.task? (.only a) id = some t) :
    t.tenant = a := by
  obtain ⟨-, htenant, -⟩ := task?_eq_some_iff.mp ht
  simpa [eq_comm] using htenant

theorem tenant_of_dependency?_only {id : DependencyId} {d : Dependency}
    (hd : s.dependency? (.only a) id = some d) : d.tenant = a := by
  have h := (Option.filter_eq_some_iff.mp hd).2
  simpa [eq_comm] using h

/-- A call that concerns a tenant leaves everything with its owners. -/
theorem Registered.reply (hs : s.Registered o) (hc : c.Concerns o a) :
    (s.reply c).2.Registered o := by
  cases c with
  | putTask t =>
      rw [reply_putTask]
      cases s.tasks.find? t.id with
      | none => exact hs
      | some _ => exact hs.putTask (by rw [hc.1, hc.2])
  | setState scope id state notes now =>
      rw [reply_setState]
      cases ht : s.task? scope id with
      | none => exact hs
      | some t =>
          have howner := hs.owner_of_task? ht
          rw [← id_eq_of_task? ht] at howner
          exact hs.putTask howner
  | addDependency d =>
      rw [reply_addDependency]
      split
      · exact hs
      · split
        · exact hs
        · exact hs.link (by rw [hc.1, hc.2])
  | removeDependency scope id =>
      rw [reply_removeDependency]
      split
      · exact hs.unlink _
      · exact hs
  | addChange c =>
      rw [reply_addChange]
      split
      · exact hs
      · exact hs.addChange (by rw [hc.1, hc.2])
  | announce m =>
      obtain ⟨rfl, task, hkey⟩ := hc
      exact hs.announce hkey
  | _ => exact hs

/-- No other tenant notices a call that concerns one. -/
theorem Registered.sameFor_reply (hs : s.Registered o) (hc : c.Concerns o a) (hb : b ≠ a) :
    (s.reply c).2.SameFor b s := by
  cases c with
  | putTask t =>
      obtain ⟨rfl, ht⟩ := hc
      rw [reply_putTask]
      cases s.tasks.find? t.id with
      | none => exact .refl b s
      | some _ => exact hs.sameFor_putTask ht hb
  | setState scope id state notes now =>
      cases hc
      rw [reply_setState]
      cases ht : s.task? (.only a) id with
      | none => exact .refl b s
      | some t =>
          have howner := hs.owner_of_task? ht
          rw [← id_eq_of_task? ht] at howner
          refine hs.sameFor_putTask howner ?_
          dsimp only
          rwa [tenant_of_task?_only ht]
  | addDependency d =>
      obtain ⟨rfl, hd⟩ := hc
      rw [reply_addDependency]
      split
      · exact .refl b s
      · split
        · exact .refl b s
        · exact hs.sameFor_link hd.symm hb
  | removeDependency scope id =>
      cases hc
      rw [reply_removeDependency]
      cases hd : s.dependency? (.only a) id with
      | none => exact .refl b s
      | some d =>
          have hfound := (Option.filter_eq_some_iff.mp hd).1
          have howner := hs.dependencies d (Table.find?_eq_some_iff.mp hfound).1
          exact hs.sameFor_unlink howner (by rwa [tenant_of_dependency?_only hd])
  | addChange c =>
      obtain ⟨rfl, hid⟩ := hc
      rw [reply_addChange]
      split
      · exact .refl b s
      · exact hs.sameFor_addChange hid.symm hb
  | announce m =>
      obtain ⟨rfl, task, hkey⟩ := hc
      exact hs.sameFor_announce hkey hb
  | _ => exact .refl b s

/-- A call that concerns a tenant is answered alike where it finds the same, and leaves the same for
it. What the stores hold of other tenants may differ, as long as both know the ends of a dependency
that is added, or neither. -/
theorem SameFor.reply_of_known (h : s.SameFor a s') (hs : s.Registered o) (hs' : s'.Registered o')
    (hc : c.Concerns o a) (hc' : c.Concerns o' a)
    (hknown : ∀ d, c = .addDependency d → ∀ t ∈ [d.task, d.prerequisite],
      (o.task t).isSome = (o'.task t).isSome) :
    (s.reply c).1 = (s'.reply c).1 ∧ (s.reply c).2.SameFor a (s'.reply c).2 := by
  cases c with
  | task scope id =>
      refine ⟨congrArg Except.ok ?_, h⟩
      rcases hc with rfl | ⟨deleted, hid⟩
      · rw [task?_only, task?_only, h.tasks]
      · rcases hc' with rfl | ⟨deleted', hid'⟩
        · rw [task?_only, task?_only, h.tasks]
        · rw [task?, task?, h.find?_task hs hs' hid hid']
  | putTask t =>
      rw [reply_putTask, reply_putTask, h.find?_task hs hs' hc.2 hc'.2]
      cases s'.tasks.find? t.id with
      | none => exact ⟨rfl, h⟩
      | some _ => exact ⟨rfl, h.putTask t⟩
  | tasksWhere f => exact hc.elim
  | setState scope id state notes now =>
      cases hc
      rw [reply_setState, reply_setState, task?_only, task?_only, h.tasks]
      cases (s'.taskOf a id).filter fun t => t.deleted.isNone with
      | none => exact ⟨rfl, h⟩
      | some t => exact ⟨rfl, h.putTask _⟩
  | addDependency d =>
      have hend : ∀ t ∈ [d.task, d.prerequisite],
          (s.tasks.find? t).isNone = (s'.tasks.find? t).isNone := by
        intro t ht
        rw [← Option.not_isSome, ← Option.not_isSome, hs.isSome_find?, hs'.isSome_find?,
          hknown d rfl t ht]
      have hends : [d.task, d.prerequisite].find? (fun t => (s.tasks.find? t).isNone) =
          [d.task, d.prerequisite].find? fun t => (s'.tasks.find? t).isNone := by
        simp only [List.find?_cons, List.find?_nil, hend d.task (by simp),
          hend d.prerequisite (by simp)]
      rw [reply_addDependency, reply_addDependency, h.find?_dependency hs hs' hc.2 hc'.2, hends]
      split
      · exact ⟨rfl, h⟩
      · split
        · exact ⟨rfl, h⟩
        · exact ⟨rfl, h.link d⟩
  | dependency scope id =>
      cases hc
      exact ⟨congrArg Except.ok (h.dependencies id), h⟩
  | removeDependency scope id =>
      cases hc
      have hfound : s.dependency? (.only a) id = s'.dependency? (.only a) id := h.dependencies id
      rw [reply_removeDependency, reply_removeDependency, hfound]
      split
      · exact ⟨rfl, h.unlink _⟩
      · exact ⟨rfl, h⟩
  | dependenciesOf scope task =>
      cases hc
      exact ⟨congrArg Except.ok (h.listed (h.prerequisites task)), h⟩
  | dependentsOf scope task =>
      cases hc
      exact ⟨congrArg Except.ok (h.listed (h.dependents task)), h⟩
  | addChange c =>
      obtain ⟨ha, hid⟩ := hc
      have hnew := h.isSome_find?_change hs hs' hid hc'.2
      rw [reply_addChange, reply_addChange]
      cases hfound : s.changes.find? c.id with
      | some e =>
          rw [hfound] at hnew
          obtain ⟨e', he'⟩ := Option.isSome_iff_exists.mp hnew.symm
          rw [he']
          exact ⟨rfl, h⟩
      | none =>
          rw [hfound] at hnew
          have hnone : s'.changes.find? c.id = none := by simpa using hnew
          rw [hnone]
          exact ⟨rfl, h.addChange hs hs' (ha.trans hid.symm) (ha.trans hc'.2.symm) ha⟩
  | changesOf scope task =>
      cases hc
      have hpart : ∀ s : Store, s.changesOf (.only a) task =
          (s.changesFor a).filter fun c => c.task = task := by
        intro s
        rw [changesOf, changesFor, List.filter_filter]
        rfl
      refine ⟨congrArg Except.ok ?_, h⟩
      rw [hpart, hpart, h.changes]
  | announce m =>
      obtain ⟨rfl, task, hkey⟩ := hc
      exact ⟨rfl, h.announce hs hs' hkey rfl⟩
  | releaseParts tenant task => exact ⟨rfl, h⟩

/-- A call that concerns a tenant is answered alike in stores with one registry where the tenant finds
the same, and leaves the same for it. -/
theorem SameFor.reply (h : s.SameFor a s') (hs : s.Registered o) (hs' : s'.Registered o)
    (hc : c.Concerns o a) :
    (s.reply c).1 = (s'.reply c).1 ∧ (s.reply c).2.SameFor a (s'.reply c).2 :=
  h.reply_of_known hs hs' hc hc fun _ _ _ _ => rfl

end Store

end Overhaul
