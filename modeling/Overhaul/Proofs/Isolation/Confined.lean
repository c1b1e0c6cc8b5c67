import Overhaul.Proofs.Concurrency.Concerns
import Overhaul.Proofs.Store.Order

/-!
# Programs that keep to one tenant

What a program does next depends on what it is told. `Program.Confined` says that every step which
the program takes concerns one tenant, as long as all that it is told fits the records. It does not
mention a store, so that the same program can be looked at in two worlds at once. Main statement:
worlds in which the tenant finds the same cannot be told apart by such a program, and no other
tenant notices it in either of them (`Program.Confined.run`).
-/

namespace Overhaul

/-! ### Steps that concern a tenant -/

/-- The record is one of a task that belongs to the tenant. -/
def Registry.Owns (o : Registry) (a : TenantId) (t : Task) : Prop :=
  t.tenant = a ∧ o.task t.id = some (a, t.deleted)

/-- The step is about records of the tenant alone. Of all tasks only the tenant's are listed, and a
dependency is made between tasks that are there. -/
def Step.Concerns (o : Registry) (a : TenantId) : Step → Prop
  | .call (.tasksWhere f) => f.scope = .only a
  | .call (.addDependency d) => (Call.addDependency d).Concerns o a ∧
      ∀ t ∈ [d.task, d.prerequisite], (o.task t).isSome = true
  | .call c => c.Concerns o a
  | .lock _ | .unlock _ | .isCancelled => True

/-- What the step is told fits the records: what is found is what was looked for, it is in the
scope, and it belongs to whom the registry gives it to. -/
def Step.Fits (o : Registry) : (st : Step) → st.Reply → Prop
  | .call (.task scope id), .ok (some t) => t.id = id ∧ scope.includes t.tenant = true ∧
      o.task id = some (t.tenant, t.deleted)
  | .call (.tasksWhere f), .ok ts => ∀ t ∈ (ts : List Task), f.scope.includes t.tenant = true
  | .call (.setState scope _ _ _ _), .ok (some t) => scope.includes t.tenant = true
  | .call (.dependency scope _), .ok (some d) => scope.includes d.tenant = true
  | _, _ => True

section

variable {o o' : Registry} {a b : TenantId} {s s' : Store} {sound : CallKind → Prop}

/-- A call either concerns the tenant by itself, or lists its tasks. -/
theorem Step.Concerns.call {c : Call} (h : Step.Concerns o a (.call c)) :
    c.Concerns o a ∨ ∃ f, c = .tasksWhere f ∧ f.scope = .only a := by
  cases c with
  | tasksWhere f => exact .inr ⟨f, rfl, h⟩
  | addDependency d => exact .inl h.1
  | _ => exact .inl h

theorem Store.Registered.reply_step (hs : s.Registered o) {c : Call}
    (h : Step.Concerns o a (.call c)) : (s.reply c).2.Registered o := by
  rcases h.call with hc | ⟨f, rfl, -⟩
  · exact hs.reply hc
  · exact hs

theorem Store.Registered.sameFor_reply_step (hs : s.Registered o) {c : Call}
    (h : Step.Concerns o a (.call c)) (hb : b ≠ a) : (s.reply c).2.SameFor b s := by
  rcases h.call with hc | ⟨f, rfl, -⟩
  · exact hs.sameFor_reply hc hb
  · exact .refl b s

/-- What a store answers fits its records. -/
theorem Store.Registered.fits_reply (hs : s.Registered o) (c : Call) :
    Step.Fits o (.call c) (s.reply c).1 := by
  cases c with
  | task scope id =>
      change Step.Fits o (.call (.task scope id)) (.ok (s.task? scope id))
      cases ht : s.task? scope id with
      | none => trivial
      | some t => exact ⟨id_eq_of_task? ht, (task?_eq_some_iff.mp ht).2.1, hs.owner_of_task? ht⟩
  | tasksWhere f =>
      intro t ht
      have hadmits := (List.mem_filter.mp (List.mem_mergeSort.mp ht)).2
      simp only [TaskFilter.admits, Bool.and_eq_true] at hadmits
      exact hadmits.1.1
  | setState scope id state notes now =>
      rw [reply_setState]
      cases ht : s.task? scope id with
      | none => trivial
      | some t => exact (task?_eq_some_iff.mp ht).2.1
  | dependency scope id =>
      change Step.Fits o (.call (.dependency scope id)) (.ok (s.dependency? scope id))
      cases hd : s.dependency? scope id with
      | none => trivial
      | some d => exact (Option.filter_eq_some_iff.mp hd).2
  | _ => trivial

/-- Whatever happens to a step that concerns the tenant, everything is left with its owners, what
the step is told fits the records, and no other tenant notices it. -/
theorem Step.Concerns.carries {x : Exchange} (h : x.step.Concerns o a)
    (hx : x.Carries sound s s') (hs : s.Registered o) :
    s'.Registered o ∧ x.step.Fits o x.reply ∧ ∀ b, b ≠ a → s'.SameFor b s := by
  cases hx with
  | performed c =>
      exact ⟨hs.reply_step h, hs.fits_reply c, fun b hb => hs.sameFor_reply_step h hb⟩
  | failed c text =>
      refine ⟨hs, ?_, fun b _ => .refl b s⟩
      cases c <;> trivial
  | nothing c v _ _ hv =>
      refine ⟨hs, ?_, fun b _ => .refl b s⟩
      cases c with
      | task scope id => cases hv; trivial
      | setState scope id state notes now => cases hv; trivial
      | dependency scope id => cases hv; trivial
      | tasksWhere f => cases hv
      | _ => trivial
  | lock | unlock | isCancelled => exact ⟨hs, trivial, fun b _ => .refl b s⟩

/-! ### Where the tenant finds the same -/

/-- A tenant's tasks are listed alike where it finds the same. -/
theorem Store.SameFor.tasksWhere (h : s.SameFor a s') {f : TaskFilter} (hf : f.scope = .only a) :
    s.tasksWhere f = s'.tasksWhere f := by
  have hadmits : ∀ t, f.admits t = true → a = t.tenant := by
    intro t ht
    simp only [TaskFilter.admits, hf, Scope.includes_only, Bool.and_eq_true,
      decide_eq_true_eq] at ht
    exact ht.1.1
  have hmem : ∀ s : Store, ∀ t, t ∈ s.tasks.rows.filter f.admits ↔
      s.taskOf a t.id = some t ∧ f.admits t = true := by
    intro s t
    rw [List.mem_filter, taskOf_eq_some_iff, Table.find?_eq_some_iff]
    constructor
    · rintro ⟨hrow, ht⟩
      exact ⟨⟨⟨hrow, rfl⟩, hadmits t ht⟩, ht⟩
    · rintro ⟨⟨⟨hrow, -⟩, -⟩, ht⟩
      exact ⟨hrow, ht⟩
  have hnodup : ∀ s : Store, ((s.tasks.rows.filter f.admits).map Task.id).Nodup :=
    fun s => s.tasks.nodup.sublist (List.filter_sublist.map _)
  refine mergeSort_eq_of_perm Task.precedes_iff Task.id_eq_of_rank ?_ (hnodup s)
  refine perm_of_nodup_map (hnodup s) (hnodup s') fun t => ?_
  rw [hmem, hmem, h.tasks]

/-- A call of a step that concerns the tenant is answered alike where the tenant finds the same, and
leaves the same for it. -/
theorem Store.SameFor.reply_step (h : s.SameFor a s') (hs : s.Registered o)
    (hs' : s'.Registered o') {c : Call} (hc : Step.Concerns o a (.call c))
    (hc' : Step.Concerns o' a (.call c)) :
    (s.reply c).1 = (s'.reply c).1 ∧ (s.reply c).2.SameFor a (s'.reply c).2 := by
  rcases hc.call with hconcerns | ⟨f, rfl, hf⟩
  · rcases hc'.call with hconcerns' | ⟨f, rfl, -⟩
    · refine h.reply_of_known hs hs' hconcerns hconcerns' ?_
      rintro d rfl t ht
      rw [hc.2 t ht, hc'.2 t ht]
    · exact hconcerns.elim
  · exact ⟨congrArg Except.ok (h.tasksWhere hf), h⟩

end

namespace World

variable {o o' : Registry} {a : TenantId} {w : World} {s' : Store}

/-- What is done with a call depends on the store alone, but for the parts that are given back. -/
theorem perform_with (w : World) (s' : Store) (c : Call) :
    ({ w with store := s' } : World).perform c =
      ((s'.reply c).1, { (w.perform c).2 with store := (s'.reply c).2 }) := by
  cases c with
  | putTask t =>
      simp only [Store.reply, perform]
      cases w.store.putTask t <;> cases s'.putTask t <;> rfl
  | setState scope id state notes now =>
      simp only [Store.reply, perform]
      cases w.store.setState scope id state notes now <;>
        cases s'.setState scope id state notes now <;> rfl
  | addDependency d =>
      simp only [Store.reply, perform]
      cases w.store.addDependency d <;> cases s'.addDependency d <;> rfl
  | removeDependency scope id =>
      simp only [Store.reply, perform]
      cases w.store.removeDependency scope id <;> cases s'.removeDependency scope id <;> rfl
  | addChange c =>
      simp only [Store.reply, perform]
      cases w.store.addChange c <;> cases s'.addChange c <;> rfl
  | _ => rfl

/-- A call that two stores would answer alike is answered alike, whatever happens to it. Either both
stores are left as the call leaves them, or both as they were. -/
theorem answer_with {c : Call} (h : (w.store.reply c).1 = (s'.reply c).1) :
    ∃ left, ({ w with store := s' } : World).answer c =
        ((w.answer c).1, { (w.answer c).2 with store := left }) ∧
      ((w.answer c).2.store = w.store ∧ left = s' ∨
        (w.answer c).2.store = (w.store.reply c).2 ∧ left = (s'.reply c).2) := by
  have hperformed : ∀ v : World, v.store = w.store →
      ({ v with store := s' } : World).perform c =
          ((v.perform c).1, { (v.perform c).2 with store := (s'.reply c).2 }) ∧
        (v.perform c).2.store = (w.store.reply c).2 := by
    intro v hv
    rw [perform_with, perform_fst, store_perform, hv, h]
    exact ⟨rfl, rfl⟩
  unfold answer nextFault
  dsimp only
  cases w.faults c.kind with
  | nil =>
      obtain ⟨hperform, hstore⟩ := hperformed w rfl
      exact ⟨_, hperform, .inr ⟨hstore, rfl⟩⟩
  | cons f rest =>
      let past : World := { w with faults := fun k => if k = c.kind then rest else w.faults k }
      obtain ⟨hperform, hstore⟩ := hperformed past rfl
      cases f with
      | none => exact ⟨_, hperform, .inr ⟨hstore, rfl⟩⟩
      | fail text => exact ⟨s', rfl, .inl ⟨rfl, rfl⟩⟩
      | cancel =>
          obtain ⟨hperform, hstore⟩ := hperformed { past with cancelled := true } rfl
          exact ⟨_, hperform, .inr ⟨hstore, rfl⟩⟩
      | nothing =>
          cases c.nothing? with
          | none => exact ⟨_, hperform, .inr ⟨hstore, rfl⟩⟩
          | some v => exact ⟨s', rfl, .inl ⟨rfl, rfl⟩⟩
      | posing state =>
          let posed : Except CallError c.Value × World → Except CallError c.Value × World :=
            fun r => (r.1.map (c.posing state), r.2)
          have hposed := congrArg posed hperform
          exact ⟨(s'.reply c).2, hposed, .inr ⟨hstore, rfl⟩⟩

/-- A step that concerns the tenant tells the same in two worlds in which the tenant finds the same,
and leaves the same for it. -/
theorem take_with (h : w.store.SameFor a s') (hs : w.store.Registered o) (hs' : s'.Registered o')
    {st : Step} (hst : st.Concerns o a) (hst' : st.Concerns o' a) :
    ∃ left, ({ w with store := s' } : World).take st =
        ((w.take st).1, { (w.take st).2 with store := left }) ∧
      (w.take st).2.store.SameFor a left := by
  cases st with
  | call c =>
      obtain ⟨hreply, hsame⟩ := h.reply_step hs hs' hst hst'
      obtain ⟨left, hanswer, hstores⟩ := answer_with hreply
      refine ⟨left, hanswer, ?_⟩
      rcases hstores with ⟨hstore, rfl⟩ | ⟨hstore, rfl⟩
      · exact hstore ▸ h
      · exact hstore ▸ hsame
  | lock tenant => exact ⟨s', rfl, h⟩
  | unlock tenant => exact ⟨s', rfl, h⟩
  | isCancelled => exact ⟨s', rfl, h⟩

end World

/-! ### Confined programs -/

/-- Every step that the program takes concerns the tenant, and what it is done with is in `Q`, as
long as it is told only what fits the records. -/
def Program.Confined {α : Type} (o : Registry) (a : TenantId) (Q : α → Prop) : Program α → Prop
  | .done x => Q x
  | .step st next => st.Concerns o a ∧ ∀ r, st.Fits o r → (next r).Confined o a Q

section

variable {α β : Type} {o o' : Registry} {a : TenantId}

theorem Program.Confined.bind {Q : α → Prop} {R : β → Prop} {p : Program α} {f : α → Program β}
    (hp : p.Confined o a Q) (hf : ∀ x, Q x → (f x).Confined o a R) : (p >>= f).Confined o a R := by
  induction p with
  | done x => exact hf x hp
  | step st next ih => exact ⟨hp.1, fun r hr => ih r (hp.2 r hr)⟩

/-- Worlds that hold different records, but the same of the tenant, cannot be told apart by a
program that keeps to the tenant. They still hold the same of it afterwards, and the same of
everyone else as before. -/
theorem Program.Confined.run {Q : α → Prop} {p : Program α} (hp : p.Confined o a Q)
    (hp' : p.Confined o' a Q) {w : World} (hw : w.Within fun _ => False) {s' : Store}
    (h : w.store.SameFor a s') (hs : w.store.Registered o) (hs' : s'.Registered o') :
    ∃ left, World.run p { w with store := s' } =
        ((World.run p w).1, { (World.run p w).2 with store := left }) ∧
      (World.run p w).2.store.SameFor a left ∧
      ∀ b, b ≠ a → (World.run p w).2.store.SameFor b w.store ∧ left.SameFor b s' := by
  induction p generalizing w s' with
  | done x => exact ⟨s', rfl, h, fun b _ => ⟨.refl b _, .refl b _⟩⟩
  | step st next ih =>
      obtain ⟨left, htake, hsame⟩ := World.take_with h hs hs' hp.1 hp'.1
      obtain ⟨hs₁, hfits, hothers⟩ :=
        Step.Concerns.carries hp.1 (World.carries_take hw st) hs
      have hcarries' := World.carries_take (w := { w with store := s' }) hw st
      rw [htake] at hcarries'
      obtain ⟨hs₁', hfits', hothers'⟩ := Step.Concerns.carries hp'.1 hcarries' hs'
      obtain ⟨left₁, hrun, hsame₁, hothers₁⟩ := ih (w.take st).1 (hp.2 _ hfits) (hp'.2 _ hfits')
        (hw.faults (World.faults_take w st)) hsame hs₁ hs₁'
      refine ⟨left₁, ?_, hsame₁, fun b hb => ?_⟩
      · rw [World.run_step, World.run_step, htake]
        exact hrun
      · obtain ⟨hleft, hleft'⟩ := hothers₁ b hb
        exact ⟨hleft.trans (hothers b hb), hleft'.trans (hothers' b hb)⟩

end

/-! ### Confined services -/

namespace Service

variable {α β : Type} {o : Registry} {a : TenantId} {Q : α → Prop} {R : β → Prop}

/-- Every step of the service concerns the tenant, and what it succeeds with is in `Q`, as long as
it is told only what fits the records. -/
def Confined (o : Registry) (a : TenantId) (Q : α → Prop) (p : Service α) : Prop :=
  Program.Confined o a (fun r => ∀ x, r = .ok x → Q x) p.run

theorem confined_pure {x : α} (h : Q x) : Confined o a Q (pure x) := by
  intro y hy
  cases hy
  exact h

theorem confined_throw (f : Failure) : Confined o a Q (throw f : Service α) := by
  intro y hy
  cases hy

theorem confined_ofExcept {e : Except Failure α} (h : ∀ x, e = .ok x → Q x) :
    Confined o a Q (Service.ofExcept e) := h

theorem confined_ofExcept_any (e : Except Failure α) :
    Confined o a (fun _ => True) (Service.ofExcept e) :=
  confined_ofExcept fun _ _ => trivial

theorem confined_bind {p : Service α} {f : α → Service β} (hp : Confined o a Q p)
    (hf : ∀ x, Q x → Confined o a R (f x)) : Confined o a R (p >>= f) := by
  refine Program.Confined.bind hp fun r hr => ?_
  cases r with
  | ok x => exact hf x (hr x rfl)
  | error e => exact confined_throw e

theorem confined_guard {c : Prop} [Decidable c] {f : Failure} {k : Unit → Service α}
    (h : ¬c → Confined o a Q (k ())) : Confined o a Q (if c then throw f >>= k else k ()) := by
  split
  · exact confined_throw f
  · rename_i hc
    exact h hc

/-- Something may be done first, and is forgotten. -/
theorem confined_perhaps {c : Prop} [Decidable c] {p : Service α} {rest : Service β}
    (hp : Confined o a Q p) (hrest : Confined o a R rest) :
    Confined o a R (if c then p >>= fun _ => rest else rest) := by
  split
  · exact confined_bind hp fun _ _ => hrest
  · exact hrest

/-- Nothing is said of what is made of the result. -/
theorem confined_map {p : Service α} {f : α → β} (hp : Confined o a Q p) :
    Confined o a (fun _ => True) (f <$> p) := by
  rw [← bind_pure_comp]
  exact confined_bind hp fun _ _ => confined_pure trivial

/-- A service whose steps all concern the tenant keeps to it. -/
theorem confined_of_only {p : Service α} (hp : Only (Step.Concerns o a) p) :
    Confined o a (fun _ => True) p := by
  have hprogram : ∀ p : Program (Except Failure α), p.Only (Step.Concerns o a) →
      p.Confined o a fun r => ∀ x, r = .ok x → True := by
    intro p hp
    induction p with
    | done r => exact fun _ _ => trivial
    | step st next ih => exact ⟨hp.1, fun r _ => ih r (hp.2 r)⟩
  exact hprogram p.run hp

theorem confined_outcome {p : Service α} (hp : Confined o a Q p) :
    Confined o a (fun r => ∀ x, r = .ok x → Q x) p.outcome := by
  change Program.Confined o a _ (Except.ok <$> p.run)
  rw [← bind_pure_comp]
  refine Program.Confined.bind hp fun r hr => ?_
  intro e he
  cases he
  exact hr

theorem confined_attempt {c : Call} (h : Step.Concerns o a (.call c)) :
    Confined o a (Step.Fits o (.call c)) (attempt c) := by
  refine ⟨h, fun r hr => ?_⟩
  intro e he
  cases he
  exact hr

theorem confined_ask {c : Call} (h : Step.Concerns o a (.call c)) :
    Confined o a (fun v => Step.Fits o (.call c) (.ok v)) (ask c) := by
  refine confined_bind (confined_attempt h) fun r hr => ?_
  cases r with
  | ok v => exact confined_pure hr
  | error cause => exact confined_throw _

theorem confined_ensureActive : Confined o a (fun _ => True) ensureActive :=
  confined_of_only (only_ensureActive trivial)

theorem confined_locked {tenant : TenantId} {p : Service α} (hp : Confined o a Q p) :
    Confined o a Q (locked tenant p) := by
  have hlock : Confined o a (fun _ => True) (ExceptT.lift (Program.only (.lock tenant))) :=
    confined_of_only ⟨trivial, fun _ => trivial⟩
  have hunlock : Confined o a (fun _ => True) (ExceptT.lift (Program.only (.unlock tenant))) :=
    confined_of_only ⟨trivial, fun _ => trivial⟩
  refine confined_bind hlock fun _ _ => ?_
  refine confined_bind (confined_outcome hp) fun r hr => ?_
  exact confined_bind hunlock fun _ _ => confined_ofExcept hr

end Service

end Overhaul
