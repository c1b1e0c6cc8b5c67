import Overhaul.Proofs.Conflicts
import Overhaul.Proofs.Dependencies.Acyclic
import Overhaul.Proofs.Reschedule.Cascade

/-!
# Putting tasks off

A task that is put off together with everything that waits for it gets into nobody's way that it was
not in before, provided that no task waits for itself. Main statement: `postponed`.
-/

namespace Overhaul

open Relation

namespace Store

/-- What a displacement of the root makes of the record of a task. -/
inductive Displaces (root : Task) (start finish : Timestamp) (nanos : Int) (moved : List TaskId) :
    Task → Task → Prop
  | root (updated : Timestamp) :
      Displaces root start finish nanos moved root { root with start, finish, updated }
  | moved {t : Task} {start' finish' : Timestamp} (updated : Timestamp) :
      t.id ∈ moved → t.start.shift? nanos = some start' → t.finish.shift? nanos = some finish' →
      Displaces root start finish nanos moved t
        { t with start := start', finish := finish', updated }
  | other {t : Task} :
      t.id ≠ root.id → t.id ∉ moved → Displaces root start finish nanos moved t t

variable {s s' : Store} {root : Task} {start finish now : Timestamp} {nanos : Int}
  {moved : List TaskId} {t t' : Task}

theorem Displaces.tenant (h : Displaces root start finish nanos moved t t') :
    t'.tenant = t.tenant := by cases h <;> rfl

theorem Displaces.state (h : Displaces root start finish nanos moved t t') :
    t'.state = t.state := by cases h <;> rfl

theorem Displaces.deleted (h : Displaces root start finish nanos moved t t') :
    t'.deleted = t.deleted := by cases h <;> rfl

/-- When the root is not moved forward, nothing is. -/
theorem Displaces.start_le (h : Displaces root start finish nanos moved t t')
    (hstart : root.start.unixNanos ≤ start.unixNanos) (hnanos : 0 ≤ nanos) :
    t.start.unixNanos ≤ t'.start.unixNanos := by
  cases h with
  | root _ => exact hstart
  | moved _ _ hstart' _ =>
      have hshift := (Timestamp.shift?_eq_some_iff.mp hstart').1
      dsimp only
      omega
  | other _ _ => exact Int.le_refl _

/-- A task that is moved along starts as much later as was said. -/
theorem Displaces.start_eq (h : Displaces root start finish nanos moved t t')
    (hmem : t.id ∈ moved) (hroot : root.id ∉ moved) :
    t'.start.unixNanos = t.start.unixNanos + nanos := by
  cases h with
  | root _ => exact absurd hmem hroot
  | moved _ _ hstart' _ => exact (Timestamp.shift?_eq_some_iff.mp hstart').1
  | other _ hnot => exact absurd hmem hnot

/-- A task ends when it did, or is displaced and ends as much later as was said. -/
theorem Displaces.finish_eq (h : Displaces root start finish nanos moved t t')
    (hnanos : nanos = finish.unixNanos - root.finish.unixNanos) :
    t'.finish.unixNanos = t.finish.unixNanos ∨
      (t = root ∨ t.id ∈ moved) ∧ t'.finish.unixNanos = t.finish.unixNanos + nanos := by
  cases h with
  | root _ => exact .inr ⟨.inl rfl, by dsimp only; omega⟩
  | moved _ hmem _ hfinish' => exact .inr ⟨.inr hmem, (Timestamp.shift?_eq_some_iff.mp hfinish').1⟩
  | other _ _ => exact .inl rfl

/-- Every task that is seen afterwards was seen before, in the record that was displaced. -/
theorem Displaced.task? (h : s.Displaced s' root start finish nanos now moved)
    (hroot : s.tasks.find? root.id = some root) {scope : Scope} {id : TaskId}
    (ht : s'.task? scope id = some t') :
    ∃ t, s.task? scope id = some t ∧ Displaces root start finish nanos moved t t' := by
  obtain ⟨hfound, hscope, hdeleted⟩ := task?_eq_some_iff.mp ht
  have hbefore : ∃ t, s.tasks.find? id = some t ∧ Displaces root start finish nanos moved t t' := by
    by_cases hid : id = root.id
    · subst hid
      rw [h.placed] at hfound
      cases hfound
      exact ⟨root, hroot, .root now⟩
    by_cases hmem : id ∈ moved
    · obtain ⟨t, start', finish', hstored, hstart, hfinish, hafter⟩ := h.shifted id hmem
      rw [hafter] at hfound
      cases hfound
      rw [← (Table.find?_eq_some_iff.mp hstored).2] at hmem
      exact ⟨t, hstored, .moved now hmem hstart hfinish⟩
    · rw [h.others id hid hmem] at hfound
      refine ⟨t', hfound, ?_⟩
      rw [← (Table.find?_eq_some_iff.mp hfound).2] at hid hmem
      exact .other hid hmem
  obtain ⟨t, hfound, hdisplaces⟩ := hbefore
  refine ⟨t, task?_eq_some_iff.mpr ⟨hfound, ?_, ?_⟩, hdisplaces⟩
  · rwa [← hdisplaces.tenant]
  · rwa [← hdisplaces.deleted]

/-- What a move leads to waits for it. -/
theorem transGen_waits_of_leads {tenant : TenantId} {a b : TaskId}
    (h : TransGen (s.Leads tenant) a b) : TransGen (s.Waits tenant) b a := by
  have hback : TransGen (Function.swap (s.Leads tenant)) b a := TransGen.swap b a h
  exact TransGen.mono (fun _ _ hlead => hlead.1) b a hback

/-- When the root is put off, along with everything that the move leads to, tasks clash afterwards
only where they clashed before. -/
theorem Displaced.clashes (h : s.Displaced s' root start finish nanos now moved)
    (hroot : s.tasks.find? root.id = some root)
    (hnanos : nanos = finish.unixNanos - root.finish.unixNanos)
    (hmoved : ∀ x, x ∈ moved ↔
      nanos ≠ 0 ∧ x ≠ root.id ∧ TransGen (s.Leads root.tenant) root.id x)
    (hacyclic : ∀ x, ¬TransGen (s.Waits root.tenant) x x)
    (hstart : root.start.unixNanos ≤ start.unixNanos) (hlate : 0 ≤ nanos)
    {scope : Scope} {x y : TaskId} (hclash : s'.Clashes scope x y) : s.Clashes scope x y := by
  obtain ⟨t', p', ht', hopen, ⟨d, hd, htenant, htask, hpre, hkind⟩, hp', hstate, hlt⟩ := hclash
  obtain ⟨t, ht, hdt⟩ := h.task? hroot ht'
  obtain ⟨p, hp, hdp⟩ := h.task? hroot hp'
  rw [h.dependencies] at hd
  rw [hdt.state] at hopen
  rw [hdt.tenant] at htenant hp
  rw [hdp.state] at hstate
  refine ⟨t, p, ht, hopen, ⟨d, hd, htenant, htask, hpre, hkind⟩, hp, hstate, ?_⟩
  have hsooner := hdt.start_le hstart hlate
  rcases hdp.finish_eq hnanos with hsame | ⟨hdisplaced, hlater⟩
  · omega
  by_cases hzero : nanos = 0
  · omega
  -- the prerequisite was displaced, so the task that waits for it was moved along
  obtain ⟨hfound, -, hdeleted⟩ := task?_eq_some_iff.mp ht
  obtain ⟨hpfound, hptenant, -⟩ := task?_eq_some_iff.mp hp
  have hpid := id_eq_of_task? hp
  have hreached : ReflTransGen (s.Leads root.tenant) root.id y ∧ root.tenant = t.tenant := by
    rcases hdisplaced with rfl | hmem
    · rw [← hpid]
      exact ⟨.refl, by simpa [eq_comm] using hptenant⟩
    · rw [hpid] at hmem
      obtain ⟨-, -, hpath⟩ := (hmoved y).mp hmem
      refine ⟨hpath.to_reflTransGen, ?_⟩
      obtain ⟨_, -, -, u, hu, -⟩ := TransGen.tail'_iff.mp hpath
      obtain ⟨hufound, hutenant, -⟩ := task?_eq_some_iff.mp hu
      rw [hpfound] at hufound
      cases hufound
      simp only [Scope.includes_only, decide_eq_true_eq] at hutenant hptenant
      exact hutenant.trans hptenant.symm
  obtain ⟨hpath, hsame⟩ := hreached
  have hmovable : s.Movable root.tenant x := by
    refine ⟨t, task?_eq_some_iff.mpr ⟨hfound, ?_, hdeleted⟩, hopen⟩
    simpa using hsame
  have hled : TransGen (s.Leads root.tenant) root.id x :=
    .tail' hpath ⟨⟨d, hd, htenant.trans hsame.symm, htask, hpre⟩, hmovable⟩
  have hne : x ≠ root.id := by
    rintro rfl
    exact hacyclic _ (transGen_waits_of_leads hled)
  have hmem : t.id ∈ moved := by
    rw [id_eq_of_task? ht]
    exact (hmoved x).mpr ⟨hzero, hne, hled⟩
  have hrootnot : root.id ∉ moved := fun hmem => ((hmoved _).mp hmem).2.1 rfl
  have hsame := hdt.start_eq hmem hrootnot
  omega

end Store

/-- When a task is put off with everything that waits for it, no end of its window moved forward,
then each conflict that anybody is shown afterwards was shown before. -/
theorem postponed {w : World} (hindexed : w.store.Indexed) (hsound : w.Within fun _ => True)
    {setup : Setup} {ctx : Context} {m : Move} {change : ScheduleChange} (hcascade : m.cascade = true)
    (hok : (w.serve (Service.reschedule setup ctx m)).1 = .ok change) {root : Task}
    (hroot : w.store.task? ctx.scope m.task = some root)
    (hacyclic : ∀ x, ¬TransGen (w.store.Waits root.tenant) x x)
    (hstart : root.start.unixNanos ≤ m.start.unixNanos)
    (hfinish : root.finish.unixNanos ≤ m.finish.unixNanos) (observer : Context) {u v : World}
    (hu : u.Clear w.store) (hv : v.Clear (w.serve (Service.reschedule setup ctx m)).2.store) :
    ∃ before after, u.serve (Service.conflicts observer) = (.ok before, u) ∧
      v.serve (Service.conflicts observer) = (.ok after, v) ∧
      ∀ c ∈ after, ∀ y ∈ c.blocking, ∃ c' ∈ before, c'.task = c.task ∧ y ∈ c'.blocking := by
  obtain ⟨_, start, finish, now, hroot', hstart', hfinish', -, -, hmoved, hdisplaced⟩ :=
    cascade_exact hindexed hsound hcascade hok
  rw [hroot] at hroot'
  cases hroot'
  generalize (w.serve (Service.reschedule setup ctx m)).2.store = s' at hdisplaced hv
  refine ⟨_, _, World.serve_conflicts hu observer, World.serve_conflicts hv observer, ?_⟩
  intro c hc y hy
  have hindexed' : s'.Indexed :=
    hindexed.of_eq hdisplaced.dependencies hdisplaced.prerequisites hdisplaced.dependents
  have hclash := hindexed'.clashes_iff.mp ⟨c, hc, rfl, hy⟩
  refine hindexed.clashes_iff.mpr (hdisplaced.clashes ?_ rfl hmoved hacyclic ?_ ?_ hclash)
  · rw [Store.id_eq_of_task? hroot]
    exact (Store.task?_eq_some_iff.mp hroot).1
  · rwa [(Timestamp.inUtc?_eq_some_iff.mp hstart').1]
  · rw [(Timestamp.inUtc?_eq_some_iff.mp hfinish').1]
    omega

/-- Nothing is in anybody's way in the small store, nor is it after the first task was put off. -/
theorem postponed_sample : ∃ after,
    (({ store := (({ store := .sample } : World).serve
      (Service.reschedule {} sampleContext sampleMove)).2.store } : World).serve
        (Service.conflicts sampleContext)).1 = .ok after ∧ ∀ c ∈ after, c.blocking = [] := by
  have hok : (({ store := .sample } : World).serve
      (Service.reschedule {} sampleContext sampleMove)).1.map ScheduleChange.affected =
      .ok [.ofNat 2, .ofNat 3] := by cbv
  obtain ⟨change, hr, -⟩ := exists_of_affected hok
  have hroot : Store.sample.task? sampleContext.scope sampleMove.task =
      some (Store.sampleTask 1 0 0) := by cbv
  have hclear : ∀ s : Store, ({ store := s } : World).Clear s := fun _ => ⟨rfl, rfl, fun _ _ => rfl⟩
  obtain ⟨before, after, hbefore, hafter, hnew⟩ :=
    postponed Store.indexed_sample (World.within_of_faults_eq_nil rfl) rfl hr hroot
      (Store.orderly_sample _).acyclic (by decide) (by decide) sampleContext (hclear _) (hclear _)
  have hnone : (({ store := .sample } : World).serve (Service.conflicts sampleContext)).1 =
      .ok [] := by cbv
  rw [hbefore] at hnone
  cases hnone
  refine ⟨after, congrArg Prod.fst hafter, fun c hc => List.eq_nil_iff_forall_not_mem.mpr ?_⟩
  intro y hy
  obtain ⟨_, hmem, -⟩ := hnew c hc y hy
  cases hmem

end Overhaul
