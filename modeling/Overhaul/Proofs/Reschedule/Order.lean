import Mathlib.Data.Set.Insert
import Mathlib.Tactic.Tauto
import Overhaul.Proofs.Reschedule.Cascade

/-!
# The order in which a cascade is written

A walk over those that wait for a task can write them in different orders. `DepthFirst` is the order of
a recursive walk: whatever is first reached through a task comes right behind it. `BatchFirst` is the
order of a walk with a stack that writes a task once it is met: all that are reached from a task come
together, and after them, from the last of them to the first, what is reached through each. Main
statements: a cascade is written in the second order, which is the first one as long as only a task
that has no sibling leads any further (`cascade_order`), and is not the first one in general
(`not_depth_first`).
-/

namespace Overhaul

variable {α : Type} {leads : α → α → Prop}

/-- The walk goes on from a vertex, has met some, and meets the others in the order in which a recursive
walk does that visits the neighbours of a vertex in some order. -/
inductive DepthFirst (leads : α → α → Prop) : Set α → α → List α → Prop
  | done {met : Set α} {v : α} : (∀ y, leads v y → y ∈ met) → DepthFirst leads met v []
  /-- A neighbour is met, then all that is reached through it, then the other neighbours. -/
  | next {met : Set α} {v y : α} {inner rest : List α} : leads v y → y ∉ met →
      DepthFirst leads (insert y met) y inner →
      DepthFirst leads (insert y met ∪ {x | x ∈ inner}) v rest →
      DepthFirst leads met v (y :: (inner ++ rest))

/-- The walk goes on from the vertices on a stack, has met some, and meets all neighbours of a vertex
before it goes on from any of them. -/
inductive BatchFirst (leads : α → α → Prop) : Set α → List α → List α → Prop
  | done {met : Set α} : BatchFirst leads met [] []
  /-- All neighbours of the next vertex are met, and lie on the stack then, the last one on top. -/
  | next {met : Set α} {v : α} {stack batch rest : List α} : batch.Nodup →
      (∀ y, y ∈ batch ↔ leads v y ∧ y ∉ met) →
      BatchFirst leads (met ∪ {y | y ∈ batch}) (batch.reverse ++ stack) rest →
      BatchFirst leads met (v :: stack) (batch ++ rest)

/-- The neighbours that a vertex has not yet met are met in any order when they lead no further. -/
theorem depthFirst_leaves {met : Set α} {v : α} {batch : List α} (hnodup : batch.Nodup)
    (hbatch : ∀ y, y ∈ batch ↔ leads v y ∧ y ∉ met)
    (hleaf : ∀ y ∈ batch, ∀ x, ¬leads y x) : DepthFirst leads met v batch := by
  induction batch generalizing met with
  | nil =>
      refine .done fun y hy => ?_
      by_contra hnot
      exact absurd ((hbatch y).mpr ⟨hy, hnot⟩) List.not_mem_nil
  | cons y batch ih =>
      obtain ⟨hfirst, hnodup⟩ := List.nodup_cons.mp hnodup
      obtain ⟨hled, hnew⟩ := (hbatch y).mp List.mem_cons_self
      have hinner : DepthFirst leads (insert y met) y [] :=
        .done fun x hx => absurd hx (hleaf y List.mem_cons_self x)
      refine .next hled hnew hinner (ih hnodup (fun x => ?_) fun x hx =>
        hleaf x (List.mem_cons_of_mem y hx))
      have hx := hbatch x
      simp only [List.mem_cons, List.not_mem_nil, Set.ofPred_false, Set.union_empty,
        Set.mem_insert_iff, not_or] at hx ⊢
      constructor
      · exact fun hmem => ⟨(hx.mp (.inr hmem)).1, fun heq => hfirst (heq ▸ hmem),
          (hx.mp (.inr hmem)).2⟩
      · exact fun ⟨hled, hne, hnew⟩ => (hx.mpr ⟨hled, hnew⟩).resolve_left hne

namespace BatchFirst

/-- Nothing is met from vertices that lead no further. -/
theorem eq_nil {met : Set α} {stack order : List α} (h : BatchFirst leads met stack order)
    (hleaf : ∀ y ∈ stack, ∀ x, ¬leads y x) : order = [] := by
  induction h with
  | done => rfl
  | @next met v stack batch rest _ hbatch _ ih =>
      have hnil : batch = [] := List.eq_nil_iff_forall_not_mem.mpr fun y hy =>
        hleaf v List.mem_cons_self y ((hbatch y).mp hy).1
      subst hnil
      exact ih fun y hy => hleaf y (List.mem_cons_of_mem v hy)

/-- The order is that of a recursive walk when no vertex leads any further that has a sibling. -/
theorem depthFirst {met : Set α} {v : α} {order : List α} (h : BatchFirst leads met [v] order)
    (hleaf : ∀ v y z, leads v y → leads v z → y ≠ z → ∀ x, ¬leads y x) :
    DepthFirst leads met v order := by
  generalize hstack : [v] = stack at h
  induction h generalizing v with
  | done => cases hstack
  | @next met v' stack batch rest hnodup hbatch hrest ih =>
      obtain ⟨rfl, rfl⟩ := List.cons.inj hstack
      rcases batch with _ | ⟨y, _ | ⟨z, batch⟩⟩
      · have hnil : rest = [] := hrest.eq_nil (by simp)
        rw [hnil]
        exact depthFirst_leaves hnodup hbatch (by simp)
      · -- an only neighbour: everything else is reached through it
        obtain ⟨hled, hnew⟩ := (hbatch y).mp List.mem_cons_self
        have hinner : DepthFirst leads (insert y met) y rest := by
          simpa [Set.union_comm] using ih rfl
        have hlast : DepthFirst leads (insert y met ∪ {x | x ∈ rest}) v [] := by
          refine .done fun x hx => .inl ?_
          by_contra hnot
          rw [Set.mem_insert_iff, not_or] at hnot
          exact hnot.1 (List.mem_singleton.mp ((hbatch x).mpr ⟨hx, hnot.2⟩))
        simpa using DepthFirst.next hled hnew hinner hlast
      · have hleaves : ∀ x ∈ y :: z :: batch, ∀ x', ¬leads x x' := by
          intro x hx
          obtain ⟨other, hother, hne⟩ : ∃ other ∈ y :: z :: batch, x ≠ other := by
            by_cases hxy : x = y
            · refine ⟨z, by simp, ?_⟩
              rintro rfl
              simp [hxy] at hnodup
            · exact ⟨y, List.mem_cons_self, hxy⟩
          exact hleaf v x other ((hbatch x).mp hx).1 ((hbatch other).mp hother).1 hne
        have hnil : rest = [] := by
          refine hrest.eq_nil fun x hx => hleaves x ?_
          rwa [List.append_nil, List.mem_reverse] at hx
        rw [hnil, List.append_nil]
        exact depthFirst_leaves hnodup hbatch hleaves

end BatchFirst

/-- How a recursive walk goes on that meets a neighbour. -/
theorem DepthFirst.exists_of_cons {met : Set α} {v x : α} {order : List α}
    (h : DepthFirst leads met v (x :: order)) : ∃ inner rest, order = inner ++ rest ∧ leads v x ∧
      DepthFirst leads (insert x met) x inner ∧
      DepthFirst leads (insert x met ∪ {y | y ∈ inner}) v rest := by
  generalize horder : x :: order = whole at h
  cases h with
  | done => cases horder
  | next hled _ hinner hrest =>
      obtain ⟨rfl, rfl⟩ := List.cons.inj horder
      exact ⟨_, _, rfl, hled, hinner, hrest⟩

/-- When the first vertex that a recursive walk meets leads to one that was not met before, then the
second one that it meets is one of those to which the first one leads. -/
theorem DepthFirst.leads_second {met : Set α} {v x y z : α} {order : List α}
    (h : DepthFirst leads met v (x :: y :: order)) (hled : leads x z) (hne : z ≠ x)
    (hnew : z ∉ met) : leads x y := by
  obtain ⟨inner, rest, horder, -, hinner, -⟩ := h.exists_of_cons
  cases inner with
  | nil =>
      cases hinner with
      | done hmet => exact absurd (hmet z hled) (by simp [hne, hnew])
  | cons y' inner =>
      obtain ⟨rfl, -⟩ := List.cons.inj horder
      obtain ⟨-, -, -, hsecond, -, -⟩ := hinner.exists_of_cons
      exact hsecond

/-- A walk meets, in the order of batches, what the dependencies lead to that are still to come, and
then what is reached from its stack. Tasks that cannot be moved do not matter to what it has met. -/
theorem Service.Walk.batchFirst {sound : Prop} {s : Store} {tenant : TenantId} {nanos : Int}
    {now : Timestamp} {seen : Seen .task} {stack : List TaskId} {pending : List Dependency}
    {shifts : List Shift} (hsound : sound) (hindexed : s.Indexed)
    (h : Walk sound s tenant nanos now seen stack pending shifts) {met : Set TaskId}
    (hmet : ∀ y, s.Movable tenant y → (y ∈ met ↔ y ∈ seen)) :
    ∃ batch rest, shifts.map Shift.id = batch ++ rest ∧ batch.Nodup ∧
      (∀ y, y ∈ batch ↔ (∃ d ∈ pending, d.task = y) ∧ s.Movable tenant y ∧ y ∉ met) ∧
      BatchFirst (s.Leads tenant) (met ∪ {y | y ∈ batch}) (batch.reverse ++ stack) rest := by
  induction h generalizing met with
  | finished seen => exact ⟨[], [], rfl, List.nodup_nil, by simp, by simpa using .done⟩
  | @expand seen task stack shifts _ ih =>
      obtain ⟨batch, rest, hshifts, hnodup, hbatch, hrest⟩ := ih hmet
      refine ⟨[], batch ++ rest, hshifts, List.nodup_nil, by simp, ?_⟩
      have hled : ∀ y, y ∈ batch ↔ s.Leads tenant task y ∧ y ∉ met := by
        intro y
        rw [hbatch, Store.Leads, Store.Waits, and_assoc]
        refine and_congr_left fun _ => ⟨?_, ?_⟩
        · rintro ⟨d, hd, rfl⟩
          obtain ⟨hrow, htenant, hpre⟩ := hindexed.mem_dependentsOf.mp hd
          exact ⟨d, hrow, htenant, rfl, hpre⟩
        · rintro ⟨d, hrow, htenant, htask, hpre⟩
          exact ⟨d, hindexed.mem_dependentsOf.mpr ⟨hrow, htenant, hpre⟩, htask⟩
      simpa using BatchFirst.next hnodup hled hrest
  | @again seen stack d pending shifts hseen _ ih =>
      obtain ⟨batch, rest, hshifts, hnodup, hbatch, hrest⟩ := ih hmet
      refine ⟨batch, rest, hshifts, hnodup, fun y => (hbatch y).trans ?_, hrest⟩
      refine and_congr_left ?_
      rintro ⟨hmov, hnew⟩
      have hne : d.task ≠ y := by
        rintro rfl
        exact hnew ((hmet _ hmov).mpr hseen)
      simp [hne]
  | @skip seen stack d pending shifts hnew hskip _ ih =>
      obtain ⟨batch, rest, hshifts, hnodup, hbatch, hrest⟩ := ih fun y hmov => by
        have hne : y ≠ d.task := by
          rintro rfl
          exact hskip hsound hmov
        rw [hmet y hmov, Seen.mem_insert, or_iff_right hne]
      refine ⟨batch, rest, hshifts, hnodup, fun y => (hbatch y).trans ?_, hrest⟩
      refine and_congr_left ?_
      rintro ⟨hmov, -⟩
      have hne : d.task ≠ y := by
        rintro rfl
        exact hskip hsound hmov
      simp [hne]
  | @move seen stack d pending shifts x hnew hid hfits _ ih =>
      have hmov : s.Movable tenant d.task := hid ▸ hfits.movable
      have hmet' : ∀ y, s.Movable tenant y → (y ∈ insert d.task met ↔ y ∈ seen.insert d.task hnew) :=
        fun y hmov => by rw [Set.mem_insert_iff, Seen.mem_insert, hmet y hmov]
      obtain ⟨batch, rest, hshifts, hnodup, hbatch, hrest⟩ := ih hmet'
      have hfirst : d.task ∉ batch := fun hmem =>
        ((hbatch d.task).mp hmem).2.2 (Set.mem_insert _ _)
      refine ⟨d.task :: batch, rest, ?_, List.nodup_cons.mpr ⟨hfirst, hnodup⟩, fun y => ?_, ?_⟩
      · rw [List.map_cons, hid, hshifts, List.cons_append]
      · rw [List.mem_cons, hbatch]
        by_cases hy : y = d.task
        · subst hy
          have hnot : d.task ∉ met := fun hmem => hnew ((hmet _ hmov).mp hmem)
          simp [hmov, hnot]
        · simp [hy, Ne.symm hy]
      · have hsame : met ∪ {y | y ∈ d.task :: batch} = insert d.task met ∪ {y | y ∈ batch} := by
          ext y
          simp only [Set.mem_union, Set.mem_insert_iff, Set.mem_ofPred_eq, List.mem_cons]
          tauto
        rw [hsame]
        simpa using hrest

/-- A task leads no further that waits for another one along with a third. -/
def Store.Unforked (s : Store) (tenant : TenantId) : Prop :=
  ∀ x y z, s.Leads tenant x y → s.Leads tenant x z → y ≠ z → ∀ x', ¬s.Leads tenant y x'

/-- When each task is waited for by one other task at most, no task has a sibling. -/
theorem Store.unforked_of_rows {s : Store} (h : ∀ d ∈ s.dependencies.rows,
    ∀ e ∈ s.dependencies.rows, d.prerequisite = e.prerequisite → d.task = e.task)
    (tenant : TenantId) : s.Unforked tenant := by
  rintro x y z ⟨⟨d, hd, -, rfl, hdx⟩, -⟩ ⟨⟨e, he, -, rfl, hex⟩, -⟩ hne
  exact absurd (h d hd e he (hdx.trans hex.symm)) hne

/-- A cascading move that succeeds, when look-ups of tasks do not go wrong, moves tasks along only if
the end of the window moves, and then in the order of batches: all tasks that a task leads to and that
are not yet moved come together, and those that are reached through them come after the last of them.
As long as tasks lead no further that wait for the same task, this is the order of a recursive walk. -/
theorem cascade_order {w : World} (hindexed : w.store.Indexed) (hsound : w.Within (· = .task))
    {setup : Setup} {ctx : Context} {m : Move} {change : ScheduleChange} (hcascade : m.cascade = true)
    (hok : (w.serve (Service.reschedule setup ctx m)).1 = .ok change) :
    ∃ root, w.store.task? ctx.scope m.task = some root ∧
      (change.nanos = 0 → change.affected = []) ∧
      (change.nanos ≠ 0 →
        BatchFirst (w.store.Leads root.tenant) {root.id} [root.id] change.affected ∧
        (w.store.Unforked root.tenant →
          DepthFirst (w.store.Leads root.tenant) {root.id} root.id change.affected)) := by
  have hcourse := World.course_serve hsound (Service.reschedule setup ctx m)
  rw [hok] at hcourse
  rcases Service.course_reschedule hcourse with ⟨⟨_, hr⟩, -⟩ | ⟨d, hdrawn, -, hcarried⟩
  · cases hr
  obtain ⟨rfl, -⟩ := hcarried.of_ok
  refine ⟨d.root, hdrawn.root, ?_⟩
  change (d.change.nanos = 0 → d.shifts.map Shift.id = []) ∧ (d.change.nanos ≠ 0 →
    BatchFirst _ _ _ (d.shifts.map Shift.id) ∧ (_ → DepthFirst _ _ _ (d.shifts.map Shift.id)))
  rcases hdrawn.shifts with ⟨⟨-, hnanos⟩, hwalk⟩ | ⟨hnot, hnil⟩
  · refine ⟨fun h => absurd h hnanos, fun _ => ?_⟩
    have hmet : ∀ y, w.store.Movable d.root.tenant y →
        (y ∈ ({d.root.id} : Set TaskId) ↔ y ∈ Seen.only d.root.id) := fun y _ => Seen.mem_only.symm
    obtain ⟨batch, rest, hshifts, -, hbatch, hrest⟩ := hwalk.batchFirst rfl hindexed hmet
    -- nothing is to come before the root
    have hnone : batch = [] := List.eq_nil_iff_forall_not_mem.mpr fun y hy => by
      simpa using (hbatch y).mp hy
    subst hnone
    have horder : BatchFirst (w.store.Leads d.root.tenant) {d.root.id} [d.root.id]
        (d.shifts.map Shift.id) := by
      rw [hshifts]
      simpa using hrest
    exact ⟨horder, horder.depthFirst⟩
  · refine ⟨fun _ => by rw [hnil]; rfl, fun hnanos => absurd ⟨hcascade, hnanos⟩ hnot⟩

/-- In the small store each task leads to one other task at most, and so both tasks are put off in the
order of a recursive walk. -/
theorem cascade_order_sample :
    DepthFirst (Store.sample.Leads (.ofNat 1)) {.ofNat 1} (.ofNat 1) [.ofNat 2, .ofNat 3] := by
  have hsound : ({ store := .sample } : World).Within (· = .task) :=
    World.within_of_faults_eq_nil rfl
  have hok : (({ store := .sample } : World).serve
      (Service.reschedule {} sampleContext sampleMove)).1.map ScheduleChange.affected =
      .ok [.ofNat 2, .ofNat 3] := by cbv
  obtain ⟨change, hr, haffected⟩ := exists_of_affected hok
  obtain ⟨root, hroot, hnone, horder⟩ := cascade_order Store.indexed_sample hsound rfl hr
  rw [haffected] at hnone horder
  have hroot' : root = Store.sampleTask 1 0 0 := Option.some.inj (hroot.symm.trans (by cbv))
  subst hroot'
  have hnanos : change.nanos ≠ 0 := fun h => List.cons_ne_nil _ _ (hnone h)
  exact (horder hnanos).2 (Store.unforked_of_rows (by decide) _)

/-- Cascades are not written in the order of a recursive walk: both tasks in the middle are put off
before the last one, which waits for the first of them, while the second one does not. -/
theorem not_depth_first :
    ¬∀ (s : Store) (setup : Setup) (ctx : Context) (m : Move) (root : Task) (change : ScheduleChange),
      s.Indexed → m.cascade = true → s.task? ctx.scope m.task = some root →
      (({ store := s } : World).serve (Service.reschedule setup ctx m)).1 = .ok change →
      change.affected ≠ [] →
      DepthFirst (s.Leads root.tenant) {root.id} root.id change.affected := by
  intro h
  have hok : (({ store := .sampleDiamond } : World).serve
      (Service.reschedule {} sampleContext sampleMove)).1.map ScheduleChange.affected =
      .ok [.ofNat 2, .ofNat 3, .ofNat 4] := by cbv
  obtain ⟨change, hr, haffected⟩ := exists_of_affected hok
  have hroot : Store.sampleDiamond.task? sampleContext.scope sampleMove.task =
      some (Store.sampleTask 1 0 0) := by cbv
  have horder := h _ {} _ _ _ change Store.indexed_sampleDiamond rfl hroot hr (by simp [haffected])
  rw [haffected] at horder
  have hled : Store.sampleDiamond.Leads (.ofNat 1) (.ofNat 2) (.ofNat 4) :=
    ⟨⟨Store.sampleDependency 3 4 2, by decide, rfl, rfl, rfl⟩, Store.sampleTask 4 3 0, by cbv, rfl⟩
  obtain ⟨⟨d, hd, -, htask, hprerequisite⟩, -⟩ :=
    horder.leads_second hled (by decide) (by decide)
  have hnone : ∀ d ∈ Store.sampleDiamond.dependencies.rows,
      ¬(d.task = .ofNat 3 ∧ d.prerequisite = .ofNat 2) := by decide
  exact hnone d hd ⟨htask, hprerequisite⟩

end Overhaul
