import Overhaul.Proofs.Answers
import Overhaul.Proofs.Demand
import Overhaul.Proofs.Dependencies.Acyclic
import Overhaul.Proofs.Store.Linked

/-!
# When a dependency is made

`Store.dependDemands` is the list of what it takes to make a task wait for another one, in the order
in which it is looked at. All of it is said of the store alone, and that the prerequisite does not
wait for the task is said by paths. Main statement: where no call fails, the dependency is made when
all of this is met, and otherwise it is refused for the first thing that is not; nothing else is
written (`World.depend_decides`).
-/

namespace Overhaul

open Relation

/-- What it takes to make a task wait for a prerequisite, for a caller who sees the scope and may
have given up. -/
def Store.dependDemands (s : Store) (scope : Scope) (cancelled : Bool)
    (task prerequisite : TaskId) : List Demand := [
  ⟨task ≠ prerequisite, .invalid .selfDependency⟩,
  ⟨∃ t, s.task? scope task = some t, .notFound (.task task)⟩,
  ⟨∃ t, s.task? scope prerequisite = some t, .notFound (.prerequisite prerequisite)⟩,
  ⟨s.owner? task = s.owner? prerequisite, .invalid .tenantsDiffer⟩,
  ⟨∀ d ∈ s.dependencies.rows, s.owner? task = some d.tenant → d.task = task →
    d.prerequisite ≠ prerequisite, .conflict (.alreadyDependent task prerequisite)⟩,
  ⟨∀ tenant, s.owner? task = some tenant → ¬TransGen (s.Waits tenant) prerequisite task,
    .conflict .circular⟩,
  ⟨cancelled = false, .cancelled⟩]

namespace World

variable {α β : Type} {w : World}

/-! ### Reading where no call fails -/

theorem serve_ask_of_faults_eq_nil (h : w.faults = fun _ => []) {c : Call} (hc : c.Reads) :
    w.serve (Service.ask c) = ((w.store.reply c).1.mapError Failure.store, w) := by
  rw [serve_ask, answer_of_faults_eq_nil h, perform_of_reads hc]

theorem serve_visibleTask (h : w.faults = fun _ => []) (ctx : Context) (id : TaskId)
    (missing : TaskId → Missing) :
    w.serve (Service.visibleTask ctx id missing) = match w.store.task? ctx.scope id with
      | some t => (.ok t, w)
      | none => (.error (.notFound (missing id)), w) := by
  have hask : w.serve (Service.ask (.task ctx.scope id)) = (.ok (w.store.task? ctx.scope id), w) :=
    serve_ask_of_faults_eq_nil h trivial
  rw [Service.visibleTask, serve_bind, hask]
  cases w.store.task? ctx.scope id <;> rfl

theorem serve_addDependency (h : w.faults = fun _ => []) {d : Dependency} {s : Store}
    (hadd : w.store.addDependency d = .ok s) :
    w.serve (Service.ask (.addDependency d)) = (.ok (), { w with store := s }) := by
  rw [serve_ask, answer_of_faults_eq_nil h, perform, hadd]
  rfl

/-- A walk along the dependencies always comes back where no call fails. -/
theorem exists_serve_reaches (h : w.faults = fun _ => []) (scope : Scope) (target : TaskId)
    (seen : Seen .task) (stack : List TaskId) :
    ∃ b, w.serve (Service.reaches scope target seen stack) = (.ok b, w) := by
  induction seen, stack using Service.reaches.induct scope target with
  | case1 seen => exact ⟨false, by rw [Service.reaches]; rfl⟩
  | case2 seen stack => exact ⟨true, by rw [Service.reaches, if_pos rfl]; rfl⟩
  | case3 seen task stack hne hseen ih =>
      rw [Service.reaches, if_neg hne, dif_pos hseen]
      exact ih
  | case4 seen task stack hne hseen ih =>
      rw [Service.reaches, if_neg hne, dif_neg hseen, serve_bind,
        serve_ask_of_faults_eq_nil h (by trivial)]
      exact ih _

/-- The walk finds the target exactly when a path leads there. -/
theorem serve_reaches (h : w.faults = fun _ => []) (hindexed : w.store.Indexed) (tenant : TenantId)
    (target source : TaskId) :
    ∃ b, w.serve (Service.reaches (.only tenant) target .empty [source]) = (.ok b, w) ∧
      (b = true ↔ ReflTransGen (w.store.Waits tenant) source target) := by
  obtain ⟨b, hb⟩ := exists_serve_reaches h (.only tenant) target .empty [source]
  have hwithin : w.Within fun _ => True := within_of_faults_eq_nil h
  have hcourse := course_serve hwithin (Service.reaches (.only tenant) target .empty [source])
  rw [hb] at hcourse
  exact ⟨b, hb, Service.reaches_iff hindexed hcourse⟩

/-! ### Screening a service -/

/-- Demands decide what a service comes to: it fails for the first one that is not met, and leaves
the store as it was, or else it comes to something acceptable. -/
abbrev Screens (w : World) (demands : List Demand) (accept : Except Failure α × Store → Prop)
    (p : Service α) : Prop :=
  Demand.Decides demands (fun f => (.error f, w.store)) accept
    ((w.serve p).1, (w.serve p).2.store)

section

variable {demands rest : List Demand} {accept : Except Failure α × Store → Prop}

theorem screens_guard {c holds : Prop} [Decidable c] {f : Failure} {k : Unit → Service α}
    (hc : c ↔ ¬holds) (h : holds → w.Screens rest accept (k ())) :
    w.Screens (⟨holds, f⟩ :: rest) accept (if c then throw f >>= k else k ()) := by
  refine Demand.decides_cons (fun hunmet => ?_) fun hmet => ?_
  · rw [if_pos (hc.mpr hunmet)]
    rfl
  · rw [if_neg fun hc' => hc.mp hc' hmet]
    exact h hmet

/-- Something that succeeds and changes nothing may come first. -/
theorem screens_bind {p : Service β} {f : β → Service α} {b : β} (hp : w.serve p = (.ok b, w))
    (h : w.Screens demands accept (f b)) : w.Screens demands accept (p >>= f) := by
  unfold Screens
  rw [serve_bind, hp]
  exact h

theorem screens_visibleTask (hfaults : w.faults = fun _ => []) {ctx : Context} {id : TaskId}
    {missing : TaskId → Missing} {f : Task → Service α}
    (h : ∀ t, w.store.task? ctx.scope id = some t → w.Screens rest accept (f t)) :
    w.Screens (⟨∃ t, w.store.task? ctx.scope id = some t, .notFound (missing id)⟩ :: rest) accept
      (Service.visibleTask ctx id missing >>= f) := by
  have hserve := serve_visibleTask hfaults ctx id missing
  refine Demand.decides_cons (fun hunmet => ?_) fun ⟨t, ht⟩ => ?_
  · rw [Option.eq_none_iff_forall_ne_some.mpr fun t ht => hunmet ⟨t, ht⟩] at hserve
    rw [serve_bind, hserve]
  · rw [ht] at hserve
    exact screens_bind hserve (h t ht)

theorem screens_ensureActive {k : Unit → Service α}
    (h : w.cancelled = false → w.Screens rest accept (k ())) :
    w.Screens (⟨w.cancelled = false, .cancelled⟩ :: rest) accept (Service.ensureActive >>= k) := by
  have hserve := w.serve_ensureActive
  refine Demand.decides_cons (fun hunmet => ?_) fun hmet => ?_
  · rw [Bool.not_eq_false] at hunmet
    rw [serve_bind, hserve, hunmet]
    rfl
  · rw [hmet] at hserve
    exact screens_bind hserve (h hmet)

/-- A lock makes no difference to what is decided. -/
theorem screens_locked {tenant : TenantId} {p : Service α}
    (h : (w.take (.lock tenant)).2.Screens demands accept p) :
    w.Screens demands accept (Service.locked tenant p) := by
  unfold Screens
  rw [serve_locked]
  exact h

end

/-! ### Making a dependency -/

/-- What comes of making a dependency when all is met that it takes: it is made at the time that the
clock shows, unless UTC cannot show this. -/
inductive Makes (s : Store) (ctx : Context) (task prerequisite : TaskId)
    (kind : Option DependencyKind) : Except Failure Dependency × Store → Prop
  | made {tenant : TenantId} {now : Timestamp} {d : Dependency} {s' : Store} :
      s.owner? task = some tenant → ctx.clock.inUtc? = some now →
      d = ⟨⟨ctx.fresh⟩, tenant, task, prerequisite, kind.getD .finishToStart, now⟩ →
      s.addDependency d = .ok s' → Makes s ctx task prerequisite kind (.ok d, s')
  | beyondUtc : ctx.clock.inUtc? = none →
      Makes s ctx task prerequisite kind (.error .beyondUtc, s)

/-- What it takes is looked at in the order of the list. -/
theorem screens_depend (hfaults : w.faults = fun _ => []) (hindexed : w.store.Indexed)
    {ctx : Context} (hfresh : w.store.dependencies.find? ⟨ctx.fresh⟩ = none)
    (task prerequisite : TaskId) (kind : Option DependencyKind) :
    w.Screens (w.store.dependDemands ctx.scope w.cancelled task prerequisite)
      (Makes w.store ctx task prerequisite kind) (Service.depend ctx task prerequisite kind) := by
  unfold Service.depend
  refine screens_guard (by simp) fun hne => ?_
  refine screens_visibleTask hfaults fun waiting hwaiting => ?_
  refine screens_visibleTask hfaults fun awaited hawaited => ?_
  have howner : w.store.owner? task = some waiting.tenant := Store.owner?_of_task? hwaiting
  have howner' : w.store.owner? prerequisite = some awaited.tenant := Store.owner?_of_task? hawaited
  refine screens_guard (by simp [howner, howner']) fun htenants => screens_locked ?_
  have hlocked : (w.take (.lock waiting.tenant)).2.faults = fun _ => [] := hfaults
  refine screens_bind (serve_ask_of_faults_eq_nil hlocked trivial) ?_
  refine screens_guard ?_ fun hnew => ?_
  · simp only [List.any_eq_true, decide_eq_true_eq, howner, Option.some.injEq, not_forall, not_not]
    constructor
    · rintro ⟨d, hd, hprerequisite⟩
      obtain ⟨hstored, htenant, htask⟩ := hindexed.mem_dependenciesOf.mp hd
      exact ⟨d, hstored, htenant.symm, htask, hprerequisite⟩
    · rintro ⟨d, hstored, htenant, htask, hprerequisite⟩
      exact ⟨d, hindexed.mem_dependenciesOf.mpr ⟨hstored, htenant.symm, htask⟩, hprerequisite⟩
  obtain ⟨circular, hsearch, hpath⟩ :=
    serve_reaches hlocked hindexed waiting.tenant task prerequisite
  have hcircular : circular = true ↔ TransGen (w.store.Waits waiting.tenant) prerequisite task := by
    rw [hpath, reflTransGen_iff_eq_or_transGen, or_iff_right hne]
    rfl
  refine screens_bind hsearch (screens_guard ?_ fun _ => screens_ensureActive fun _ => ?_)
  · simp [hcircular, howner]
  refine Demand.decides_nil ?_
  cases hnow : ctx.clock.inUtc? with
  | none =>
      have hlate : ctx.now = .error .beyondUtc := by rw [Context.now, Timestamp.toUtc, hnow]
      rw [serve_bind, serve_ofExcept, hlate]
      exact .beyondUtc hnow
  | some now =>
      have hclock : ctx.now = .ok now := Timestamp.toUtc_eq_ok_iff.mpr hnow
      rw [serve_bind, serve_ofExcept, hclock]
      have hknown : ∀ {id t}, w.store.task? ctx.scope id = some t →
          (w.store.tasks.find? id).isSome = true :=
        fun ht => by simp [(Store.task?_eq_some_iff.mp ht).1]
      have hadd : w.store.addDependency
          ⟨⟨ctx.fresh⟩, waiting.tenant, task, prerequisite, kind.getD .finishToStart, now⟩ = .ok _ :=
        Store.addDependency_eq_ok_iff.mpr ⟨hfresh, hknown hwaiting, hknown hawaited, rfl⟩
      dsimp only
      rw [serve_bind, serve_addDependency hlocked hadd]
      exact .made howner hnow rfl hadd

/-- How making a dependency ends: it is refused, or all is met that it takes. -/
theorem refused_or_makes (hfaults : w.faults = fun _ => []) (hindexed : w.store.Indexed)
    {ctx : Context} (hfresh : w.store.dependencies.find? ⟨ctx.fresh⟩ = none)
    {task prerequisite : TaskId} {kind : Option DependencyKind}
    {r : Except Failure Dependency × World} (hr : w.serve (Service.depend ctx task prerequisite kind) = r) :
    let demands := w.store.dependDemands ctx.scope w.cancelled task prerequisite
    (∃ f, Demand.Refuses demands f ∧ r.1 = .error f ∧ r.2.store = w.store) ∨
      Demand.Met demands ∧ Makes w.store ctx task prerequisite kind (r.1, r.2.store) := by
  have hscreens := screens_depend hfaults hindexed hfresh task prerequisite kind
  rw [Screens, hr] at hscreens
  intro demands
  rcases Demand.met_or_refuses demands with hmet | ⟨f, hf⟩
  · exact .inr ⟨hmet, hscreens.accepted hmet⟩
  · obtain ⟨hfirst, hstore⟩ := Prod.mk.inj (hscreens.refused f hf)
    exact .inl ⟨f, hf, hfirst, hstore⟩

/-- A dependency that is refused as circular would close a circle. -/
theorem circle_of_refuses {s : Store} {scope : Scope} {cancelled : Bool}
    {task prerequisite : TaskId}
    (h : Demand.Refuses (s.dependDemands scope cancelled task prerequisite) (.conflict .circular)) :
    ∃ tenant, s.owner? task = some tenant ∧
      TransGen (fun a b => s.Waits tenant a b ∨ a = task ∧ b = prerequisite) task task := by
  obtain ⟨d, hd, hunmet, hreason⟩ := h.exists_unmet
  obtain rfl : d = ⟨∀ tenant, s.owner? task = some tenant →
      ¬TransGen (s.Waits tenant) prerequisite task, .conflict .circular⟩ := by
    simp only [Store.dependDemands, List.mem_cons, List.not_mem_nil, or_false] at hd
    rcases hd with rfl | rfl | rfl | rfl | rfl | rfl | rfl <;> first | rfl | cases hreason
  simp only [not_forall, not_not] at hunmet
  obtain ⟨tenant, howner, hpath⟩ := hunmet
  exact ⟨tenant, howner, .head (.inr ⟨rfl, rfl⟩) (TransGen.mono (fun _ _ => .inl) _ _ hpath)⟩

/-- Where no call fails and no dependency has the identifier yet, whatever the dependencies are that
the store holds: a dependency is refused for the first thing that is not met of what it takes, and
otherwise it is made, for the owner of its task and at the time that the clock shows. The store gains
just what is made, and nothing when the dependency is refused. None is called circular but for a
circle that it would close. -/
theorem depend_decides (hfaults : w.faults = fun _ => []) (hindexed : w.store.Indexed)
    {ctx : Context} (hfresh : w.store.dependencies.find? ⟨ctx.fresh⟩ = none)
    (task prerequisite : TaskId) (kind : Option DependencyKind) :
    let demands := w.store.dependDemands ctx.scope w.cancelled task prerequisite
    let r := w.serve (Service.depend ctx task prerequisite kind)
    (∀ f, f ≠ .beyondUtc → (r.1 = .error f ↔ Demand.Refuses demands f)) ∧
      (r.1 = .error .beyondUtc ↔ Demand.Met demands ∧ ctx.clock.inUtc? = none) ∧
      (∀ d, r.1 = .ok d ↔ Demand.Met demands ∧ ∃ tenant now, w.store.owner? task = some tenant ∧
        ctx.clock.inUtc? = some now ∧
        d = ⟨⟨ctx.fresh⟩, tenant, task, prerequisite, kind.getD .finishToStart, now⟩) ∧
      (∀ d, r.1 = .ok d → w.store.Gains d r.2.store) ∧
      (∀ f, r.1 = .error f → r.2.store = w.store) ∧
      (r.1 = .error (.conflict .circular) → ∃ tenant, w.store.owner? task = some tenant ∧
        TransGen (fun a b => w.store.Waits tenant a b ∨ a = task ∧ b = prerequisite) task task) := by
  intro demands r
  have hnever : ∀ {f}, Demand.Refuses demands f → f ≠ .beyondUtc := by
    intro f hf
    obtain ⟨d, hd, -, rfl⟩ := hf.exists_unmet
    have hreasons : ∀ d ∈ demands, d.reason ≠ .beyondUtc := by simp [demands, Store.dependDemands]
    exact hreasons d hd
  obtain ⟨f, hrefuses, hr, hstore⟩ | ⟨hmet, hmakes⟩ := refused_or_makes hfaults hindexed hfresh
      (r := r) rfl
  · have hunmet : ¬Demand.Met demands := hrefuses.not_met
    rw [hr, hstore]
    refine ⟨fun g _ => ⟨?_, fun hg => ?_⟩, ?_, ?_, ?_, fun _ _ => rfl, ?_⟩
    · rintro ⟨⟩
      exact hrefuses
    · rw [hrefuses.unique hg]
    · simp [hunmet, hnever hrefuses]
    · simp [hunmet]
    · simp
    · rintro ⟨⟩
      exact circle_of_refuses hrefuses
  · have hrefuses : ∀ f, ¬Demand.Refuses demands f := fun f hf => hf.not_met hmet
    generalize r.1 = e, r.2.store = s at hmakes ⊢
    cases hmakes with
    | @made tenant now d s howner hnow hd hadd =>
        refine ⟨fun f _ => by simp [hrefuses], by simp [hnow], fun e => ⟨?_, ?_⟩, ?_, by simp,
          by simp⟩
        · rintro ⟨⟩
          exact ⟨hmet, tenant, now, howner, hnow, hd⟩
        · rintro ⟨-, tenant', now', howner', hnow', he⟩
          cases howner.symm.trans howner'
          cases hnow.symm.trans hnow'
          rw [hd, he]
        · rintro e ⟨⟩
          exact hindexed.gains hadd
    | beyondUtc hnow =>
        refine ⟨fun f hf => ?_, ⟨fun _ => ⟨hmet, hnow⟩, fun _ => rfl⟩, ?_, by simp, fun _ _ => rfl,
          by simp⟩
        · simp [hrefuses, hf.symm]
        · simp [hnow]

/-- In the small store the last task may wait for the first one directly as well, unless the caller
has given up; the first one may not wait for the last one. -/
theorem depend_decides_sample :
    let ctx : Context := ⟨⟨.ofNat 1, .ofNat 1, .scheduler⟩, Store.hour 0 0, 9⟩
    let w : World := { store := .sample }
    let made : Dependency := { Store.sampleDependency 9 3 1 with kind := .startToStart }
    let r := w.serve (Service.depend ctx (.ofNat 3) (.ofNat 1) (some .startToStart))
    (r.1 = .ok made ∧ w.store.Gains made r.2.store) ∧
      (w.serve (Service.depend ctx (.ofNat 1) (.ofNat 3) none)).1 = .error (.conflict .circular) ∧
      ({ w with cancelled := true }.serve (Service.depend ctx (.ofNat 3) (.ofNat 1) none)).1 =
        .error .cancelled := by
  intro ctx w made r
  have hfresh : w.store.dependencies.find? ⟨ctx.fresh⟩ = none := by decide
  obtain ⟨-, -, hmade, hgains, -⟩ := depend_decides (w := w) rfl Store.indexed_sample hfresh
    (.ofNat 3) (.ofNat 1) (some .startToStart)
  obtain ⟨hcircular, -⟩ := depend_decides (w := w) rfl Store.indexed_sample hfresh (.ofNat 1)
    (.ofNat 3) none
  obtain ⟨hcancelled, -⟩ := depend_decides (w := { w with cancelled := true }) rfl
    Store.indexed_sample hfresh (.ofNat 3) (.ofNat 1) none
  have hnew : ∀ d ∈ w.store.dependencies.rows, d.task = .ofNat 3 → d.prerequisite ≠ .ofNat 1 := by
    decide
  have hnopath : ∀ tenant, ¬TransGen (w.store.Waits tenant) (.ofNat 1) (.ofNat 3) :=
    fun _ h => absurd (Store.lt_of_waits_sample h) (by decide)
  have hok : r.1 = .ok made := by
    refine (hmade _).mpr ⟨?_, .ofNat 1, Store.hour 0 0, by decide, by decide, rfl⟩
    simp only [Store.dependDemands, Demand.met_cons]
    exact ⟨by decide, ⟨_, rfl⟩, ⟨_, rfl⟩, by decide, fun d hd _ => hnew d hd, fun tenant _ =>
      hnopath tenant, rfl, by simp [Demand.Met]⟩
  refine ⟨⟨hok, hgains _ hok⟩, (hcircular _ (by decide)).mpr ?_, (hcancelled _ (by decide)).mpr ?_⟩
  · have hpath : TransGen (w.store.Waits (.ofNat 1)) (.ofNat 3) (.ofNat 1) :=
      .tail (.single ⟨Store.sampleDependency 2 3 2, by decide, rfl, rfl, rfl⟩)
        ⟨Store.sampleDependency 1 2 1, by decide, rfl, rfl, rfl⟩
    refine .later (by decide) (.later ⟨_, rfl⟩ (.later ⟨_, rfl⟩ (.later (by decide) ?_)))
    exact .later (by decide) (.first fun h => h (.ofNat 1) (by decide) hpath)
  · refine .later (by decide) (.later ⟨_, rfl⟩ (.later ⟨_, rfl⟩ (.later (by decide) ?_)))
    refine .later (fun d hd _ => hnew d hd) (.later (fun tenant _ => hnopath tenant) (.first ?_))
    decide

end World

end Overhaul
