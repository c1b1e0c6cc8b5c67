import Overhaul.Proofs.Calls

/-!
# What calls are answered

What happens to a call is fixed by the faults to come. A world is `Clear` when its caller has not
given up and nothing happens to the calls that read; what goes wrong with other calls is left open.
Main statements: a call that does not fail is carried out (`answer_of_not_failsNext`), and whatever
only reads ends in all clear worlds with the same store alike, and leaves each of them as it is
(`serve_of_reads`).
-/

namespace Overhaul

namespace World

/-! ### A single call -/

/-- The next call fails. -/
def failsNext : List Fault → Bool
  | .fail _ :: _ => true
  | _ => false

theorem failsNext_eq_false_iff {faults : List Fault} :
    failsNext faults = false ↔ ∀ text, faults[0]? ≠ some (.fail text) := by
  rcases faults with - | ⟨f, faults⟩
  · simp [failsNext]
  · cases f <;> simp [failsNext]

theorem eq_cons_of_failsNext {faults : List Fault} (h : failsNext faults = true) :
    ∃ text rest, faults = .fail text :: rest := by
  unfold failsNext at h
  split at h
  · exact ⟨_, _, rfl⟩
  · cases h

/-- The world in which what happens to the next call of a kind has happened. -/
def past (w : World) (kind : CallKind) : World :=
  { w with
    cancelled := w.cancelled || (w.faults kind).head? = some .cancel
    faults := fun k => if k = kind then (w.faults kind).tail else w.faults k }

@[simp] theorem store_past (w : World) (kind : CallKind) : (w.past kind).store = w.store := rfl

theorem faults_past (w : World) (kind : CallKind) :
    (w.past kind).faults kind = (w.faults kind).tail := if_pos rfl

theorem faults_past_of_ne (w : World) {kind k : CallKind} (h : k ≠ kind) :
    (w.past kind).faults k = w.faults k := if_neg h

theorem Within.past {sound : CallKind → Prop} {w : World} (hw : w.Within sound) (kind : CallKind) :
    (w.past kind).Within sound := by
  intro k f hf
  by_cases hk : k = kind
  · subst hk
    rw [faults_past] at hf
    exact hw k f (List.mem_of_mem_tail hf)
  · rw [faults_past_of_ne w hk] at hf
    exact hw k f hf

/-- What happens to a call is fixed by the first of the faults to come for its kind. -/
theorem answer_eq (w : World) (c : Call) :
    w.answer c =
      match (w.faults c.kind).head? with
      | some (.fail text) => (.error (.unavailable text), w.past c.kind)
      | some .nothing =>
        match c.nothing? with
        | some v => (.ok v, w.past c.kind)
        | none => (w.past c.kind).perform c
      | some (.posing state) =>
        (((w.past c.kind).perform c).1.map (c.posing state), ((w.past c.kind).perform c).2)
      | some .none | some .cancel | none => (w.past c.kind).perform c := by
  unfold answer nextFault
  cases hfaults : w.faults c.kind with
  | nil =>
      have hpast : w.past c.kind = w := by
        have hsame : ∀ k, (w.past c.kind).faults k = w.faults k := by
          intro k
          by_cases hk : k = c.kind
          · rw [hk, faults_past, hfaults]
            rfl
          · exact faults_past_of_ne w hk
        calc w.past c.kind = { w with faults := (w.past c.kind).faults } := by simp [past, hfaults]
          _ = w := by rw [funext hsame]
      rw [hpast]
      rfl
  | cons f rest =>
      have hpast : w.past c.kind = { w with
          cancelled := w.cancelled || f = .cancel
          faults := fun k => if k = c.kind then rest else w.faults k } := by
        simp [past, hfaults]
      rw [hpast]
      cases f with
      | nothing => cases c.nothing? <;> simp
      | _ => simp

/-- A call that fails does nothing. -/
theorem answer_of_fail {w : World} {c : Call} {text : String} {rest : List Fault}
    (h : w.faults c.kind = .fail text :: rest) :
    w.answer c = (.error (.unavailable text), w.past c.kind) := by
  rw [answer_eq, h]
  rfl

/-- A call that neither fails nor can answer in any other way is carried out; a caller who gives up
meanwhile is too late. -/
theorem answer_of_not_failsNext {w : World} {c : Call} (hnothing : c.nothing? = none)
    (hposing : ∀ state v, c.posing state v = v) (h : failsNext (w.faults c.kind) = false) :
    w.answer c = (w.past c.kind).perform c := by
  rw [answer_eq]
  rcases hfaults : w.faults c.kind with - | ⟨f, rest⟩
  · rfl
  cases f with
  | fail text => simp [hfaults, failsNext] at h
  | nothing => simp [hnothing]
  | posing state =>
      have hmap : ∀ e : Except CallError c.Value, e.map (c.posing state) = e := by
        intro e
        cases e with
        | error cause => rfl
        | ok v => exact congrArg Except.ok (hposing state v)
      simp [hmap]
  | _ => rfl

/-- Where nothing is to go wrong, calls are carried out. -/
theorem answer_of_faults_eq_nil {w : World} (h : w.faults = fun _ => []) (c : Call) :
    w.answer c = w.perform c := by
  rw [answer, nextFault, h]

/-! ### Parts that are given back -/

theorem released_perform (w : World) {c : Call} (h : ∀ tenant task, c ≠ .releaseParts tenant task) :
    (w.perform c).2.released = w.released := by
  cases c with
  | putTask t => simp only [perform]; cases w.store.putTask t <;> rfl
  | setState scope id state notes now =>
      simp only [perform]; cases w.store.setState scope id state notes now <;> rfl
  | addDependency d => simp only [perform]; cases w.store.addDependency d <;> rfl
  | removeDependency scope id =>
      simp only [perform]; cases w.store.removeDependency scope id <;> rfl
  | addChange c => simp only [perform]; cases w.store.addChange c <;> rfl
  | releaseParts tenant task => exact absurd rfl (h tenant task)
  | _ => rfl

/-- Whatever happens to a call, no parts are given back but by the call that does so. -/
theorem released_answer (w : World) {c : Call} (h : ∀ tenant task, c ≠ .releaseParts tenant task) :
    (w.answer c).2.released = w.released := by
  unfold answer nextFault
  cases w.faults c.kind with
  | nil => exact released_perform w h
  | cons fault rest =>
      cases fault with
      | fail text => rfl
      | nothing =>
          cases c.nothing? with
          | none => exact released_perform _ h
          | some v => rfl
      | _ => exact released_perform _ h

theorem released_trail {α : Type} (p : Program α) {w : World}
    (h : ∀ x ∈ transcript p w, ∀ tenant task, x.step ≠ .call (.releaseParts tenant task)) :
    ∀ v ∈ trail p w, v.released = w.released := by
  induction p generalizing w with
  | done a =>
      intro v hv
      rw [List.mem_singleton.mp hv]
  | step st next ih =>
      obtain ⟨hst, hrest⟩ := List.forall_mem_cons.mp h
      have hstep : (w.take st).2.released = w.released := by
        cases st with
        | call c => exact released_answer w fun tenant task hc => hst tenant task (congrArg _ hc)
        | _ => rfl
      intro v hv
      rcases List.mem_cons.mp hv with rfl | hv
      · rfl
      · exact (ih _ hrest v hv).trans hstep

/-- Parts are given back, unless this fails. -/
theorem answer_releaseParts (w : World) (tenant : TenantId) (task : TaskId) :
    (∃ cause, w.answer (.releaseParts tenant task) = (.error cause, w.past .releaseParts)) ∨
      w.answer (.releaseParts tenant task) =
        (.ok (), { w.past .releaseParts with released := w.released ++ [(tenant, task)] }) := by
  rw [answer_eq]
  split
  · exact .inl ⟨_, rfl⟩
  all_goals exact .inr rfl

/-- What gives no parts back leaves those that were given back as they are. -/
theorem released_serve {α : Type} {p : Service α}
    (hp : Service.Only (fun st => ∀ tenant task, st ≠ .call (.releaseParts tenant task)) p)
    (w : World) : (w.serve p).2.released = w.released :=
  released_trail p.run (hp.transcript w) _ (run_mem_trail p.run w)

/-! ### Reading -/

variable {α β : Type}

/-- The world has this store, its caller has not given up, and reading goes well. -/
structure Clear (w : World) (s : Store) : Prop where
  store : w.store = s
  active : w.cancelled = false
  reads : ∀ c : Call, c.Reads → w.faults c.kind = []

theorem perform_of_reads {w : World} {c : Call} (hc : c.Reads) :
    w.perform c = ((w.store.reply c).1, w) := by
  cases c <;> first | rfl | exact hc.elim

/-- Whatever happens to a call that reads, nothing else happens. -/
theorem answer_snd_of_reads (w : World) {c : Call} (hc : c.Reads) :
    (w.answer c).2 = w.past c.kind := by
  rw [answer_eq]
  split
  · rfl
  · cases c.nothing? with
    | some v => rfl
    | none => exact congrArg Prod.snd (perform_of_reads hc)
  all_goals exact congrArg Prod.snd (perform_of_reads hc)

section

variable {w : World} {s : Store} (hw : w.Clear s)
include hw

/-- What a call that reads is answered is fixed by the store. -/
theorem answer_of_reads {c : Call} (hc : c.Reads) : w.answer c = ((s.reply c).1, w) := by
  rw [answer, nextFault, hw.reads c hc]
  exact (perform_of_reads hc).trans (by rw [hw.store])

theorem serve_ask_of_reads {c : Call} (hc : c.Reads) :
    w.serve (Service.ask c) = ((s.reply c).1.mapError Failure.store, w) := by
  rw [serve_ask, answer_of_reads hw hc]

theorem serve_task (scope : Scope) (id : TaskId) :
    w.serve (Service.ask (.task scope id)) = (.ok (s.task? scope id), w) :=
  serve_ask_of_reads hw trivial

theorem serve_tasksWhere (f : TaskFilter) :
    w.serve (Service.ask (.tasksWhere f)) = (.ok (s.tasksWhere f), w) :=
  serve_ask_of_reads hw trivial

theorem serve_dependenciesOf (scope : Scope) (id : TaskId) :
    w.serve (Service.ask (.dependenciesOf scope id)) = (.ok (s.dependenciesOf scope id), w) :=
  serve_ask_of_reads hw trivial

end

/-- What a step that reads tells is fixed by the store. -/
theorem take_of_reads {st : Step} (hst : st.Reads) (s : Store) :
    ∃ r, ∀ w : World, w.Clear s → w.take st = (r, w) := by
  cases st with
  | call c => exact ⟨_, fun _ hw => answer_of_reads hw hst⟩
  | isCancelled =>
      refine ⟨false, fun w hw => ?_⟩
      change (w.cancelled, w) = _
      rw [hw.active]
  | lock tenant => exact hst.elim
  | unlock tenant => exact hst.elim

theorem run_of_reads {p : Program α} (hp : p.Only Step.Reads) (s : Store) :
    ∃ a, ∀ w : World, w.Clear s → run p w = (a, w) := by
  induction p with
  | done a => exact ⟨a, fun w _ => rfl⟩
  | step st next ih =>
      obtain ⟨r, hr⟩ := take_of_reads hp.1 s
      obtain ⟨a, ha⟩ := ih r (hp.2 r)
      refine ⟨a, fun w hw => ?_⟩
      rw [run_step, hr w hw]
      exact ha w hw

/-- Whatever only reads ends in all clear worlds with the same store alike. -/
theorem serve_of_reads {p : Service α} (hp : Service.Only Step.Reads p) (s : Store) :
    ∃ r, ∀ w : World, w.Clear s → w.serve p = (r, w) :=
  run_of_reads hp s

/-- After a first reading a service fails in all clear worlds with the same store, or goes on in the
same way in all of them. -/
theorem serve_bind_of_reads {p : Service α} (hp : Service.Only Step.Reads p) (f : α → Service β)
    (s : Store) :
    (∃ e, ∀ w : World, w.Clear s → w.serve (p >>= f) = (.error e, w)) ∨
      ∃ a, ∀ w : World, w.Clear s →
        w.serve p = (.ok a, w) ∧ w.serve (p >>= f) = w.serve (f a) := by
  obtain ⟨r, hr⟩ := serve_of_reads hp s
  cases r with
  | error e =>
      refine .inl ⟨e, fun w hw => ?_⟩
      rw [serve_bind, hr w hw]
  | ok a =>
      refine .inr ⟨a, fun w hw => ⟨hr w hw, ?_⟩⟩
      rw [serve_bind, hr w hw]

end World

end Overhaul
