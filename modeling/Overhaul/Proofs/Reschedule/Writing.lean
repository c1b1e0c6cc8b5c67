import Overhaul.Proofs.Answers
import Overhaul.Proofs.Table
import Overhaul.Service.Reschedule

/-!
# What is written when calls fail

Which records of a cascade are written, or written back, is fixed by the faults to come. Main
statements: a cascade is written until a call fails or the caller has given up (`serve_writeCascade`),
whatever can be written back is written back (`serve_writeBack`), and a change is recorded unless this
fails (`store_serve_record`).
-/

namespace Overhaul

namespace World

/-! ### Cascades -/

/-- In the second world some records were written into the store of the first, and others of the
faults to come were used up than those of writing. -/
structure Wrote (w w' : World) (ts : List Task) (faults : List Fault) : Prop where
  store : w'.store = { w.store with tasks := w.store.tasks.putAll ts }
  writes : w'.faults .putTask = faults
  others : ∀ kind, kind ≠ .putTask → w'.faults kind = w.faults kind

theorem Wrote.trans {w₁ w₂ w₃ : World} {ts us : List Task} {fs gs : List Fault}
    (h : w₁.Wrote w₂ ts fs) (h' : w₂.Wrote w₃ us gs) : w₁.Wrote w₃ (ts ++ us) gs := by
  refine ⟨?_, h'.writes, fun kind hk => (h'.others kind hk).trans (h.others kind hk)⟩
  rw [h'.store, h.store, Table.putAll_append]

/-- A record is written unless the call fails. -/
theorem answer_put {w : World} {t : Task} (hnext : failsNext (w.faults .putTask) = false)
    (hstored : (w.store.tasks.find? t.id).isSome) :
    ∃ w', w.answer (.putTask t) = (.ok (), w') ∧ w.Wrote w' [t] (w.faults .putTask).tail ∧
      w'.cancelled = (w.past .putTask).cancelled := by
  refine ⟨{ w.past .putTask with store := { w.store with tasks := w.store.tasks.put t } }, ?_,
    ⟨rfl, faults_past w .putTask, fun kind hk => faults_past_of_ne w hk⟩, rfl⟩
  rw [answer_of_not_failsNext rfl (fun _ _ => rfl) hnext, perform, store_past,
    Store.putTask_eq_ok_iff.mpr ⟨hstored, rfl⟩]
  rfl

/-- When the call fails, nothing is written. -/
theorem answer_put_fail {w : World} {t : Task} {text : String} {rest : List Fault}
    (hfaults : w.faults .putTask = .fail text :: rest) :
    ∃ w', w.answer (.putTask t) = (.error (.unavailable text), w') ∧ w.Wrote w' [] rest := by
  refine ⟨w.past .putTask, answer_of_fail hfaults, rfl, ?_, fun kind hk => faults_past_of_ne w hk⟩
  rw [faults_past, hfaults]
  rfl

/-- From here on so many writes go well. Then the next one fails, or the caller has given up before
it; with which failure, and what is to happen to the writes after that. -/
inductive StopsAfter : Nat → (cancelled : Bool) → List Fault → Failure → List Fault → Prop
  | failed (text : String) (rest : List Fault) :
      StopsAfter 0 false (.fail text :: rest) (.store (.unavailable text)) rest
  | cancelled (rest : List Fault) : StopsAfter 0 true rest .cancelled rest
  | written {k : Nat} {fault : Fault} {faults : List Fault} {failure : Failure}
      {rest : List Fault} :
      fault ≠ .cancel → failsNext (fault :: faults) = false →
      StopsAfter k false faults failure rest →
      StopsAfter (k + 1) false (fault :: faults) failure rest
  /-- The caller gives up during the last write that goes well. -/
  | cancel (rest : List Fault) : StopsAfter 1 false (.cancel :: rest) .cancelled rest

/-- The first of the writes that go well. -/
theorem answer_put_of_stopsAfter {w : World} {t : Task} {k : Nat} {failure : Failure}
    {rest : List Fault} (hstop : StopsAfter (k + 1) w.cancelled (w.faults .putTask) failure rest)
    (hstored : (w.store.tasks.find? t.id).isSome) :
    w.cancelled = false ∧ ∃ w' faults, w.answer (.putTask t) = (.ok (), w') ∧
      w.Wrote w' [t] faults ∧ StopsAfter k w'.cancelled (w'.faults .putTask) failure rest := by
  generalize hc : w.cancelled = c at hstop
  generalize hfaults : w.faults .putTask = fs at hstop
  cases hstop with
  | written hactive hnext h =>
      obtain ⟨w', hw', hwrote, hcancelled⟩ := answer_put (by rw [hfaults, hnext]) hstored
      refine ⟨rfl, w', _, hw', hwrote, ?_⟩
      rw [hcancelled, hwrote.writes, past, hfaults, hc]
      simpa [hactive] using h
  | cancel rest =>
      obtain ⟨w', hw', hwrote, hcancelled⟩ := answer_put (by rw [hfaults]; rfl) hstored
      refine ⟨rfl, w', _, hw', hwrote, ?_⟩
      rw [hcancelled, hwrote.writes, past, hfaults]
      simpa using StopsAfter.cancelled rest

theorem serve_ask_of_answer {w w' : World} {c : Call} {e : Except CallError c.Value}
    (h : w.answer c = (e, w')) : w.serve (Service.ask c) = (e.mapError Failure.store, w') := by
  rw [serve_ask, h]

/-- A cascade moves as many tasks as can be written before it stops. -/
theorem serve_writeCascade {w : World} {shifts : List Shift} {k : Nat} {failure : Failure}
    {rest : List Fault} (hstop : StopsAfter k w.cancelled (w.faults .putTask) failure rest)
    (hk : k < shifts.length) (hstored : ∀ x ∈ shifts, (w.store.tasks.find? x.after.id).isSome) :
    ∃ w', w.serve (Service.writeCascade shifts) =
        (.ok ((shifts.take k).map Shift.before, some failure), w') ∧
      w.Wrote w' ((shifts.take k).map Shift.after) rest := by
  induction k generalizing w shifts with
  | zero =>
      obtain ⟨shift, left, rfl⟩ := List.exists_cons_of_ne_nil (List.ne_nil_of_length_pos hk)
      have hhead : ∃ w', w.serve (do Service.ensureActive; Service.ask (.putTask shift.after)) =
          (.error failure, w') ∧ w.Wrote w' [] rest := by
        generalize hc : w.cancelled = c at hstop
        generalize hfaults : w.faults .putTask = fs at hstop
        cases hstop with
        | failed text rest =>
            obtain ⟨w', hw', hwrote⟩ := answer_put_fail (t := shift.after) hfaults
            refine ⟨w', ?_, hwrote⟩
            rw [serve_bind, serve_ensureActive, hc]
            exact serve_ask_of_answer hw'
        | cancelled rest =>
            refine ⟨w, ?_, ⟨rfl, hfaults, fun _ _ => rfl⟩⟩
            rw [serve_bind, serve_ensureActive, hc]
            rfl
      obtain ⟨w', hw', hwrote⟩ := hhead
      refine ⟨w', ?_, hwrote⟩
      rw [Service.writeCascade, serve_bind, serve_outcome, hw']
      rfl
  | succ k ih =>
      obtain ⟨shift, left, rfl⟩ := List.exists_cons_of_ne_nil
        (List.ne_nil_of_length_pos (Nat.zero_lt_of_lt hk))
      obtain ⟨hactive, w₁, faults, hw₁, hwrote₁, hstop₁⟩ :=
        answer_put_of_stopsAfter hstop (hstored shift List.mem_cons_self)
      have hhead : w.serve (do Service.ensureActive; Service.ask (.putTask shift.after)) =
          (.ok (), w₁) := by
        rw [serve_bind, serve_ensureActive, hactive]
        exact serve_ask_of_answer hw₁
      have hstored₁ : ∀ x ∈ left, (w₁.store.tasks.find? x.after.id).isSome := by
        intro x hx
        rw [hwrote₁.store]
        exact Table.isSome_find?_put (hstored x (List.mem_cons_of_mem _ hx))
      obtain ⟨w₂, hw₂, hwrote₂⟩ := ih hstop₁ (Nat.lt_of_succ_lt_succ hk) hstored₁
      refine ⟨w₂, ?_, hwrote₁.trans hwrote₂⟩
      rw [Service.writeCascade, serve_bind, serve_outcome, hhead]
      dsimp only
      rw [serve_bind, hw₂]
      rfl

/-! ### Writing back -/

/-- The records that are written when some of the calls fail. -/
def written : List Fault → List Task → List Task
  | _, [] => []
  | faults, t :: ts =>
    if failsNext faults then written faults.tail ts else t :: written faults.tail ts

theorem written_sublist (faults : List Fault) (ts : List Task) :
    (written faults ts).Sublist ts := by
  induction ts generalizing faults with
  | nil => exact List.Sublist.refl _
  | cons t ts ih =>
      rw [written]
      split
      · exact (ih _).cons t
      · exact (ih _).cons_cons t

/-- A record whose call does not fail is written, whatever happens to the others. -/
theorem mem_written {faults : List Fault} {ts : List Task} {i : Nat} {t : Task}
    (ht : ts[i]? = some t) (h : ∀ text, faults[i]? ≠ some (.fail text)) : t ∈ written faults ts := by
  induction ts generalizing faults i with
  | nil => simp at ht
  | cons u ts ih =>
      rw [written]
      cases i with
      | zero =>
          rw [failsNext_eq_false_iff.mpr h]
          simp_all
      | succ i =>
          have hrest : t ∈ written faults.tail ts := ih (by simpa using ht) (by simpa using h)
          split
          · exact hrest
          · exact List.mem_cons_of_mem _ hrest

/-- When none of the calls fails, everything is written. -/
theorem written_eq_self {faults : List Fault} {ts : List Task}
    (h : ∀ i < ts.length, ∀ text, faults[i]? ≠ some (.fail text)) : written faults ts = ts := by
  induction ts generalizing faults with
  | nil => rfl
  | cons t ts ih =>
      rw [written, failsNext_eq_false_iff.mpr (h 0 (Nat.succ_pos _)), if_neg Bool.false_ne_true,
        ih fun i hi => ?_]
      simpa using h (i + 1) (Nat.succ_lt_succ hi)

/-- Whatever can be written back is written back. -/
theorem serve_writeBack {w : World} {ts : List Task}
    (hstored : ∀ t ∈ ts, (w.store.tasks.find? t.id).isSome) :
    ∃ w' faults, w.serve (Service.writeBack ts) = (.ok (), w') ∧
      w.Wrote w' (written (w.faults .putTask) ts) faults := by
  induction ts generalizing w with
  | nil => exact ⟨w, _, rfl, ⟨by simp [written], rfl, fun _ _ => rfl⟩⟩
  | cons t ts ih =>
      have hhead : ∃ e w₁, w.answer (.putTask t) = (e, w₁) ∧
          w.Wrote w₁ (if failsNext (w.faults .putTask) then [] else [t])
            (w.faults .putTask).tail := by
        cases hnext : failsNext (w.faults .putTask) with
        | true =>
            obtain ⟨text, rest, hfaults⟩ := eq_cons_of_failsNext hnext
            obtain ⟨w₁, hw₁, hwrote₁⟩ := answer_put_fail (t := t) hfaults
            rw [hfaults]
            exact ⟨_, w₁, hw₁, hwrote₁⟩
        | false =>
            obtain ⟨w₁, hw₁, hwrote₁, -⟩ := answer_put hnext (hstored t List.mem_cons_self)
            exact ⟨_, w₁, hw₁, hwrote₁⟩
      obtain ⟨e, w₁, hw₁, hwrote₁⟩ := hhead
      have hstored₁ : ∀ u ∈ ts, (w₁.store.tasks.find? u.id).isSome := by
        intro u hu
        rw [hwrote₁.store]
        split
        · exact hstored u (List.mem_cons_of_mem _ hu)
        · exact Table.isSome_find?_put (hstored u (List.mem_cons_of_mem _ hu))
      obtain ⟨w₂, faults, hw₂, hwrote₂⟩ := ih hstored₁
      refine ⟨w₂, faults, ?_, ?_⟩
      · have hdiscard : w.serve (discard (Service.attempt (.putTask t))) = (.ok (), w₁) :=
          congrArg (fun p => (Except.ok (), p.2)) hw₁
        rw [Service.writeBack, serve_bind, hdiscard]
        exact hw₂
      · rw [hwrote₁.writes] at hwrote₂
        have hwrote := hwrote₁.trans hwrote₂
        rw [written]
        split
        · rename_i hnext
          rwa [if_pos hnext] at hwrote
        · rename_i hnext
          rwa [if_neg hnext] at hwrote

/-! ### Recording -/

/-- The change can be recorded: the next call to do so goes well, and its identifier is new. -/
def Appends (w : World) (id : ChangeId) : Prop :=
  failsNext (w.faults .addChange) = false ∧ w.store.changes.find? id = none

/-- An announcement changes at most the outbox. -/
theorem store_serve_publish (w : World) (setup : Setup) (tenant : TenantId) (task : TaskId)
    (eventType : String) (payload : Option Json) :
    ∃ outbox, (w.serve (Service.publish setup tenant task eventType payload)).2.store =
      { w.store with outbox } := by
  unfold Service.publish
  split
  · rename_i m _
    change ∃ outbox, (w.answer (.announce _)).2.store = _
    cases hnext : failsNext (w.faults .announce) with
    | true =>
        obtain ⟨text, rest, hfaults⟩ := eq_cons_of_failsNext hnext
        rw [answer_of_fail hfaults]
        exact ⟨_, rfl⟩
    | false =>
        rw [answer_of_not_failsNext rfl (fun _ _ => rfl) hnext]
        exact ⟨_, rfl⟩
  · exact ⟨_, rfl⟩

/-- A change is recorded when it can be, and otherwise nothing happens to the store. -/
theorem store_serve_record (w : World) (setup : Setup) (c : ScheduleChange) :
    (w.Appends c.id → ∃ outbox, (w.serve (Service.record setup c)).2.store =
      { w.store with changes := w.store.changes.put c, outbox }) ∧
    (¬w.Appends c.id → (w.serve (Service.record setup c)).2.store = w.store) := by
  rw [Service.record, serve_bind, serve_ask]
  cases hnext : failsNext (w.faults .addChange) with
  | true =>
      obtain ⟨text, rest, hfaults⟩ := eq_cons_of_failsNext hnext
      rw [answer_of_fail hfaults]
      refine ⟨fun h => ?_, fun _ => rfl⟩
      rw [h.1] at hnext
      cases hnext
  | false =>
      rw [answer_of_not_failsNext rfl (fun _ _ => rfl) hnext, perform, store_past]
      constructor
      · intro h
        rw [Store.addChange_eq_ok_iff.mpr ⟨h.2, rfl⟩]
        exact store_serve_publish _ _ _ _ _ _
      · intro h
        cases hadd : w.store.addChange c with
        | error cause => rfl
        | ok s => exact absurd ⟨hnext, (Store.addChange_eq_ok_iff.mp hadd).1⟩ h

end World

end Overhaul
