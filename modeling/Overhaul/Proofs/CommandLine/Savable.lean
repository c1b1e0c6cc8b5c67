import Overhaul.Proofs.CommandLine.Sitting
import Overhaul.Proofs.Store.Times

/-!
# Whatever is reached can be saved

A service that starts from a file can save what it holds at any time, and what it saves can be loaded
again, as long as nothing was moved to before the year 0: times may lie there, but have no written
form. Main statement: `savable_session`.
-/

namespace Overhaul

/-- A store can be saved when all of its records can be written. -/
theorem Store.savable_iff_exists {s : Store} :
    s.Savable ↔ ∃ text, CommandLine.Format.json.write? s.snapshot = some text := by
  rw [savable_iff]
  constructor
  · intro h
    obtain ⟨v, hv⟩ := Snapshot.exists_json? h
    exact ⟨v.page, congrArg (Option.map Json.page) hv⟩
  · rintro ⟨text, htext⟩
    obtain ⟨v, hv, -⟩ := Option.map_eq_some_iff.mp htext
    have hread : Snapshot.ofNode? .json (.ofJson v) = some s.snapshot := Snapshot.ofNode?_json hv
    exact Snapshot.writable_of_ofNode? hread

/-- The times that an operation is given. -/
def Operation.times : Operation → List Timestamp
  | .reschedule m => [m.start, m.finish]
  | .transition _ _ c => [c.now]
  | .depend _ _ _ | .undepend _ | .dependencies _ | .dependents _ | .history _ | .conflicts => []

namespace CommandLine

/-- Whatever spells a snapshot gives it times that can be written. -/
theorem Format.writable_of_read? {format : Format} {text : String} {x : Snapshot}
    (h : format.read? text = some x) : ∀ τ ∈ x.times, τ.Writable := by
  cases format with
  | json =>
      obtain ⟨v, -, hv⟩ := Option.bind_eq_some_iff.mp h
      exact Snapshot.writable_of_ofNode? hv
  | toml =>
      obtain ⟨v, -, hv⟩ := Option.bind_eq_some_iff.mp h
      exact Snapshot.writable_of_ofNode? hv

/-- A store is loaded from the snapshot that its file spells. -/
theorem ScheduleFile.exists_of_load {path text : String} {s : Store}
    (h : load path (.text text) = .ok s) :
    ∃ x, (Format.ofPath path).read? text = some x ∧ Store.ofSnapshot x = .ok s := by
  unfold load at h
  dsimp only at h
  cases hread : (Format.ofPath path).read? text with
  | none =>
      rw [hread] at h
      cases h
  | some x =>
      rw [hread] at h
      refine ⟨x, rfl, ?_⟩
      dsimp only at h
      cases hr : Store.ofSnapshot x with
      | error e =>
          rw [hr] at h
          cases h
      | ok r =>
          rw [hr] at h
          cases h
          rfl

/-- What was loaded can be saved. -/
theorem ScheduleFile.savable_of_load {path text : String} {s : Store}
    (h : load path (.text text) = .ok s) : s.Savable := by
  obtain ⟨x, hread, hr⟩ := exists_of_load h
  obtain ⟨htasks, hdependencies, hchanges⟩ :=
    Snapshot.forall_mem_times.mp (Format.writable_of_read? hread)
  have hloads := Store.loads_ofSnapshot hr
  exact ⟨hloads.tasks ▸ htasks, hloads.dependencies ▸ hdependencies, hloads.changes ▸ hchanges⟩

/-- What a whole store saves in JSON is loaded again. -/
theorem ScheduleFile.exists_load {s : Store} {text : String} (hwhole : s.Whole)
    (hpayloads : Outbox.Readable s.outbox) (htext : Format.json.write? s.snapshot = some text) :
    ∃ r, (∀ path, Format.ofPath path = .json → load path (.text text) = .ok r) ∧
      r.snapshot = s.snapshot := by
  obtain ⟨r, hr⟩ := Store.exists_ofSnapshot_iff.mpr (Store.sound_snapshot hwhole.ends)
  refine ⟨r, fun path hpath => ?_, Store.snapshot_of_ofSnapshot hr⟩
  exact load_text hpath (Format.read?_json htext hpayloads) hr

/-- A store that is built from what it saves just as it is can be in a file. -/
theorem ScheduleFile.exists_text {s : Store} (hs : s.Savable) (hpayloads : Outbox.Readable s.outbox)
    (hsame : Store.ofSnapshot s.snapshot = .ok s) :
    ∃ text, load "schedule.json" (.text text) = .ok s := by
  have hjson : Format.ofPath "schedule.json" = .json := by cbv
  obtain ⟨text, htext⟩ := Store.savable_iff_exists.mp hs
  exact ⟨text, load_text hjson (Format.read?_json htext hpayloads) hsame⟩

/-- A service goes on from the store in a file. Wherever its requests pass through, the store can be
saved exactly when none of its times lies before the year 0 on its own clock, and then what is saved is
loaded again as long as this is so of the payloads that were in the file. When no request brings a time
from before the year 0, the store can always be saved. -/
theorem savable_session {path text : String} {s : Store}
    (hload : ScheduleFile.load path (.text text) = .ok s) (qs : List Request) :
    (∀ v ∈ World.session { store := s } qs,
      ((∃ saved, Format.json.write? v.store.snapshot = some saved) ↔
        ∀ τ ∈ v.store.snapshot.times, 0 ≤ τ.date.year) ∧
      (Outbox.Readable s.outbox → ∀ saved, Format.json.write? v.store.snapshot = some saved →
        ∃ r, (∀ path', Format.ofPath path' = .json →
          ScheduleFile.load path' (.text saved) = .ok r) ∧ r.snapshot = v.store.snapshot)) ∧
    (World.Dated { store := s } qs → ∀ v ∈ World.session { store := s } qs,
      ∃ saved, Format.json.write? v.store.snapshot = some saved) := by
  obtain ⟨x, -, hr⟩ := ScheduleFile.exists_of_load hload
  have hwhole : s.Whole := Store.whole_ofSnapshot hr
  refine ⟨fun v hv => ⟨?_, fun hpayloads saved hsaved => ?_⟩, fun hqs v hv => ?_⟩
  · rw [← Store.savable_iff_exists, Store.savable_iff]
    rfl
  · have hwhole' := World.forall_session (P := Store.Whole) World.whole_trail
      (w := { store := s }) hwhole qs v hv
    have hpayloads' := World.forall_session (P := fun u => Outbox.Readable u.outbox)
      World.readable_trail (w := { store := s }) hpayloads qs v hv
    exact ScheduleFile.exists_load hwhole' hpayloads' hsaved
  · refine Store.savable_iff_exists.mp ?_
    exact World.savable_of_dated hwhole (ScheduleFile.savable_of_load hload) hqs v hv

/-- The small store, and a message that waits. -/
def sampleNoted : Store :=
  { Store.sample with
    outbox := [.aboutTask (.ofNat 1) (.ofNat 3) "task.noted" (.of (.str "torque checked"))] }

/-- The second task is brought forward with the third one, which waits for it, and then moved on its
own. -/
def sampleEarlier : List Request := [
  { setup := {}, ctx := sampleContext, operation := .reschedule
      ⟨.ofNat 2, Store.hour 0 0, Store.hour 1 0, "inspector is early", true⟩,
    honest := Request.honest_of_nil },
  { setup := {}, ctx := { sampleContext with fresh := 8 }, operation := .reschedule
      ⟨.ofNat 2, Store.hour 9 0, Store.hour 12 0, "hangar occupied", false⟩,
    honest := Request.honest_of_nil }]

theorem dated_sampleEarlier : World.Dated { store := sampleNoted } sampleEarlier := by
  refine ⟨⟨by decide, ?_⟩, ⟨by decide, ?_⟩, trivial⟩
  · rintro _ ⟨⟩
    exact Move.dated_of_all (by decide) (by decide)
  · rintro _ ⟨⟩
    exact ⟨by decide, fun hcascade => absurd hcascade (by decide)⟩

/-- Throughout the session the store can be saved, and what is saved is loaded again. -/
theorem savable_session_sample :
    ∃ text, ScheduleFile.load "schedule.json" (.text text) = .ok sampleNoted ∧
      ∀ v ∈ World.session { store := sampleNoted } sampleEarlier,
        ∃ saved, Format.json.write? v.store.snapshot = some saved ∧
          ∃ r, ScheduleFile.load "schedule.json" (.text saved) = .ok r ∧
            r.snapshot = v.store.snapshot := by
  have hjson : Format.ofPath "schedule.json" = .json := by cbv
  have hpayloads : Outbox.Readable sampleNoted.outbox :=
    List.forall_mem_singleton.mpr (Json.readable_str _ _)
  have hs : sampleNoted.Savable := ⟨by decide, by decide, by decide⟩
  obtain ⟨text, hload⟩ := ScheduleFile.exists_text hs hpayloads (by cbv)
  obtain ⟨hreached, hdated⟩ := savable_session hload sampleEarlier
  refine ⟨text, hload, fun v hv => ?_⟩
  obtain ⟨saved, hsaved⟩ := hdated dated_sampleEarlier v hv
  obtain ⟨r, hr, hsnapshot⟩ := (hreached v hv).2 hpayloads saved hsaved
  exact ⟨saved, hsaved, r, hr _ hjson, hsnapshot⟩

/-! ### What cannot be saved -/

/-- An hour of the first day of the year 0 in UTC. -/
def yearZero (h : Nat) : Timestamp where
  unixNanos := -719528 * nanosPerDay + (h % 24 : Nat) * nanosPerHour
  offset := 0
  in_years := by simp only [nanosPerDay, nanosPerHour, nanosPerMinute]; omega

/-- The first task waits for the second one, which comes later. -/
def sampleCrossed : Store :=
  { Store.empty with
    tasks := (Table.empty.put (Store.sampleTask 1 0 0)).put (Store.sampleTask 2 1 0) : Store }.link
      (Store.sampleDependency 1 1 2)

/-- The second task is moved to the beginning of the year 0, and the first one along with it. -/
def sampleAges : Request :=
  { setup := {}, ctx := sampleContext, operation := .reschedule
      ⟨.ofNat 2, yearZero 0, yearZero 1, "by the oldest records", true⟩,
    honest := Request.honest_of_nil }

/-- A schedule with a single message, whose payload is a number. All records are bare lists. -/
def sampleNumber : String :=
  "[[],[],[],[[\"00000000000000000000000000000001\",\"\",\"\",\"\",1.2195e-21,\"\"]]]"

/-- What is saved of such a message is read as a message with another number. -/
theorem exists_number_changed : ∃ outbox outbox' saved,
    Format.json.read? sampleNumber = some ⟨[], [], [], outbox⟩ ∧
      Format.json.write? ⟨[], [], [], outbox⟩ = some saved ∧
      Format.json.read? saved = some ⟨[], [], [], outbox'⟩ ∧ outbox' ≠ outbox := by
  have hchanged : ((Format.json.read? sampleNumber).bind fun x => x.json?.bind fun v =>
      (((Json.Token.scan (Json.pageChars 0 v)).bind Node.ofTokens?).bind
        (Snapshot.ofNode? .json)).map fun y => decide (x = ⟨[], [], [], x.outbox⟩ ∧
          y = ⟨[], [], [], y.outbox⟩ ∧ y.outbox ≠ x.outbox)) = some true := by decide +kernel
  obtain ⟨x, hx, hrest⟩ := Option.bind_eq_some_iff.mp hchanged
  obtain ⟨v, hv, hrest⟩ := Option.bind_eq_some_iff.mp hrest
  obtain ⟨y, hy, hrest⟩ := Option.map_eq_some_iff.mp hrest
  obtain ⟨hxs, hys, hne⟩ := of_decide_eq_true hrest
  have htext : v.page.toList = Json.pageChars 0 v := String.toList_ofList
  rw [← htext] at hy
  have hread : Format.json.read? v.page = some y := hy
  have hwrite : Format.json.write? x = some v.page := congrArg (Option.map Json.page) hv
  rw [hxs] at hx hwrite
  rw [hys] at hread
  exact ⟨x.outbox, y.outbox, v.page, hx, hwrite, hread, hne⟩

/-- Not everything that is accepted can be saved, even when all times in the requests can be written
and all requests succeed: a cascade may lead to before the year 0. And what is saved may be loaded as
something else: a number may be written as one that is read differently. -/
theorem not_savable_session :
    (¬∀ (path text : String) (s : Store) (qs : List Request),
      ScheduleFile.load path (.text text) = .ok s →
      (∀ q ∈ qs, ∀ τ ∈ q.ctx.clock :: q.operation.times, τ.Writable) →
      (∀ r ∈ World.replies { store := s } qs, r.isOk = true) →
      ∀ v ∈ World.session { store := s } qs,
        ∃ saved, Format.json.write? v.store.snapshot = some saved) ∧
    ¬∀ (path text : String) (s : Store) (saved : String),
      ScheduleFile.load path (.text text) = .ok s →
      Format.json.write? s.snapshot = some saved →
      ∃ r, ScheduleFile.load "schedule.json" (.text saved) = .ok r ∧ r.snapshot = s.snapshot := by
  constructor
  · intro h
    have hpayloads : Outbox.Readable sampleCrossed.outbox := by
      intro m hm
      cases hm
    have hs : sampleCrossed.Savable := ⟨by decide, by decide, by decide⟩
    obtain ⟨text, hload⟩ := ScheduleFile.exists_text hs hpayloads (by cbv)
    have hwritable : ∀ q ∈ [sampleAges], ∀ τ ∈ q.ctx.clock :: q.operation.times, τ.Writable := by
      decide
    have hreplies : ∀ r ∈ World.replies { store := sampleCrossed } [sampleAges], r.isOk = true := by
      refine List.forall_mem_singleton.mpr ?_
      cbv
    obtain ⟨saved, hsaved⟩ := h _ text _ _ hload hwritable hreplies _
      (World.after_mem_session _ _)
    have hnone : (Format.json.write? (World.after { store := sampleCrossed }
        [sampleAges]).store.snapshot).isNone = true := by cbv
    rw [hsaved] at hnone
    cases hnone
  · intro h
    have hjson : Format.ofPath "schedule.json" = .json := by cbv
    obtain ⟨outbox, outbox', saved, hread, hsaved, hread', hne⟩ := exists_number_changed
    have hload := ScheduleFile.load_text hjson hread rfl
    have hsnapshot : ∀ o : Outbox,
        { Store.empty with outbox := o : Store }.snapshot = ⟨[], [], [], o⟩ :=
      fun o => by simp [Store.snapshot, Store.empty, Table.empty]
    rw [← hsnapshot] at hsaved
    obtain ⟨r, hr, hsame⟩ := h _ _ _ saved hload hsaved
    rw [ScheduleFile.load_text hjson hread' rfl] at hr
    cases hr
    exact hne (congrArg Snapshot.outbox hsame)

end CommandLine

end Overhaul
