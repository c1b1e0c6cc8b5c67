import Overhaul.Proofs.Record.Reading
import Overhaul.Proofs.Store.Index
import Overhaul.Store.Snapshot

/-!
# Records are read back

A record can be written when all of its times can be, and then what is written is read back as the
same record. Whatever is read from a document is such a record, however the document spelled it.
Main statement: `Dialect.readsBack_records`.
-/

namespace Overhaul

/-- The value that is written for `a` is read back as `a`. -/
def ReadsBack {α : Type} (read : Node → Option α) (a : α) (written : Option Json) : Prop :=
  ∃ v, written = some v ∧ read (.ofJson v) = some a

namespace ReadsBack

variable {α : Type} {read : Node → Option α}

theorem of_fields? {a : α} {written : Option Fields} (hwritten : ∃ fields, written = some fields)
    (hread : ∀ fields, written = some fields → read (.ofJson fields.json) = some a) :
    ReadsBack read a (written.map Fields.json) := by
  obtain ⟨fields, hfields⟩ := hwritten
  exact ⟨fields.json, Option.map_eq_some_iff.mpr ⟨fields, hfields, rfl⟩, hread fields hfields⟩

end ReadsBack

variable {dialect : Dialect}

/-! ### Times -/

namespace Timestamp

theorem exists_json? {t : Timestamp} (h : t.Writable) : ∃ v, t.json? = some v := by
  obtain ⟨s, hs⟩ := exists_text?_iff.mpr h
  exact ⟨.str s, Option.map_eq_some_iff.mpr ⟨s, hs, rfl⟩⟩

theorem exists_mapM_json? {o : Option Timestamp} (h : ∀ t ∈ o.toList, t.Writable) :
    ∃ v, o.mapM json? = some v := by
  cases o with
  | none => exact ⟨none, rfl⟩
  | some t =>
      obtain ⟨v, hv⟩ := exists_json? (h t List.mem_cons_self)
      exact ⟨some v, Option.map_eq_some_iff.mpr ⟨v, hv, rfl⟩⟩

end Timestamp

namespace Node

theorem orNull?_time {o : Option Timestamp} {v : Option Json}
    (h : o.mapM Timestamp.json? = some v) : orNull? time? (.ofJson (v.getD .null)) = some o := by
  refine orNull?_json rfl ?_
  cases o with
  | none =>
      cases h
      exact .none
  | some t =>
      obtain ⟨w, hw, rfl⟩ := Option.map_eq_some_iff.mp h
      exact .some (time?_json hw)

theorem writable_of_time? {v : Node} {t : Timestamp} (h : time? v = some t) : t.Writable := by
  obtain ⟨s, -, hs⟩ := Option.bind_eq_some_iff.mp h
  exact Timestamp.writable_of_ofText? hs

/-! ### Identifiers -/

theorem orNull?_id {kind : IdKind} (o : Option (Id kind)) :
    orNull? id? (.ofJson ((o.map Id.json).getD .null)) = some o := by
  refine orNull?_json rfl ?_
  cases o with
  | none => exact .none
  | some i => exact .some (id?_json i)

theorem items?_ids {kind : IdKind} (ids : List (Id kind)) :
    items? id? (.ofJson (.arr (ids.map Id.json))) = some ids :=
  items?_json (List.forall₂_map_right_iff.mpr (List.forall₂_same.mpr fun i _ => id?_json i))

/-! ### Lists -/

/-- Each item of a list that was read was read from somewhere. -/
theorem exists_of_mem_items? {α : Type} {read : Node → Option α} {v : Node} {xs : List α} {a : α}
    (h : items? read v = some xs) (ha : a ∈ xs) : ∃ w, read w = some a := by
  unfold items? at h
  split at h
  · rename_i items
    induction items generalizing xs with
    | nil =>
        cases h
        cases ha
    | cons w items ih =>
        simp only [List.mapM_cons, bind_eq_some_iff, Option.pure_def, Option.some.injEq] at h
        obtain ⟨b, hb, rest, hrest, rfl⟩ := h
        obtain rfl | ha := List.mem_cons.mp ha
        · exact ⟨w, hb⟩
        · exact ih ha hrest
  · cases h

end Node

namespace Record

variable {r : Record} {name : String}

theorem writable_of_required? {t : Timestamp} (h : r.required? name Node.time? = some t) :
    t.Writable := by
  obtain ⟨v, -, hv⟩ := Option.bind_eq_some_iff.mp h
  exact Node.writable_of_time? hv

theorem writable_of_optional? {o : Option Timestamp}
    (h : r.optional? name none (Node.orNull? Node.time?) = some o) :
    ∀ t ∈ o.toList, t.Writable := by
  unfold optional? at h
  split at h
  · rename_i v _
    unfold Node.orNull? at h
    split at h
    · cases h
      simp
    · obtain ⟨t, ht, rfl⟩ := Option.map_eq_some_iff.mp h
      simpa using Node.writable_of_time? ht
  · cases h
    simp

theorem exists_of_mem_optional? {α : Type} {read : Node → Option α} {xs : List α} {a : α}
    (h : r.optional? name [] (Node.items? read) = some xs) (ha : a ∈ xs) :
    ∃ w, read w = some a := by
  unfold optional? at h
  split at h
  · exact Node.exists_of_mem_items? h ha
  · cases h
    cases ha

end Record

/-! ### Tasks -/

/-- The times in the record. -/
def Task.times (t : Task) : List Timestamp :=
  [t.start, t.finish, t.created, t.updated] ++ t.deleted.toList

namespace Task

variable {t : Task}

theorem exists_fields? (h : ∀ τ ∈ t.times, τ.Writable) : ∃ fields, t.fields? = some fields := by
  simp only [times, List.forall_mem_append, List.forall_mem_cons] at h
  obtain ⟨⟨hstart, hfinish, hcreated, hupdated, -⟩, hdeleted⟩ := h
  obtain ⟨start, hstart⟩ := Timestamp.exists_json? hstart
  obtain ⟨finish, hfinish⟩ := Timestamp.exists_json? hfinish
  obtain ⟨deleted, hdeleted⟩ := Timestamp.exists_mapM_json? hdeleted
  obtain ⟨created, hcreated⟩ := Timestamp.exists_json? hcreated
  obtain ⟨updated, hupdated⟩ := Timestamp.exists_json? hupdated
  simp [fields?, hstart, hfinish, hdeleted, hcreated, hupdated]

theorem ofNode?_json {fields : Fields} (h : t.fields? = some fields) :
    ofNode? dialect (.ofJson fields.json) = some t := by
  simp only [fields?, bind_eq_some_iff, Option.pure_def, Option.some.injEq] at h
  obtain ⟨start, hstart, finish, hfinish, deleted, hdeleted, created, hcreated, updated, hupdated,
    rfl⟩ := h
  rw [ofNode?, Record.read?_json]
  · simp only [List.map_cons, Option.getD_some, String.reduceEq, reduceIte, some_bind,
      Option.pure_def, Record.required?_cons, Record.optional?_cons, Node.id?_json,
      Node.named?_json, Node.time?_json hstart, Node.time?_json hfinish, Node.time?_json hcreated,
      Node.time?_json hupdated, Node.orNull?_id, Node.orNull?_time hdeleted, Node.text?_json]
  · rfl
  · decide

theorem readsBack (h : ∀ τ ∈ t.times, τ.Writable) :
    ReadsBack (ofNode? dialect) t (t.fields?.map Fields.json) :=
  .of_fields? (exists_fields? h) fun _ => ofNode?_json

theorem writable_of_ofNode? {v : Node} (h : ofNode? dialect v = some t) :
    ∀ τ ∈ t.times, τ.Writable := by
  simp only [ofNode?, bind_eq_some_iff, Option.pure_def, Option.some.injEq] at h
  obtain ⟨r, -, _, -, _, -, _, -, _, -, _, -, _, -, start, hstart, finish, hfinish, _, -, _, -,
    deleted, hdeleted, created, hcreated, updated, hupdated, rfl⟩ := h
  simp only [times, List.forall_mem_append, List.forall_mem_cons]
  exact ⟨⟨Record.writable_of_required? hstart, Record.writable_of_required? hfinish,
    Record.writable_of_required? hcreated, Record.writable_of_required? hupdated, by simp⟩,
    Record.writable_of_optional? hdeleted⟩

end Task

/-! ### Dependencies -/

/-- The times in the record. -/
def Dependency.times (d : Dependency) : List Timestamp := [d.created]

namespace Dependency

variable {d : Dependency}

theorem exists_fields? (h : ∀ τ ∈ d.times, τ.Writable) : ∃ fields, d.fields? = some fields := by
  obtain ⟨created, hcreated⟩ := Timestamp.exists_json? (List.forall_mem_singleton.mp h)
  simp [fields?, hcreated]

theorem ofNode?_json {fields : Fields} (h : d.fields? = some fields) :
    ofNode? dialect (.ofJson fields.json) = some d := by
  simp only [fields?, bind_eq_some_iff, Option.pure_def, Option.some.injEq] at h
  obtain ⟨created, hcreated, rfl⟩ := h
  rw [ofNode?, Record.read?_json]
  · simp only [List.map_cons, Option.getD_some, String.reduceEq, reduceIte, some_bind,
      Option.pure_def, Record.required?_cons, Record.optional?_cons, Node.id?_json,
      Node.named?_json, Node.time?_json hcreated]
  · rfl
  · decide

theorem readsBack (h : ∀ τ ∈ d.times, τ.Writable) :
    ReadsBack (ofNode? dialect) d (d.fields?.map Fields.json) :=
  .of_fields? (exists_fields? h) fun _ => ofNode?_json

theorem writable_of_ofNode? {v : Node} (h : ofNode? dialect v = some d) :
    ∀ τ ∈ d.times, τ.Writable := by
  simp only [ofNode?, bind_eq_some_iff, Option.pure_def, Option.some.injEq] at h
  obtain ⟨r, -, _, -, _, -, _, -, _, -, _, -, created, hcreated, rfl⟩ := h
  exact List.forall_mem_singleton.mpr (Record.writable_of_required? hcreated)

end Dependency

/-! ### Schedule changes -/

/-- The times in the record. -/
def ScheduleChange.times (c : ScheduleChange) : List Timestamp :=
  [c.oldStart, c.oldFinish, c.newStart, c.newFinish, c.created]

namespace ScheduleChange

variable {c : ScheduleChange}

theorem exists_fields? (h : ∀ τ ∈ c.times, τ.Writable) : ∃ fields, c.fields? = some fields := by
  simp only [times, List.forall_mem_cons] at h
  obtain ⟨holdStart, holdFinish, hnewStart, hnewFinish, hcreated, -⟩ := h
  obtain ⟨oldStart, holdStart⟩ := Timestamp.exists_json? holdStart
  obtain ⟨oldFinish, holdFinish⟩ := Timestamp.exists_json? holdFinish
  obtain ⟨newStart, hnewStart⟩ := Timestamp.exists_json? hnewStart
  obtain ⟨newFinish, hnewFinish⟩ := Timestamp.exists_json? hnewFinish
  obtain ⟨created, hcreated⟩ := Timestamp.exists_json? hcreated
  simp [fields?, holdStart, holdFinish, hnewStart, hnewFinish, hcreated]

theorem ofNode?_json {fields : Fields} (h : c.fields? = some fields) :
    ofNode? dialect (.ofJson fields.json) = some c := by
  simp only [fields?, bind_eq_some_iff, Option.pure_def, Option.some.injEq] at h
  obtain ⟨oldStart, holdStart, oldFinish, holdFinish, newStart, hnewStart, newFinish, hnewFinish,
    created, hcreated, rfl⟩ := h
  rw [ofNode?, Record.read?_json]
  · simp only [List.map_cons, Option.getD_some, String.reduceEq, reduceIte, some_bind,
      Option.pure_def, Record.required?_cons, Record.optional?_cons, Node.id?_json,
      Node.named?_json, Node.time?_json holdStart, Node.time?_json holdFinish,
      Node.time?_json hnewStart, Node.time?_json hnewFinish, Node.time?_json hcreated,
      Node.items?_ids, Node.text?_json]
  · rfl
  · decide

theorem readsBack (h : ∀ τ ∈ c.times, τ.Writable) :
    ReadsBack (ofNode? dialect) c (c.fields?.map Fields.json) :=
  .of_fields? (exists_fields? h) fun _ => ofNode?_json

theorem writable_of_ofNode? {v : Node} (h : ofNode? dialect v = some c) :
    ∀ τ ∈ c.times, τ.Writable := by
  simp only [ofNode?, bind_eq_some_iff, Option.pure_def, Option.some.injEq] at h
  obtain ⟨r, -, _, -, _, -, _, -, _, -, _, -, oldStart, holdStart, oldFinish, holdFinish, newStart,
    hnewStart, newFinish, hnewFinish, _, -, _, -, created, hcreated, rfl⟩ := h
  simp only [times, List.forall_mem_cons]
  exact ⟨Record.writable_of_required? holdStart, Record.writable_of_required? holdFinish,
    Record.writable_of_required? hnewStart, Record.writable_of_required? hnewFinish,
    Record.writable_of_required? hcreated, by simp⟩

end ScheduleChange

/-! ### Records without times -/

theorem Message.ofNode?_json (m : Message) :
    ofNode? dialect (.ofJson m.fields.json) = some m := by
  rw [fields, ofNode?, Record.read?_json]
  · simp only [List.map_cons, Option.getD_some, String.reduceEq, reduceIte, some_bind,
      Option.pure_def, Record.required?_cons, Node.id?_json, Node.payload?_json, Node.text?_json]
  · rfl
  · decide

theorem Conflict.ofNode?_json (c : Conflict) :
    ofNode? dialect (.ofJson c.fields.json) = some c := by
  rw [fields, ofNode?, Record.read?_json]
  · simp only [List.map_cons, Option.getD_some, String.reduceEq, reduceIte, some_bind,
      Option.pure_def, Record.required?_cons, Node.id?_json, Node.named?_json, Node.items?_ids,
      Node.text?_json]
  · rfl
  · decide

theorem Actor.ofNode?_json (a : Actor) : ofNode? dialect (.ofJson a.fields.json) = some a := by
  rw [fields, ofNode?, Record.read?_json]
  · simp only [List.map_cons, Option.getD_some, String.reduceEq, reduceIte, some_bind,
      Option.pure_def, Record.required?_cons, Node.id?_json, Node.named?_json]
  · rfl
  · decide

/-! ### Snapshots -/

/-- The times in all of its records. -/
def Snapshot.times (x : Snapshot) : List Timestamp :=
  x.tasks.flatMap Task.times ++ x.dependencies.flatMap Dependency.times ++
    x.changes.flatMap ScheduleChange.times

namespace Snapshot

variable {x : Snapshot}

theorem forall_mem_times {p : Timestamp → Prop} :
    (∀ τ ∈ x.times, p τ) ↔ (∀ t ∈ x.tasks, ∀ τ ∈ t.times, p τ) ∧
      (∀ d ∈ x.dependencies, ∀ τ ∈ d.times, p τ) ∧ ∀ c ∈ x.changes, ∀ τ ∈ c.times, p τ := by
  simp only [times, List.forall_mem_append, List.forall_mem_flatMap, and_assoc]

theorem exists_json? (h : ∀ τ ∈ x.times, τ.Writable) : ∃ v, x.json? = some v := by
  obtain ⟨hinTasks, hinDependencies, hinChanges⟩ := forall_mem_times.mp h
  obtain ⟨tasks, htasks⟩ := exists_mapM fun t ht => Task.exists_fields? (hinTasks t ht)
  obtain ⟨dependencies, hdependencies⟩ :=
    exists_mapM fun d hd => Dependency.exists_fields? (hinDependencies d hd)
  obtain ⟨changes, hchanges⟩ :=
    exists_mapM fun c hc => ScheduleChange.exists_fields? (hinChanges c hc)
  simp [json?, lists?, htasks, hdependencies, hchanges]

/-- A written snapshot holds its records in four lists. -/
theorem json?_eq_some_iff {v : Json} : x.json? = some v ↔ ∃ tasks dependencies changes,
    x.tasks.mapM Task.fields? = some tasks ∧
      x.dependencies.mapM Dependency.fields? = some dependencies ∧
      x.changes.mapM ScheduleChange.fields? = some changes ∧
      v = .obj [("tasks", .arr (tasks.map Fields.json)),
        ("dependencies", .arr (dependencies.map Fields.json)),
        ("schedule_events", .arr (changes.map Fields.json)),
        ("outbox", .arr ((x.outbox.map Message.fields).map Fields.json))] := by
  simp only [json?, lists?, bind_eq_some_iff, Option.pure_def, Option.some.injEq]
  constructor
  · rintro ⟨_, ⟨tasks, htasks, dependencies, hdependencies, changes, hchanges, rfl⟩, rfl⟩
    exact ⟨tasks, dependencies, changes, htasks, hdependencies, hchanges, rfl⟩
  · rintro ⟨tasks, dependencies, changes, htasks, hdependencies, hchanges, rfl⟩
    exact ⟨_, ⟨tasks, htasks, dependencies, hdependencies, changes, hchanges, rfl⟩, rfl⟩

theorem ofNode?_json {v : Json} (h : x.json? = some v) :
    ofNode? dialect (.ofJson v) = some x := by
  obtain ⟨tasks, dependencies, changes, htasks, hdependencies, hchanges, rfl⟩ :=
    json?_eq_some_iff.mp h
  have hreadTasks := Node.items?_records (Task.ofNode? dialect) htasks
    fun _ _ => Task.ofNode?_json
  have hreadDependencies := Node.items?_records (Dependency.ofNode? dialect) hdependencies
    fun _ _ => Dependency.ofNode?_json
  have hreadChanges := Node.items?_records (ScheduleChange.ofNode? dialect) hchanges
    fun _ _ => ScheduleChange.ofNode?_json
  have hreadOutbox : Node.items? (Message.ofNode? dialect)
      (.ofJson (.arr ((x.outbox.map Message.fields).map Fields.json))) = some x.outbox := by
    rw [List.map_map]
    exact Node.items?_json
      (List.forall₂_map_right_iff.mpr (List.forall₂_same.mpr fun m _ => Message.ofNode?_json m))
  rw [ofNode?, Record.read?_obj]
  · simp only [List.map_cons, String.reduceEq, reduceIte, some_bind, Option.pure_def,
      Record.optional?_cons, hreadTasks, hreadDependencies, hreadChanges, hreadOutbox]
  · rfl
  · decide

theorem readsBack (h : ∀ τ ∈ x.times, τ.Writable) : ReadsBack (ofNode? dialect) x x.json? := by
  obtain ⟨v, hv⟩ := exists_json? h
  exact ⟨v, hv, ofNode?_json hv⟩

theorem writable_of_ofNode? {v : Node} (h : ofNode? dialect v = some x) :
    ∀ τ ∈ x.times, τ.Writable := by
  simp only [ofNode?, bind_eq_some_iff, Option.pure_def, Option.some.injEq] at h
  obtain ⟨r, -, tasks, htasks, dependencies, hdependencies, changes, hchanges, outbox, -, rfl⟩ := h
  refine forall_mem_times.mpr ⟨fun t ht => ?_, fun d hd => ?_, fun c hc => ?_⟩
  · obtain ⟨w, hw⟩ := Record.exists_of_mem_optional? htasks ht
    exact Task.writable_of_ofNode? hw
  · obtain ⟨w, hw⟩ := Record.exists_of_mem_optional? hdependencies hd
    exact Dependency.writable_of_ofNode? hw
  · obtain ⟨w, hw⟩ := Record.exists_of_mem_optional? hchanges hc
    exact ScheduleChange.writable_of_ofNode? hw

end Snapshot

/-! ### All records -/

/-- Every record is written and read back as it was, as long as its times lie in the year 0 or
later; and a snapshot that was read from whatever document can be written, and is read back as it
was. -/
theorem Dialect.readsBack_records (dialect : Dialect) :
    (∀ t : Task, (∀ τ ∈ t.times, τ.Writable) →
      ReadsBack (Task.ofNode? dialect) t (t.fields?.map Fields.json)) ∧
    (∀ d : Dependency, (∀ τ ∈ d.times, τ.Writable) →
      ReadsBack (Dependency.ofNode? dialect) d (d.fields?.map Fields.json)) ∧
    (∀ c : ScheduleChange, (∀ τ ∈ c.times, τ.Writable) →
      ReadsBack (ScheduleChange.ofNode? dialect) c (c.fields?.map Fields.json)) ∧
    (∀ m : Message, ReadsBack (Message.ofNode? dialect) m (some m.fields.json)) ∧
    (∀ c : Conflict, ReadsBack (Conflict.ofNode? dialect) c (some c.fields.json)) ∧
    (∀ a : Actor, ReadsBack (Actor.ofNode? dialect) a (some a.fields.json)) ∧
    (∀ x : Snapshot, (∀ τ ∈ x.times, τ.Writable) → ReadsBack (Snapshot.ofNode? dialect) x x.json?) ∧
    ∀ (v : Node) (x : Snapshot), Snapshot.ofNode? dialect v = some x →
      ReadsBack (Snapshot.ofNode? dialect) x x.json? := by
  refine ⟨fun t => Task.readsBack, fun d => Dependency.readsBack, fun c => ScheduleChange.readsBack,
    fun m => ⟨_, rfl, m.ofNode?_json⟩, fun c => ⟨_, rfl, c.ofNode?_json⟩,
    fun a => ⟨_, rfl, a.ofNode?_json⟩, fun x => Snapshot.readsBack, fun v x h => ?_⟩
  exact Snapshot.readsBack (Snapshot.writable_of_ofNode? h)

/-- A dependency as a bare list, with identifiers in several spellings and made in a leap second,
beside a field of another name. -/
def Node.sampleSnapshot : Node :=
  .record [("version", .null), ("dependencies", .list [.list [
    .str "00000000000000000000000000000001", .str "\x7b00000000-0000-0000-0000-000000000001\x7d",
    .str "00000000-0000-0000-0000-000000000002",
    .str "urn:uuid:00000000-0000-0000-0000-000000000001",
    .record [("start_to_start", .null)], .str "2016-12-31t23:59:60z"]])]

/-- A deleted task on a clock ahead of UTC, with a dependency and a move of it. -/
theorem Dialect.readsBack_records_sample :
    let t : Task := { Store.sampleTask 3 2 2 with deleted := some (Store.hour 5 1) }
    let d := Store.sampleDependency 1 3 2
    let c : ScheduleChange := {
      id := .ofNat 1
      tenant := .ofNat 1
      task := t.id
      kind := .rescheduled
      reason := "parts"
      oldStart := Store.hour 1 2
      oldFinish := Store.hour 2 2
      newStart := t.start
      newFinish := t.finish
      user := .ofNat 1
      affected := []
      created := Store.hour 0 0 }
    let x : Snapshot := ⟨[t], [d], [c], []⟩
    ReadsBack (Task.ofNode? .json) t (t.fields?.map Fields.json) ∧
      ReadsBack (Dependency.ofNode? .json) d (d.fields?.map Fields.json) ∧
      ReadsBack (ScheduleChange.ofNode? .json) c (c.fields?.map Fields.json) ∧
      ReadsBack (Snapshot.ofNode? .json) x x.json? ∧
      ∃ y, Snapshot.ofNode? .json Node.sampleSnapshot = some y ∧ y.dependencies.length = 1 ∧
        ReadsBack (Snapshot.ofNode? .json) y y.json? := by
  intro t d c x
  obtain ⟨htask, hdependency, hchange, -, -, -, hsnapshot, hread⟩ :=
    Dialect.readsBack_records .json
  have hsample : ((Snapshot.ofNode? .json Node.sampleSnapshot).map fun y =>
      y.dependencies.length) = some 1 := by decide +kernel
  obtain ⟨y, hy, hlength⟩ := Option.map_eq_some_iff.mp hsample
  exact ⟨htask t (by decide), hdependency d (by decide), hchange c (by decide),
    hsnapshot x (by decide), y, hy, hlength, hread _ y hy⟩

end Overhaul
