import Overhaul.CommandLine.ScheduleFile
import Overhaul.Proofs.Json.Documents
import Overhaul.Proofs.Record.RoundTrip

/-!
# Snapshots are read back from their text

A record is written without numbers and hardly nested, but a message may carry any payload. Main
statement: a snapshot is read back from the text that is written for it, as long as the payloads of its
messages are (`Format.read?_json`).
-/

namespace Overhaul

open Json (Readable readable_null readable_str readable_arr readable_obj)

/-! ### Records -/

theorem Fields.readable_json {n : Nat} {fields : Fields}
    (h : ∀ f ∈ fields, ∀ v ∈ f.2, v.Readable n) : fields.json.Readable (n + 1) := by
  refine readable_obj.mpr fun g hg => ?_
  obtain ⟨⟨name, v⟩, hf, rfl⟩ := List.mem_map.mp hg
  cases v with
  | none => exact readable_null n
  | some v => exact h _ hf v rfl

theorem Timestamp.readable_json? {t : Timestamp} {v : Json} (n : Nat) (h : t.json? = some v) :
    v.Readable n := by
  obtain ⟨s, -, rfl⟩ := Option.map_eq_some_iff.mp h
  exact readable_str n s

theorem Id.readable_map {kind : IdKind} {o : Option (Id kind)} {v : Json} (n : Nat)
    (h : v ∈ o.map Id.json) : v.Readable n := by
  obtain ⟨i, -, rfl⟩ := Option.map_eq_some_iff.mp h
  exact readable_str n i.text

theorem Id.readable_json {kind : IdKind} (i : Id kind) (n : Nat) : i.json.Readable n :=
  readable_str n i.text

theorem Named.readable_json {α : Type} [Named α] (a : α) (n : Nat) : (Named.json a).Readable n :=
  readable_str n (Named.name a)

theorem Task.readable_json {t : Task} {fields : Fields} (n : Nat) (h : t.fields? = some fields) :
    fields.json.Readable (n + 1) := by
  simp only [fields?, bind_eq_some_iff, Option.pure_def, Option.some.injEq] at h
  obtain ⟨start, hstart, finish, hfinish, deleted, hdeleted, created, hcreated, updated, hupdated,
    rfl⟩ := h
  have hdeleted' : ∀ v ∈ deleted, v.Readable n := by
    intro v hv
    cases hd : t.deleted with
    | none =>
        rw [hd] at hdeleted
        cases hdeleted
        cases hv
    | some τ =>
        rw [hd] at hdeleted
        obtain ⟨w, hw, rfl⟩ := Option.map_eq_some_iff.mp hdeleted
        cases hv
        exact Timestamp.readable_json? n hw
  refine Fields.readable_json ?_
  simpa only [List.forall_mem_cons, Option.mem_def, Option.some.injEq, forall_eq', Id.readable_json,
    Named.readable_json, readable_str, Timestamp.readable_json? n hstart,
    Timestamp.readable_json? n hfinish, Timestamp.readable_json? n hcreated,
    Timestamp.readable_json? n hupdated, true_and, and_true, List.not_mem_nil, false_implies,
    implies_true] using
    ⟨fun v => Id.readable_map n, fun v => Id.readable_map n, hdeleted'⟩

theorem Dependency.readable_json {d : Dependency} {fields : Fields} (n : Nat)
    (h : d.fields? = some fields) : fields.json.Readable (n + 1) := by
  simp only [fields?, bind_eq_some_iff, Option.pure_def, Option.some.injEq] at h
  obtain ⟨created, hcreated, rfl⟩ := h
  refine Fields.readable_json ?_
  simp only [List.forall_mem_cons, Option.mem_def, Option.some.injEq, forall_eq', Id.readable_json,
    Named.readable_json, Timestamp.readable_json? n hcreated, true_and, List.not_mem_nil,
    false_implies, implies_true]

theorem ScheduleChange.readable_json {c : ScheduleChange} {fields : Fields} (n : Nat)
    (h : c.fields? = some fields) : fields.json.Readable (n + 2) := by
  simp only [fields?, bind_eq_some_iff, Option.pure_def, Option.some.injEq] at h
  obtain ⟨oldStart, holdStart, oldFinish, holdFinish, newStart, hnewStart, newFinish, hnewFinish,
    created, hcreated, rfl⟩ := h
  have haffected : (Json.arr (c.affected.map Id.json)).Readable (n + 1) := by
    refine readable_arr.mpr fun v hv => ?_
    obtain ⟨i, -, rfl⟩ := List.mem_map.mp hv
    exact i.readable_json n
  refine Fields.readable_json ?_
  simp only [List.forall_mem_cons, Option.mem_def, Option.some.injEq, forall_eq', Id.readable_json,
    Named.readable_json, readable_str, Timestamp.readable_json? (n + 1) holdStart,
    Timestamp.readable_json? (n + 1) holdFinish, Timestamp.readable_json? (n + 1) hnewStart,
    Timestamp.readable_json? (n + 1) hnewFinish, Timestamp.readable_json? (n + 1) hcreated,
    haffected, true_and, List.not_mem_nil, false_implies, implies_true]

theorem Message.readable_json {m : Message} {n : Nat} (h : m.payload.json.Readable n) :
    m.fields.json.Readable (n + 1) := by
  refine Fields.readable_json ?_
  simp only [fields, List.forall_mem_cons, Option.mem_def, Option.some.injEq, forall_eq',
    Id.readable_json, readable_str, h, true_and, List.not_mem_nil, false_implies, implies_true]

/-! ### Snapshots -/

/-- Messages whose payloads are read back where they stand: in a message, in the list of messages, in
a snapshot. -/
def Outbox.Readable (outbox : Outbox) : Prop :=
  ∀ m ∈ outbox, m.payload.json.Readable (Node.depthLimit - 3)

/-- Written records make up a list. -/
theorem readable_records {α : Type} {xs : List α} {write : α → Option Fields} {written : List Fields}
    {n : Nat} (h : xs.mapM write = some written)
    (hread : ∀ a fields, write a = some fields → fields.json.Readable n) :
    (Json.arr (written.map Fields.json)).Readable (n + 1) := by
  refine readable_arr.mpr (List.forall_mem_map.mpr ?_)
  have hall := mapM_eq_some_iff.mp h
  clear h
  induction hall with
  | nil => simp
  | cons hwrite _ ih => exact List.forall_mem_cons.mpr ⟨hread _ _ hwrite, ih⟩

namespace Snapshot

variable {x : Snapshot} {v : Json}

theorem readable_json (h : x.json? = some v) (hpayloads : Outbox.Readable x.outbox) :
    v.Readable Node.depthLimit := by
  obtain ⟨tasks, dependencies, changes, htasks, hdependencies, hchanges, rfl⟩ :=
    json?_eq_some_iff.mp h
  have hmessages : (Json.arr ((x.outbox.map Message.fields).map Fields.json)).Readable 126 := by
    refine readable_arr.mpr fun v hv => ?_
    rw [List.map_map] at hv
    obtain ⟨m, hm, rfl⟩ := List.mem_map.mp hv
    exact Message.readable_json (hpayloads m hm)
  refine readable_obj.mpr ?_
  simp only [List.forall_mem_cons, List.not_mem_nil, false_implies, implies_true, and_true]
  exact ⟨readable_records htasks fun _ _ => Task.readable_json _,
    readable_records hdependencies fun _ _ => Dependency.readable_json _,
    readable_records hchanges fun _ _ => ScheduleChange.readable_json _, hmessages⟩

end Snapshot

/-- A snapshot is read back from its text. -/
theorem CommandLine.Format.read?_json {x : Snapshot} {text : String}
    (h : Format.json.write? x = some text) (hpayloads : Outbox.Readable x.outbox) :
    Format.json.read? text = some x := by
  obtain ⟨v, hv, rfl⟩ := Option.map_eq_some_iff.mp h
  change (Node.ofText? v.page).bind (Snapshot.ofNode? .json) = some x
  rw [Node.ofText?_page (Snapshot.readable_json hv hpayloads)]
  exact Snapshot.ofNode?_json hv

end Overhaul
