/-!
# Tables

A table holds rows with distinct keys, in the order in which their keys came. `put` writes a row
over the one with its key, in its place, or else at the end. Main statements: `find?_put` and
`find?_erase` say what is found afterwards, and `mem_rows_put` what the table then holds.
-/

namespace Overhaul

/-- The rows with `row` in place of the first one with its key, or else at the end. -/
def upsert {α κ : Type} [DecidableEq κ] (key : α → κ) (row : α) : List α → List α
  | [] => [row]
  | r :: rest => if key r = key row then row :: rest else r :: upsert key row rest

/-- The keys stay as they are, or the new one comes last. -/
theorem map_upsert {α κ : Type} [DecidableEq κ] (key : α → κ) (row : α) (rows : List α) :
    (upsert key row rows).map key =
      if key row ∈ rows.map key then rows.map key else rows.map key ++ [key row] := by
  induction rows with
  | nil => simp [upsert]
  | cons r rest ih =>
    by_cases h : key r = key row
    · simp [upsert, h]
    · simp only [upsert, if_neg h, List.map_cons, ih, List.mem_cons, Ne.symm h, false_or]
      split <;> simp_all

/-- A key that is not there yet comes last. -/
theorem upsert_eq_append {α κ : Type} [DecidableEq κ] {key : α → κ} {row : α} {rows : List α}
    (h : key row ∉ rows.map key) : upsert key row rows = rows ++ [row] := by
  induction rows with
  | nil => rfl
  | cons r rest ih =>
    simp only [List.map_cons, List.mem_cons, not_or] at h
    simp [upsert, Ne.symm h.1, ih h.2]

/-- Rows with distinct keys. -/
structure Table {α κ : Type} (key : α → κ) where
  rows : List α
  nodup : (rows.map key).Nodup

namespace Table

variable {α κ : Type} [DecidableEq κ] {key : α → κ}

instance [DecidableEq α] : DecidableEq (Table key) := fun s t =>
  decidable_of_iff (s.rows = t.rows) (by cases s; cases t; simp)

/-- A table without rows. -/
def empty : Table key := ⟨[], List.nodup_nil⟩

/-- The row with a key. -/
def find? (t : Table key) (k : κ) : Option α := t.rows.find? fun r => key r = k

/-- The table with a row written over the one with its key, or else at the end. -/
def put (t : Table key) (row : α) : Table key where
  rows := upsert key row t.rows
  nodup := by
    rw [map_upsert]
    split
    · exact t.nodup
    · rename_i h
      exact List.nodup_append.2 ⟨t.nodup, by simp, by
        intro a ha b hb hab
        rw [List.mem_singleton] at hb
        exact h (hb ▸ hab ▸ ha)⟩

/-- The table without the row with a key. -/
def erase (t : Table key) (k : κ) : Table key where
  rows := t.rows.filter fun r => key r ≠ k
  nodup := (t.nodup.sublist (List.filter_sublist.map key))

theorem find?_eq_some_iff {t : Table key} {k : κ} {row : α} :
    t.find? k = some row ↔ row ∈ t.rows ∧ key row = k := by
  constructor
  · intro h
    exact ⟨List.mem_of_find?_eq_some h, by simpa using List.find?_some h⟩
  · rintro ⟨hmem, rfl⟩
    obtain ⟨rows, hnodup⟩ := t
    simp only [find?]
    induction rows with
    | nil => simp at hmem
    | cons r rest ih =>
      rw [List.map_cons, List.nodup_cons] at hnodup
      rcases List.mem_cons.1 hmem with rfl | hmem
      · simp
      · have hne : key r ≠ key row := fun h => hnodup.1 (h ▸ List.mem_map_of_mem hmem)
        rw [List.find?_cons, show decide (key r = key row) = false by simpa using hne]
        exact ih hnodup.2 hmem

theorem find?_eq_none_iff {t : Table key} {k : κ} : t.find? k = none ↔ k ∉ t.rows.map key := by
  simp [find?]

/-- After a row is written it is found under its key, and every other key as before. -/
theorem find?_put {t : Table key} {row : α} {k : κ} :
    (t.put row).find? k = if key row = k then some row else t.find? k := by
  obtain ⟨rows, hnodup⟩ := t
  simp only [find?, put]
  induction rows with
  | nil =>
    simp only [upsert, List.find?_cons, List.find?_nil]
    by_cases h : key row = k <;> simp [h]
  | cons r rest ih =>
    rw [List.map_cons, List.nodup_cons] at hnodup
    by_cases h : key r = key row
    · simp only [upsert, List.find?_cons, h]
      by_cases hk : key row = k <;> simp [hk]
    · simp only [upsert, if_neg h, List.find?_cons, ih hnodup.2]
      by_cases hk : key r = k
      · have hne : key row ≠ k := fun e => h (hk.trans e.symm)
        simp [hk, hne]
      · simp [hk]

/-- After a key is erased it is not found, and every other key as before. -/
theorem find?_erase {t : Table key} {j k : κ} :
    (t.erase j).find? k = if j = k then none else t.find? k := by
  simp only [find?, erase]
  induction t.rows with
  | nil => simp
  | cons r rest ih =>
    by_cases hj : key r = j
    · rw [List.filter_cons_of_neg (by simp [hj]), ih]
      by_cases hk : j = k
      · simp [hk]
      · simp [hk, hj]
    · rw [List.filter_cons_of_pos (by simp [hj]), List.find?_cons, List.find?_cons, ih]
      by_cases hk : key r = k
      · have : j ≠ k := fun e => hj (hk.trans e.symm)
        simp [hk, this]
      · simp [hk]

/-- A table holds the written row and the rows with other keys. -/
theorem mem_rows_put {t : Table key} {row r : α} :
    r ∈ (t.put row).rows ↔ r = row ∨ (r ∈ t.rows ∧ key r ≠ key row) := by
  have h := @find?_put _ _ _ key t row (key r)
  rw [show (r ∈ (t.put row).rows) ↔ (t.put row).find? (key r) = some r by
    simp [find?_eq_some_iff], h]
  by_cases hk : key row = key r
  · simp [hk, eq_comm]
  · simp [hk, find?_eq_some_iff, Ne.symm hk]
    intro e
    exact absurd (congrArg key e).symm hk

@[simp] theorem mem_rows_erase {t : Table key} {k : κ} {r : α} :
    r ∈ (t.erase k).rows ↔ r ∈ t.rows ∧ key r ≠ k := by
  simp [erase]

/-- A row with a new key comes last. -/
theorem rows_put_of_find?_eq_none {t : Table key} {row : α} (h : t.find? (key row) = none) :
    (t.put row).rows = t.rows ++ [row] :=
  upsert_eq_append (find?_eq_none_iff.1 h)

end Table

end Overhaul
