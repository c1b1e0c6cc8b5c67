import Mathlib.Data.List.Basic
import Mathlib.Data.Option.Basic
import Overhaul.Table

/-!
# Writing several rows

`Table.putAll` writes rows one after the other. Main statements: what is found afterwards is the
last row that was written under the key (`find?_putAll`), and two tables are equal when they have
the same keys in the same order and show the same row under each (`eq_of_find?`).
-/

namespace Overhaul

/-- Nothing is there after a row is written but that row and what was there before. -/
theorem mem_of_mem_upsert {α κ : Type} [DecidableEq κ] {key : α → κ} {row r : α} {rows : List α}
    (h : r ∈ upsert key row rows) : r = row ∨ r ∈ rows := by
  induction rows with
  | nil => exact .inl (List.mem_singleton.mp h)
  | cons x rest ih =>
      unfold upsert at h
      split at h
      · exact (List.mem_cons.mp h).imp_right (List.mem_cons_of_mem _)
      · rcases List.mem_cons.mp h with rfl | h
        · exact .inr List.mem_cons_self
        · exact (ih h).imp_right (List.mem_cons_of_mem _)

namespace Table

variable {α κ : Type} [DecidableEq κ] {key : α → κ}

/-- The table with rows written one after the other. -/
def putAll (t : Table key) (rows : List α) : Table key := rows.foldl put t

@[simp] theorem putAll_nil (t : Table key) : t.putAll [] = t := rfl

@[simp] theorem putAll_cons (t : Table key) (row : α) (rows : List α) :
    t.putAll (row :: rows) = (t.put row).putAll rows := rfl

theorem putAll_append (t : Table key) (rows more : List α) :
    t.putAll (rows ++ more) = (t.putAll rows).putAll more := List.foldl_append

/-- Under each key the last row counts that was written. -/
theorem find?_putAll (t : Table key) (rows : List α) (k : κ) :
    (t.putAll rows).find? k = (rows.reverse.find? fun r => key r = k).or (t.find? k) := by
  induction rows generalizing t with
  | nil => simp
  | cons row rows ih =>
      rw [putAll_cons, ih, find?_put, List.reverse_cons, List.find?_append]
      cases rows.reverse.find? fun r => key r = k with
      | some r => simp
      | none => by_cases h : key row = k <;> simp [h]

theorem find?_putAll_of_notMem {t : Table key} {rows : List α} {k : κ}
    (h : k ∉ rows.map key) : (t.putAll rows).find? k = t.find? k := by
  rw [find?_putAll, List.find?_eq_none.mpr, Option.none_or]
  intro r hr hk
  exact h (List.mem_map.mpr ⟨r, List.mem_reverse.mp hr, by simpa using hk⟩)

/-- A row is found after it was written, when no other row was written under its key. -/
theorem find?_putAll_of_mem {t : Table key} {rows : List α} {row : α}
    (hnodup : (rows.map key).Nodup) (h : row ∈ rows) :
    (t.putAll rows).find? (key row) = some row := by
  induction rows generalizing t with
  | nil => cases h
  | cons r rows ih =>
      rw [List.map_cons, List.nodup_cons] at hnodup
      rw [putAll_cons]
      rcases List.mem_cons.mp h with rfl | h
      · rw [find?_putAll_of_notMem hnodup.1, find?_put, if_pos rfl]
      · exact ih hnodup.2 h

/-- Writing over a row leaves the keys as they are. -/
theorem keys_put {t : Table key} {row : α} (h : (t.find? (key row)).isSome) :
    (t.put row).rows.map key = t.rows.map key := by
  have hmem : key row ∈ t.rows.map key := by
    by_contra hn
    rw [find?_eq_none_iff.mpr hn] at h
    cases h
  rw [put, map_upsert, if_pos hmem]

theorem isSome_find?_put {t : Table key} {row : α} {k : κ} (h : (t.find? k).isSome) :
    ((t.put row).find? k).isSome := by
  rw [find?_put]
  split
  · rfl
  · exact h

theorem isSome_find?_putAll {t : Table key} {rows : List α} {k : κ} (h : (t.find? k).isSome) :
    ((t.putAll rows).find? k).isSome := by
  induction rows generalizing t with
  | nil => exact h
  | cons row rows ih => exact ih (isSome_find?_put h)

theorem keys_putAll {t : Table key} {rows : List α}
    (h : ∀ r ∈ rows, (t.find? (key r)).isSome) :
    (t.putAll rows).rows.map key = t.rows.map key := by
  induction rows generalizing t with
  | nil => rfl
  | cons row rows ih =>
      rw [putAll_cons, ih, keys_put (h row List.mem_cons_self)]
      exact fun r hr => isSome_find?_put (h r (List.mem_cons_of_mem _ hr))

/-- Rows with the same distinct keys in the same order are the same when each key finds the same
row. -/
theorem eq_of_find? {t u : Table key} (hkeys : t.rows.map key = u.rows.map key)
    (h : ∀ k, t.find? k = u.find? k) : t = u := by
  have hrows : ∀ v : Table key, v.rows.map some = (v.rows.map key).map v.find? := by
    intro v
    rw [List.map_map]
    refine List.map_congr_left fun r hr => ?_
    exact (find?_eq_some_iff.mpr ⟨hr, rfl⟩).symm
  have hsome : t.rows.map some = u.rows.map some := by
    rw [hrows t, hrows u, hkeys, funext h]
  obtain ⟨rows, hnodup⟩ := t
  obtain ⟨rows', hnodup'⟩ := u
  cases List.map_injective_iff.mpr (Option.some_injective α) hsome
  rfl

end Table

end Overhaul
