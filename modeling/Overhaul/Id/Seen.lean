import Overhaul.Id

/-!
# Sets of identifiers already met

A walk over records remembers the identifiers that it has met in a list without repetitions. As an
identifier is one of finitely many, such a list has only so much `room` left, and meeting a new
identifier takes some of it: this is what bounds a walk, whatever the records answer. Main
statement: `room_insert_lt`.
-/

namespace Overhaul

/-- A duplicate-free list of numbers below `n` has at most `n` members. -/
theorem length_le_of_nodup_of_lt (n : Nat) (xs : List Nat) (hnodup : xs.Nodup)
    (hlt : ∀ x ∈ xs, x < n) : xs.length ≤ n := by
  induction n generalizing xs with
  | zero =>
    cases xs with
    | nil => simp
    | cons x xs => exact absurd (hlt x List.mem_cons_self) (Nat.not_lt_zero x)
  | succ n ih =>
    have hrest := ih (xs.erase n) (hnodup.erase n) (fun x hx => by
      have hmem := hlt x (List.mem_of_mem_erase hx)
      have hne : x ≠ n := fun h => by
        subst h; exact absurd hx hnodup.not_mem_erase
      omega)
    have hlen : xs.length ≤ (xs.erase n).length + 1 := by
      by_cases h : n ∈ xs
      · have := List.length_erase_of_mem h; omega
      · rw [List.erase_of_not_mem h]; omega
    omega

/-- Identifiers of one kind, each listed once. -/
structure Seen (kind : IdKind) where
  ids : List (Id kind)
  nodup : ids.Nodup

namespace Seen

variable {kind : IdKind}

/-- Nothing met yet. -/
def empty : Seen kind := ⟨[], List.nodup_nil⟩

/-- Only one identifier met. -/
def only (i : Id kind) : Seen kind := ⟨[i], by simp⟩

instance : Membership (Id kind) (Seen kind) := ⟨fun s i => i ∈ s.ids⟩

instance (i : Id kind) (s : Seen kind) : Decidable (i ∈ s) :=
  inferInstanceAs (Decidable (i ∈ s.ids))

/-- The set with one more identifier, which was not in it. -/
def insert (s : Seen kind) (i : Id kind) (h : i ∉ s) : Seen kind :=
  ⟨i :: s.ids, List.nodup_cons.2 ⟨h, s.nodup⟩⟩

/-- How many identifiers can still be met. -/
def room (s : Seen kind) : Nat := Id.count - s.ids.length

@[simp] theorem mem_insert {s : Seen kind} {i j : Id kind} {h : i ∉ s} :
    j ∈ s.insert i h ↔ j = i ∨ j ∈ s := List.mem_cons

@[simp] theorem mem_only {i j : Id kind} : j ∈ only i ↔ j = i := List.mem_singleton

@[simp] theorem not_mem_empty {i : Id kind} : i ∉ (empty : Seen kind) := List.not_mem_nil

theorem length_le (s : Seen kind) : s.ids.length ≤ Id.count := by
  have hnodup : (s.ids.map Id.toNat).Nodup :=
    List.Pairwise.map _ (fun _ _ hne h => hne (Id.toNat_inj h)) s.nodup
  have := length_le_of_nodup_of_lt Id.count (s.ids.map Id.toNat) hnodup (by
    intro x hx
    obtain ⟨i, _, rfl⟩ := List.mem_map.1 hx
    exact i.toNat_lt)
  simpa using this

theorem room_insert_lt (s : Seen kind) (i : Id kind) (h : i ∉ s) :
    (s.insert i h).room < s.room := by
  have := (s.insert i h).length_le
  simp only [room, insert, List.length_cons] at *
  omega

end Seen

end Overhaul
