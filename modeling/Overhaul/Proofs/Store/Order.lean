import Mathlib.Data.List.Nodup
import Mathlib.Data.Prod.Lex
import Mathlib.Order.Lattice
import Overhaul.Proofs.Table
import Overhaul.Store.Snapshot

/-!
# The order of listings

Tasks are listed by their starts and dependencies by the times at which they were made, and those of
one time by their identifiers. `Task.rank` and `Dependency.rank` are what is compared. No two rows
of a table have one rank, so a listing of its rows does not depend on the order in which they came.
Main statements: `sortedBy_mergeSort` and `mergeSort_eq_of_perm`.
-/

namespace Overhaul

/-- The place of a task in listings: by start, then by identifier. -/
def Task.rank (t : Task) : ℤ ×ₗ ℕ := toLex (t.start.unixNanos, t.id.toNat)

/-- The place of a dependency in snapshots: by the time of making, then by identifier. -/
def Dependency.rank (d : Dependency) : ℤ ×ₗ ℕ := toLex (d.created.unixNanos, d.id.toNat)

theorem Task.precedes_iff (a b : Task) : a.precedes b = true ↔ a.rank ≤ b.rank := by
  simp [precedes, rank, Prod.Lex.toLex_le_toLex]

theorem Dependency.precedes_iff (a b : Dependency) : a.precedes b = true ↔ a.rank ≤ b.rank := by
  simp [precedes, rank, Prod.Lex.toLex_le_toLex]

theorem Task.id_eq_of_rank {a b : Task} (h : a.rank = b.rank) : a.id = b.id :=
  Id.toNat_inj (Prod.mk.inj (toLex_inj.mp h)).2

theorem Dependency.id_eq_of_rank {a b : Dependency} (h : a.rank = b.rank) : a.id = b.id :=
  Id.toNat_inj (Prod.mk.inj (toLex_inj.mp h)).2

/-! ### Sorting by rank -/

/-- The one list has the rows of the other one in order of rank, no two of them of one rank. -/
structure SortedBy {α ρ : Type} [LT ρ] (rank : α → ρ) (rows' rows : List α) : Prop where
  perm : rows'.Perm rows
  ascend : rows'.Pairwise fun a b => rank a < rank b

section

variable {α κ ρ : Type} [LinearOrder ρ] {key : α → κ} {rank : α → ρ} {le : α → α → Bool}
  {rows rows₁ rows₂ : List α}

theorem SortedBy.filter (h : SortedBy rank rows₁ rows) (p : α → Bool) :
    SortedBy rank (rows₁.filter p) (rows.filter p) :=
  ⟨h.perm.filter p, h.ascend.filter p⟩

/-- There is only one way to sort rows. -/
theorem SortedBy.eq (h₁ : SortedBy rank rows₁ rows) (h₂ : SortedBy rank rows₂ rows) :
    rows₁ = rows₂ :=
  List.Perm.eq_of_pairwise (fun _ _ _ _ hab hba => absurd hba hab.asymm) h₁.ascend h₂.ascend
    (h₁.perm.trans h₂.perm.symm)

/-- Sorting by rank leaves no row behind one of higher rank. -/
theorem pairwise_mergeSort (hle : ∀ a b, le a b = true ↔ rank a ≤ rank b) (rows : List α) :
    (rows.mergeSort le).Pairwise fun a b => rank a ≤ rank b := by
  have htrans : ∀ a b c, le a b = true → le b c = true → le a c = true := by
    intro a b c hab hbc
    exact (hle a c).mpr (((hle a b).mp hab).trans ((hle b c).mp hbc))
  have htotal : ∀ a b, (le a b || le b a) = true := by
    intro a b
    rw [Bool.or_eq_true, hle, hle]
    exact le_total (rank a) (rank b)
  exact (List.pairwise_mergeSort htrans htotal rows).imp fun h => (hle _ _).mp h

/-- Rows with distinct keys are sorted when rows of one rank have the same key. -/
theorem sortedBy_mergeSort (hle : ∀ a b, le a b = true ↔ rank a ≤ rank b)
    (hkey : ∀ {a b}, rank a = rank b → key a = key b) (hnodup : (rows.map key).Nodup) :
    SortedBy rank (rows.mergeSort le) rows := by
  have hdistinct : (rows.mergeSort le).Pairwise fun a b => key a ≠ key b :=
    List.pairwise_map.mp (((List.mergeSort_perm rows le).map key).nodup_iff.mpr hnodup)
  refine ⟨List.mergeSort_perm rows le, ((pairwise_mergeSort hle rows).and hdistinct).imp ?_⟩
  rintro a b ⟨hab, hne⟩
  exact lt_of_le_of_ne hab fun h => hne (hkey h)

/-- The order in which rows with distinct keys came makes no difference to how they are sorted. -/
theorem mergeSort_eq_of_perm (hle : ∀ a b, le a b = true ↔ rank a ≤ rank b)
    (hkey : ∀ {a b}, rank a = rank b → key a = key b) (h : rows₁.Perm rows₂)
    (hnodup : (rows₁.map key).Nodup) : rows₁.mergeSort le = rows₂.mergeSort le := by
  have hsorted := sortedBy_mergeSort hle hkey ((h.map key).nodup_iff.mp hnodup)
  exact (sortedBy_mergeSort hle hkey hnodup).eq ⟨hsorted.perm.trans h.symm, hsorted.ascend⟩

end

/-- Lists with the same members are alike up to order, when both have distinct keys. -/
theorem perm_of_nodup_map {α κ : Type} {key : α → κ} {rows rows' : List α}
    (hrows : (rows.map key).Nodup) (hrows' : (rows'.map key).Nodup)
    (h : ∀ r, r ∈ rows ↔ r ∈ rows') : rows.Perm rows' :=
  (List.perm_ext_iff_of_nodup hrows.of_map hrows'.of_map).mpr h

/-- Tables in which the same is found under every key have the same rows, up to order. -/
theorem Table.perm_of_find? {α κ : Type} [DecidableEq κ] {key : α → κ} {t u : Table key}
    (h : ∀ k, t.find? k = u.find? k) : t.rows.Perm u.rows := by
  refine perm_of_nodup_map t.nodup u.nodup fun r => ?_
  have hmem : ∀ v : Table key, r ∈ v.rows ↔ v.find? (key r) = some r := by simp [find?_eq_some_iff]
  rw [hmem, hmem, h]

/-- What is found does not depend on the order of the rows. -/
theorem Table.find?_eq_of_perm {α κ : Type} [DecidableEq κ] {key : α → κ} {t u : Table key}
    (h : t.rows.Perm u.rows) (k : κ) : t.find? k = u.find? k := by
  ext r
  rw [find?_eq_some_iff, find?_eq_some_iff, h.mem_iff]

end Overhaul
