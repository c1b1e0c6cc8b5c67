import Overhaul.Id
import Overhaul.Table

/-!
# Links

An index that lists the dependencies at each task of each tenant in the order in which they were
made, so that they are found without looking through all dependencies. A list that has become empty
leaves the index. Main statements: `idsAt_add` and `idsAt_remove`.
-/

namespace Overhaul

/-- A task as one tenant's dependencies refer to it. -/
abbrev Place := TenantId × TaskId

/-- The dependencies at one place. -/
structure Link where
  place : Place
  dependencies : List DependencyId
  deriving DecidableEq, Repr

/-- The dependencies at every place that has any. -/
abbrev Links := Table Link.place

namespace Links

/-- The dependencies at a place. -/
def idsAt (links : Links) (p : Place) : List DependencyId :=
  match links.find? p with
  | some link => link.dependencies
  | none => []

/-- The index with one more dependency at a place, behind those already there. -/
def add (links : Links) (p : Place) (d : DependencyId) : Links :=
  links.put ⟨p, links.idsAt p ++ [d]⟩

/-- The index without a dependency at a place. -/
def remove (links : Links) (p : Place) (d : DependencyId) : Links :=
  let left := (links.idsAt p).filter (· ≠ d)
  if left = [] then links.erase p else links.put ⟨p, left⟩

theorem idsAt_add {links : Links} {p q : Place} {d : DependencyId} :
    (links.add p d).idsAt q = if p = q then links.idsAt p ++ [d] else links.idsAt q := by
  simp only [idsAt, add, Table.find?_put]
  by_cases h : p = q <;> simp [h]

theorem idsAt_remove {links : Links} {p q : Place} {d : DependencyId} :
    (links.remove p d).idsAt q =
      if p = q then (links.idsAt p).filter (· ≠ d) else links.idsAt q := by
  unfold remove
  dsimp only
  split
  · rename_i hempty
    simp only [idsAt, Table.find?_erase]
    by_cases h : p = q
    · simp only [if_pos h]; simpa [idsAt] using hempty.symm
    · simp [h]
  · conv => lhs; simp only [idsAt, Table.find?_put]
    by_cases h : p = q <;> simp [h, idsAt]

end Links

end Overhaul
