import Overhaul.Proofs.Store.Alike

/-!
# Stores that survive being saved

What is saved is sorted, and the indexes are not saved at all. A store loses nothing by that when its
dependencies came in the order in which they are sorted, which is the case as long as each of them is
made later than those before it. Main statement: such a store cannot be told apart from the one that is
loaded from what it saves (`Store.Durable.alike_of_ofSnapshot`).
-/

namespace Overhaul

theorem Table.eq_of_rows {α κ : Type} {key : α → κ} {t u : Table key} (h : t.rows = u.rows) :
    t = u := by
  cases t
  cases u
  congr

namespace Store

variable {r s : Store}

/-- The dependencies are indexed, have both of their ends, and came in the order in which they are
saved. -/
structure Durable (s : Store) : Prop where
  indexed : s.Indexed
  ends : ∀ d ∈ s.dependencies.rows, s.HasEnds d
  ascend : s.dependencies.rows.Pairwise fun a b => a.rank < b.rank

/-- A store that is loaded from what another one saves is durable. -/
theorem durable_of_ofSnapshot (h : ofSnapshot s.snapshot = .ok r) : r.Durable := by
  have hloads := loads_ofSnapshot h
  have hsound := exists_ofSnapshot_iff.mp ⟨r, h⟩
  refine ⟨indexed_ofSnapshot h, fun d hd => ?_, ?_⟩
  · rw [hloads.dependencies] at hd
    obtain ⟨htask, hprerequisite⟩ := hsound.ends d hd
    rw [← hloads.tasks] at htask hprerequisite
    exact ⟨Table.isSome_find?_iff.mpr htask, Table.isSome_find?_iff.mpr hprerequisite⟩
  · rw [hloads.dependencies]
    exact s.sortedBy_dependencies.ascend

namespace Durable

theorem exists_ofSnapshot (h : s.Durable) : ∃ r, ofSnapshot s.snapshot = .ok r :=
  exists_ofSnapshot_iff.mpr (sound_snapshot h.ends)

/-- What a durable store saves is loaded as a store that cannot be told apart from it. -/
theorem alike_of_ofSnapshot (h : s.Durable) (hr : ofSnapshot s.snapshot = .ok r) : r.Alike s := by
  have hloads := loads_ofSnapshot hr
  have hdependencies : r.dependencies = s.dependencies := by
    refine Table.eq_of_rows (hloads.dependencies.trans ?_)
    exact s.sortedBy_dependencies.eq ⟨.refl _, h.ascend⟩
  have hindexed := indexed_ofSnapshot hr
  refine ⟨Table.find?_eq_of_perm (perm_of_ofSnapshot hr).1, hdependencies, fun p => ?_, fun p => ?_,
    Table.eq_of_rows hloads.changes, hloads.outbox⟩
  · rw [hindexed.prerequisites, h.indexed.prerequisites, hdependencies]
  · rw [hindexed.dependents, h.indexed.dependents, hdependencies]

/-! ### What keeps a store durable -/

/-- Tasks may be written over, and whatever else does not concern the dependencies may change. -/
theorem of_eq (h : r.Durable) (hd : s.dependencies = r.dependencies)
    (hp : s.prerequisites = r.prerequisites) (ha : s.dependents = r.dependents)
    (htasks : ∀ id, (r.tasks.find? id).isSome = true → (s.tasks.find? id).isSome = true) :
    s.Durable := by
  refine ⟨h.indexed.of_eq hd hp ha, fun d hmem => ?_, ?_⟩
  · rw [hd] at hmem
    obtain ⟨htask, hprerequisite⟩ := h.ends d hmem
    exact ⟨htasks _ htask, htasks _ hprerequisite⟩
  · rw [hd]
    exact h.ascend

/-- A dependency may be added when it is made later than all others. -/
theorem addDependency (h : s.Durable) {d : Dependency} (hadd : s.addDependency d = .ok r)
    (hlater : ∀ e ∈ s.dependencies.rows, e.created.unixNanos < d.created.unixNanos) :
    r.Durable := by
  have hindexed := h.indexed.addDependency hadd
  obtain ⟨hnew, htask, hprerequisite, rfl⟩ := addDependency_eq_ok_iff.mp hadd
  have hrows : (s.link d).dependencies.rows = s.dependencies.rows ++ [d] :=
    Table.rows_put_of_find?_eq_none hnew
  refine ⟨hindexed, ?_, ?_⟩
  · rw [hrows, List.forall_mem_append, List.forall_mem_singleton]
    exact ⟨h.ends, htask, hprerequisite⟩
  · rw [hrows]
    refine List.pairwise_append.mpr ⟨h.ascend, List.pairwise_singleton _ _, fun e he f hf => ?_⟩
    rw [List.mem_singleton.mp hf]
    exact Prod.Lex.toLex_lt_toLex.mpr (.inl (hlater e he))

/-- Dependencies may be removed. -/
theorem removeDependency (h : s.Durable) {scope : Scope} {id : DependencyId}
    (hremove : s.removeDependency scope id = some r) : r.Durable := by
  have hindexed := h.indexed.removeDependency hremove
  obtain ⟨d, -, rfl⟩ := removeDependency_eq_some_iff.mp hremove
  exact ⟨hindexed, fun e he => h.ends e (Table.mem_rows_erase.mp he).1,
    h.ascend.sublist List.filter_sublist⟩

end Durable

end Store

end Overhaul
