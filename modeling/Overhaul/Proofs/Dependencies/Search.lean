import Mathlib.Logic.Relation
import Overhaul.Proofs.Store.Index
import Overhaul.Service.Dependencies

/-!
# Searching the dependencies

`Store.Waits` is the graph of one tenant's dependencies, and `Store.WaitsIn` the one that a scope
shows. Before a dependency is made the service walks its tenant's graph from the prerequisite, and
looks for the task that is to wait. Main statements: when a walk comes back without its target, the
target cannot be reached (`not_reaches`), and otherwise it can (`exists_path_of_reaches`); so its
answer is whether a path leads there (`reaches_iff`).
-/

namespace Overhaul

open Relation

/-- By a dependency of the tenant the first task waits for the second. -/
def Store.Waits (s : Store) (tenant : TenantId) (a b : TaskId) : Prop :=
  ∃ d ∈ s.dependencies.rows, d.tenant = tenant ∧ d.task = a ∧ d.prerequisite = b

/-- By a dependency in the scope the first task waits for the second. Where every tenant is in the
scope, what a task waits for is looked up with its owner: a dependency that names another tenant
does not count for it. -/
def Store.WaitsIn (s : Store) : Scope → TaskId → TaskId → Prop
  | .only tenant, a, b => s.Waits tenant a b
  | .all, a, b => ∃ t, s.tasks.find? a = some t ∧ s.Waits t.tenant a b

/-- What a task waits for in a scope is what is listed for it there. -/
theorem Store.Indexed.waitsIn_iff {s : Store} (h : s.Indexed) {scope : Scope} {a b : TaskId} :
    s.WaitsIn scope a b ↔ ∃ d ∈ s.dependenciesOf scope a, d.prerequisite = b := by
  have honly : ∀ tenant, s.Waits tenant a b ↔
      ∃ d ∈ s.dependenciesOf (.only tenant) a, d.prerequisite = b := fun tenant => by
    simp only [Waits, h.mem_dependenciesOf, and_assoc]
  cases scope with
  | only tenant => exact honly tenant
  | all =>
      have hlisted := listed_all (fun d : Dependency => (rfl : d.waitingPlace.1 = d.tenant))
        h.prerequisites a
      simp only [WaitsIn, dependenciesOf, hlisted]
      cases s.tasks.find? a with
      | none => simp
      | some t => simpa [dependenciesOf] using honly t.tenant

/-- One new edge closes no circle unless its end already leads back to its beginning. -/
theorem acyclic_insert {α : Type} {r r' : α → α → Prop} {a b : α}
    (hr' : ∀ x y, r' x y → r x y ∨ x = a ∧ y = b) (hr : ∀ x, ¬TransGen r x x)
    (hba : ¬ReflTransGen r b a) (x : α) : ¬TransGen r' x x := by
  have hpath : ∀ y, TransGen r' x y →
      TransGen r x y ∨ ReflTransGen r x a ∧ ReflTransGen r b y := by
    intro y h
    induction h with
    | single h =>
        rcases hr' _ _ h with h | ⟨rfl, rfl⟩
        · exact .inl (.single h)
        · exact .inr ⟨.refl, .refl⟩
    | tail _ h ih =>
        rcases hr' _ _ h with h | ⟨rfl, rfl⟩
        · rcases ih with ih | ⟨hxa, hby⟩
          · exact .inl (ih.tail h)
          · exact .inr ⟨hxa, hby.tail h⟩
        · rcases ih with ih | ⟨hxa, _⟩
          · exact .inr ⟨ih.to_reflTransGen, .refl⟩
          · exact .inr ⟨hxa, .refl⟩
  intro h
  rcases hpath x h with h | ⟨hxa, hbx⟩
  · exact hr x h
  · exact hba (hbx.trans hxa)

namespace Service

variable {sound : CallKind → Prop} {s s' : Store} {log : List Exchange}

theorem only_reaches {P : Step → Prop} {scope : Scope}
    (h : ∀ task, P (.call (.dependenciesOf scope task))) (target : TaskId) (seen : Seen .task)
    (stack : List TaskId) : Only P (reaches scope target seen stack) := by
  induction seen, stack using reaches.induct scope target with
  | case1 seen => rw [reaches]; exact only_pure _
  | case2 seen stack => rw [reaches, if_pos rfl]; exact only_pure _
  | case3 seen task stack hne hseen ih => rw [reaches, if_neg hne, dif_pos hseen]; exact ih
  | case4 seen task stack hne hseen ih =>
      rw [reaches, if_neg hne, dif_neg hseen]
      exact only_bind (only_ask (h task)) ih

/-- A walk that comes back without the target has closed the tasks on its stack, and those that it
had met before, under waiting; so none of them leads to the target. The tasks already met may lead
to each other and to the stack only, which is what every step of the walk keeps. -/
theorem not_reaches (hindexed : s.Indexed) {scope : Scope} {target : TaskId}
    {seen : Seen .task} {stack : List TaskId}
    (h : Course sound (reaches scope target seen stack) s log (.ok false) s')
    (hclosed : ∀ x ∈ seen, ∀ y, s.WaitsIn scope x y → y ∈ seen ∨ y ∈ stack)
    (htarget : target ∉ seen) :
    ∀ x, x ∈ seen ∨ x ∈ stack → ¬ReflTransGen (s.WaitsIn scope) x target := by
  induction seen, stack using reaches.induct scope target generalizing log with
  | case1 seen =>
      intro x hx hpath
      have hmem : ∀ y, ReflTransGen (s.WaitsIn scope) x y → y ∈ seen := by
        intro y hy
        induction hy with
        | refl => exact hx.resolve_right List.not_mem_nil
        | tail _ hstep ih => exact (hclosed _ ih _ hstep).resolve_right List.not_mem_nil
      exact htarget (hmem target hpath)
  | case2 seen stack =>
      rw [reaches, if_pos rfl] at h
      obtain ⟨_, hr, _⟩ := course_pure h
      cases hr
  | case3 seen task stack hne hseen ih =>
      rw [reaches, if_neg hne, dif_pos hseen] at h
      have hstack : ∀ y, y ∈ seen ∨ y ∈ task :: stack → y ∈ seen ∨ y ∈ stack := by
        intro y hy
        rcases hy with hy | hy
        · exact .inl hy
        · rcases List.mem_cons.mp hy with rfl | hy
          · exact .inl hseen
          · exact .inr hy
      intro x hx
      exact ih h (fun x hx y hy => hstack y (hclosed x hx y hy)) htarget x (hstack x hx)
  | case4 seen task stack hne hseen ih =>
      rw [reaches, if_neg hne, dif_neg hseen] at h
      obtain ⟨found, log₁, log₂, s₁, hask, hrest, rfl⟩ := course_bind_ok h
      obtain ⟨rfl, hx⟩ := course_ask_ok hask
      obtain ⟨rfl, rfl⟩ := Exchange.carries_dependenciesOf hx
      have htarget' : target ∉ seen.insert task hseen := by
        simp only [Seen.mem_insert, not_or]
        exact ⟨fun h => hne h.symm, htarget⟩
      intro x hx
      refine ih _ hrest ?_ htarget' x ?_
      · intro x hx y hxy
        by_cases hy : y ∈ seen.insert task hseen
        · exact .inl hy
        · right
          rw [List.mem_append, List.mem_reverse]
          rcases Seen.mem_insert.mp hx with rfl | hx
          · left
            obtain ⟨d, hd, rfl⟩ := hindexed.waitsIn_iff.mp hxy
            rw [List.mem_filter]
            exact ⟨List.mem_map.mpr ⟨d, hd, rfl⟩, by simpa using hy⟩
          · right
            rcases hclosed x hx y hxy with hseen' | hstack
            · exact absurd (Seen.mem_insert.mpr (.inr hseen')) hy
            · rcases List.mem_cons.mp hstack with rfl | hstack
              · exact absurd (Seen.mem_insert.mpr (.inl rfl)) hy
              · exact hstack
      · rcases hx with hx | hx
        · exact .inl (Seen.mem_insert.mpr (.inr hx))
        · rcases List.mem_cons.mp hx with rfl | hx
          · exact .inl (Seen.mem_insert.mpr (.inl rfl))
          · exact .inr (List.mem_append_right _ hx)

/-- A walk that finds the target has come to it from one of the tasks on its stack. -/
theorem exists_path_of_reaches (hindexed : s.Indexed) {scope : Scope} {target : TaskId}
    {seen : Seen .task} {stack : List TaskId}
    (h : Course sound (reaches scope target seen stack) s log (.ok true) s') :
    ∃ x ∈ stack, ReflTransGen (s.WaitsIn scope) x target := by
  induction seen, stack using reaches.induct scope target generalizing log with
  | case1 seen =>
      rw [reaches] at h
      obtain ⟨_, hr, _⟩ := course_pure h
      cases hr
  | case2 seen stack => exact ⟨target, List.mem_cons_self, .refl⟩
  | case3 seen task stack hne hseen ih =>
      rw [reaches, if_neg hne, dif_pos hseen] at h
      obtain ⟨x, hx, hpath⟩ := ih h
      exact ⟨x, List.mem_cons_of_mem _ hx, hpath⟩
  | case4 seen task stack hne hseen ih =>
      rw [reaches, if_neg hne, dif_neg hseen] at h
      obtain ⟨found, log₁, log₂, s₁, hask, hrest, rfl⟩ := course_bind_ok h
      obtain ⟨rfl, hx⟩ := course_ask_ok hask
      obtain ⟨rfl, rfl⟩ := Exchange.carries_dependenciesOf hx
      obtain ⟨x, hx, hpath⟩ := ih _ hrest
      rcases List.mem_append.mp hx with hnew | hold
      · obtain ⟨hmem, -⟩ := List.mem_filter.mp (List.mem_reverse.mp hnew)
        obtain ⟨d, hd, rfl⟩ := List.mem_map.mp hmem
        exact ⟨task, List.mem_cons_self, .head (hindexed.waitsIn_iff.mpr ⟨d, hd, rfl⟩) hpath⟩
      · exact ⟨x, List.mem_cons_of_mem _ hold, hpath⟩

/-- A walk from one task comes back with the answer whether a path leads from it to the target. -/
theorem reaches_iff (hindexed : s.Indexed) {scope : Scope} {target source : TaskId} {b : Bool}
    (h : Course sound (reaches scope target .empty [source]) s log (.ok b) s') :
    b = true ↔ ReflTransGen (s.WaitsIn scope) source target := by
  cases b with
  | true =>
      obtain ⟨x, hx, hpath⟩ := exists_path_of_reaches hindexed h
      rw [List.mem_singleton] at hx
      exact ⟨fun _ => hx ▸ hpath, fun _ => rfl⟩
  | false =>
      have hnone := not_reaches hindexed h (by simp) (by simp) source (.inr (by simp))
      exact ⟨fun hb => absurd hb (by simp), fun hpath => absurd hpath hnone⟩

end Service

end Overhaul
