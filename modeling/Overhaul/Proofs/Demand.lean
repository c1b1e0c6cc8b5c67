import Overhaul.Error

/-!
# What is demanded, in order

Before something is done it has to pass a number of tests, one after the other, and the first one
that it does not pass is the reason why it is refused. A list of demands says so without the tests.
Main statements: either all demands are met or one of them is the first that is not
(`met_or_refuses`), and what is decided by demands is decided in no other way
(`Decides.eq_refuse_iff`).
-/

namespace Overhaul

/-- Something that has to hold, and the reason for a refusal when it does not. -/
structure Demand where
  holds : Prop
  reason : Failure

namespace Demand

/-- All demands are met. -/
def Met (demands : List Demand) : Prop := ∀ d ∈ demands, d.holds

/-- The first of the demands that is not met gives this reason. -/
inductive Refuses : List Demand → Failure → Prop
  | first {d : Demand} {rest : List Demand} : ¬d.holds → Refuses (d :: rest) d.reason
  | later {d : Demand} {rest : List Demand} {f : Failure} :
      d.holds → Refuses rest f → Refuses (d :: rest) f

variable {d : Demand} {rest demands : List Demand} {f g : Failure}

theorem met_cons : Met (d :: rest) ↔ d.holds ∧ Met rest := List.forall_mem_cons

/-- Nothing is refused when all demands are met. -/
theorem Refuses.not_met (h : Refuses demands f) : ¬Met demands := by
  induction h with
  | first hd => exact fun hmet => hd (met_cons.mp hmet).1
  | later _ _ ih => exact fun hmet => ih (met_cons.mp hmet).2

/-- There is one reason at most. -/
theorem Refuses.unique (hf : Refuses demands f) (hg : Refuses demands g) : f = g := by
  induction hf with
  | first hd =>
      cases hg with
      | first _ => rfl
      | later hd' _ => exact absurd hd' hd
  | later hd _ ih =>
      cases hg with
      | first hd' => exact absurd hd hd'
      | later _ hg => exact ih hg

/-- The reason is that of a demand which is not met. -/
theorem Refuses.exists_unmet (h : Refuses demands f) : ∃ d ∈ demands, ¬d.holds ∧ d.reason = f := by
  induction h with
  | first hd => exact ⟨_, List.mem_cons_self, hd, rfl⟩
  | later _ _ ih =>
      obtain ⟨e, he, h⟩ := ih
      exact ⟨e, List.mem_cons_of_mem _ he, h⟩

theorem met_or_refuses (demands : List Demand) : Met demands ∨ ∃ f, Refuses demands f := by
  induction demands with
  | nil => exact .inl (by simp [Met])
  | cons d rest ih =>
      by_cases hd : d.holds
      · rcases ih with hrest | ⟨f, hf⟩
        · exact .inl (met_cons.mpr ⟨hd, hrest⟩)
        · exact .inr ⟨f, .later hd hf⟩
      · exact .inr ⟨d.reason, .first hd⟩

/-! ### What demands decide -/

/-- The outcome is a refusal for the first demand that is not met, or else it is acceptable. -/
structure Decides {ρ : Type} (demands : List Demand) (refuse : Failure → ρ) (accept : ρ → Prop)
    (outcome : ρ) : Prop where
  refused : ∀ f, Refuses demands f → outcome = refuse f
  accepted : Met demands → accept outcome

section

variable {ρ : Type} {refuse : Failure → ρ} {accept : ρ → Prop} {outcome : ρ}

theorem decides_nil (h : accept outcome) : Decides [] refuse accept outcome :=
  ⟨fun _ hf => (by cases hf), fun _ => h⟩

/-- The first demand is looked at first. -/
theorem decides_cons (hunmet : ¬d.holds → outcome = refuse d.reason)
    (hmet : d.holds → Decides rest refuse accept outcome) :
    Decides (d :: rest) refuse accept outcome := by
  constructor
  · intro f hf
    cases hf with
    | first hd => exact hunmet hd
    | later hd hf => exact (hmet hd).refused f hf
  · intro h
    obtain ⟨hd, hrest⟩ := met_cons.mp h
    exact (hmet hd).accepted hrest

/-- A refusal that is not acceptable is for the first demand that is not met. -/
theorem Decides.eq_refuse_iff (h : Decides demands refuse accept outcome)
    (hinj : ∀ f g, refuse f = refuse g → f = g) (hf : ¬accept (refuse f)) :
    outcome = refuse f ↔ Refuses demands f := by
  constructor
  · rintro rfl
    rcases met_or_refuses demands with hmet | ⟨g, hg⟩
    · exact absurd (h.accepted hmet) hf
    · rw [hinj _ _ (h.refused g hg)]
      exact hg
  · exact h.refused f

/-- What is acceptable and no refusal comes when all demands are met. -/
theorem Decides.met (h : Decides demands refuse accept outcome) (hne : ∀ f, outcome ≠ refuse f) :
    Met demands := by
  rcases met_or_refuses demands with hmet | ⟨f, hf⟩
  · exact hmet
  · exact absurd (h.refused f hf) (hne f)

end

end Demand

end Overhaul
