import Overhaul.Proofs.Session
import Overhaul.Proofs.Store.Edits

/-!
# What sessions do to a store

Whatever the service does to a store is one of the store's edits, and a call that fails does nothing.
So what every edit keeps holds throughout a session: above all, the indexes list what is stored, and
every dependency has both of its ends. Main statements: `Exchange.edited`,
`World.forall_trail_of_edits` and `World.whole_trail`.
-/

namespace Overhaul

/-! ### Calls as edits -/

/-- What a call does to a store when it is carried out, if it does anything. -/
def Call.edit? : Call → Option Edit
  | .putTask t => some (.putTask t)
  | .setState scope id state notes now => some (.setState scope id state notes now)
  | .addDependency d => some (.addDependency d)
  | .removeDependency scope id => some (.removeDependency scope id)
  | .addChange c => some (.addChange c)
  | .announce m => some (.announce m)
  | .task _ _ | .tasksWhere _ | .dependency _ _ | .dependenciesOf _ _ | .dependentsOf _ _
  | .changesOf _ _ | .releaseParts _ _ => none

/-- What a step does to a store when it is carried out, if it does anything. -/
def Step.edit? : Step → Option Edit
  | .call c => c.edit?
  | .lock _ | .unlock _ | .isCancelled => none

theorem Step.Idle.edit?_eq_none {st : Step} (h : st.Idle) : st.edit? = none := by
  cases st with
  | call c => cases c <;> first | rfl | exact h.elim
  | _ => rfl

/-- What the step does to a store when it is carried out is in `P`, if it does anything. -/
def Step.Edits (P : Edit → Prop) (st : Step) : Prop := ∀ e, st.edit? = some e → P e

theorem Step.Idle.edits {P : Edit → Prop} {st : Step} (h : st.Idle) : st.Edits P := by
  intro e he
  rw [h.edit?_eq_none] at he
  cases he

theorem Step.edits_of_edit? {P : Edit → Prop} {st : Step} {e : Edit} (he : st.edit? = some e)
    (h : P e) : st.Edits P := by
  intro e' he'
  rw [he] at he'
  cases he'
  exact h

/-- A call that is carried out leaves what its edit does; an edit that is refused does nothing. -/
theorem Store.reply_snd (s : Store) (c : Call) : (s.reply c).2 = (c.edit?.bind s.edited?).getD s := by
  cases c with
  | putTask t =>
      simp only [reply, World.perform, Call.edit?, edited?, Option.bind_some]
      cases s.putTask t <;> rfl
  | setState scope id state notes now =>
      simp only [reply, World.perform, Call.edit?, edited?, Option.bind_some]
      cases s.setState scope id state notes now <;> rfl
  | addDependency d =>
      simp only [reply, World.perform, Call.edit?, edited?, Option.bind_some]
      cases s.addDependency d <;> rfl
  | removeDependency scope id =>
      simp only [reply, World.perform, Call.edit?, edited?, Option.bind_some]
      cases s.removeDependency scope id <;> rfl
  | addChange c =>
      simp only [reply, World.perform, Call.edit?, edited?, Option.bind_some]
      cases s.addChange c <;> rfl
  | _ => rfl

variable {sound : CallKind → Prop} {s s' : Store}

/-- An exchange leaves the store alone, or its step is an edit that the store carries out. -/
theorem Exchange.edited {x : Exchange} (h : x.Carries sound s s') :
    s' = s ∨ ∃ e, x.step.edit? = some e ∧ s.edited? e = some s' := by
  cases h with
  | performed c =>
      cases hedit : c.edit?.bind s.edited? with
      | none =>
          rw [Store.reply_snd, hedit]
          exact .inl rfl
      | some s'' =>
          rw [Store.reply_snd, hedit]
          exact .inr (Option.bind_eq_some_iff.mp hedit)
  | _ => exact .inl rfl

/-- What the edits of a run keep holds wherever the run passes through. -/
theorem World.forall_trail_of_edits {α : Type} {w : World} (hw : w.Within sound) (p : Program α)
    {P : Edit → Prop} {J : Store → Prop}
    (hedits : ∀ x ∈ transcript p w, x.step.Edits P)
    (hkeep : ∀ e s s', P e → s.edited? e = some s' → J s → J s') (hs : J w.store) :
    ∀ v ∈ trail p w, J v.store := by
  refine along hw p (fun x hx s₁ s₂ hcarries h => ?_) hs
  rcases Exchange.edited hcarries with rfl | ⟨e, hstep, hedited⟩
  · exact h
  · exact hkeep e s₁ s₂ (hedits x hx e hstep) hedited h

/-! ### What every edit keeps -/

/-- The indexes list what is stored, and every dependency has both of its ends. -/
def Store.Whole (s : Store) : Prop := Chronicle.Kept ⟨s, s.dependencies.rows⟩

theorem Chronicle.Kept.whole {c : Chronicle} (h : c.Kept) : c.store.Whole := by
  unfold Store.Whole
  rw [h.rows]
  exact h

namespace Store

theorem whole_ofSnapshot {x : Snapshot} (h : ofSnapshot x = .ok s) : s.Whole :=
  (Chronicle.Begins.loaded h).kept.whole

theorem Whole.edited {e : Edit} (h : s.Whole) (hedited : s.edited? e = some s') : s'.Whole := by
  have hafter := (Chronicle.Kept.edit h e).whole
  simp only [Chronicle.edit, hedited] at hafter
  exact hafter

end Store

/-- A request leaves a store whole wherever it passes through. -/
theorem World.whole_trail (w : World) (q : Request) (h : w.store.Whole) :
    ∀ v ∈ trail q.service.run (w.facing q), v.store.Whole :=
  forall_trail_of_edits (P := fun _ => True) (within_facing w q) q.service.run
    (fun _ _ _ _ => trivial) (fun _ _ _ _ hedited hs => hs.edited hedited) h

end Overhaul
