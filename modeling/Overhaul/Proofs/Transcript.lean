import Overhaul.World

/-!
# What a program hears

A run of a program leaves a transcript, which lists the steps that it took together with what each
of them told it, and a trail, which lists the worlds that it passed through. `Program.Only` says that
every step which a program might ever take is of some sort, whatever it is told. Main statements: the
`only_*` lemmas, one for each way in which services are put together.
-/

namespace Overhaul

/-- A step that was taken, and what it told the program. -/
structure Exchange where
  step : Step
  reply : step.Reply

namespace World

variable {α : Type}

/-- The steps of a run, the first one first. -/
def transcript : Program α → World → List Exchange
  | .done _, _ => []
  | .step s next, w => ⟨s, (w.take s).1⟩ :: transcript (next (w.take s).1) (w.take s).2

/-- The worlds that a run passes through, from the one in which it starts to the one that it
leaves. -/
def trail : Program α → World → List World
  | .done _, w => [w]
  | .step s next, w => w :: trail (next (w.take s).1) (w.take s).2

/-- The steps that a service takes. -/
def heard (w : World) (p : Service α) : List Exchange := transcript p.run w

/-- A run ends in the last of the worlds that it passes through. -/
theorem run_mem_trail (p : Program α) (w : World) : (run p w).2 ∈ trail p w := by
  induction p generalizing w with
  | done a => exact List.mem_singleton_self w
  | step s next ih => exact List.mem_cons_of_mem _ (ih _ _)

end World

/-! ### The steps that a program might take -/

/-- Every step that the program might take is in `P`, whatever it is told. -/
def Program.Only {α : Type} (P : Step → Prop) : Program α → Prop
  | .done _ => True
  | .step s next => P s ∧ ∀ r, (next r).Only P

/-- Every step that the service might take is in `P`, whatever it is told. -/
def Service.Only {α : Type} (P : Step → Prop) (p : Service α) : Prop := Program.Only P p.run

section

variable {α β : Type} {P Q : Step → Prop}

theorem Program.Only.bind {p : Program α} {f : α → Program β} (hp : p.Only P)
    (hf : ∀ a, (f a).Only P) : (p >>= f).Only P := by
  induction p with
  | done a => exact hf a
  | step s next ih => exact ⟨hp.1, fun r => ih r (hp.2 r)⟩

theorem Program.Only.imp {p : Program α} (h : ∀ s, P s → Q s) (hp : p.Only P) : p.Only Q := by
  induction p with
  | done a => trivial
  | step s next ih => exact ⟨h s hp.1, fun r => ih r (hp.2 r)⟩

/-- The steps of a run are among those that its program allows. -/
theorem Program.Only.transcript {p : Program α} (hp : p.Only P) (w : World) :
    ∀ x ∈ World.transcript p w, P x.step := by
  induction p generalizing w with
  | done a => simp [World.transcript]
  | step s next ih => exact List.forall_mem_cons.mpr ⟨hp.1, ih _ (hp.2 _) _⟩

namespace Service

theorem only_pure (a : α) : Only P (pure a : Service α) := trivial

theorem only_throw (f : Failure) : Only P (throw f : Service α) := trivial

theorem only_ofExcept (e : Except Failure α) : Only P (Service.ofExcept e) := trivial

theorem only_bind {p : Service α} {f : α → Service β} (hp : Only P p) (hf : ∀ a, Only P (f a)) :
    Only P (p >>= f) := by
  refine Program.Only.bind hp fun r => ?_
  cases r with
  | ok a => exact hf a
  | error e => trivial

/-- What comes after no step at all goes on with what there is. -/
theorem only_ofExcept_bind {e : Except Failure α} {f : α → Service β}
    (hf : ∀ a, e = .ok a → Only P (f a)) : Only P (ofExcept e >>= f) := by
  cases e with
  | ok a => exact hf a rfl
  | error cause => exact only_throw cause

/-- A test that makes the service fail takes no steps. -/
theorem only_guard {c : Prop} [Decidable c] {f : Failure} {k : Unit → Service α}
    (h : ¬c → Only P (k ())) : Only P (if c then throw f >>= k else k ()) := by
  split
  · exact only_throw f
  · rename_i hc
    exact h hc

theorem only_map {p : Service α} (f : α → β) (hp : Only P p) : Only P (f <$> p) := by
  rw [← bind_pure_comp]
  exact only_bind hp fun _ => only_pure _

theorem only_outcome {p : Service α} (hp : Only P p) : Only P p.outcome := by
  change Program.Only P (Except.ok <$> p.run)
  rw [← bind_pure_comp]
  exact Program.Only.bind hp fun _ => trivial

theorem only_attempt {c : Call} (h : P (.call c)) : Only P (attempt c) := ⟨h, fun _ => trivial⟩

theorem only_ask {c : Call} (h : P (.call c)) : Only P (ask c) := by
  refine only_bind (only_attempt h) fun r => ?_
  cases r with
  | ok v => exact only_pure _
  | error cause => exact only_throw _

theorem only_ensureActive (h : P .isCancelled) : Only P ensureActive := by
  refine only_bind (p := ExceptT.lift (Program.only .isCancelled)) ⟨h, fun _ => trivial⟩ fun b => ?_
  cases b with
  | true => exact only_throw _
  | false => exact only_pure _

theorem only_locked {tenant : TenantId} {p : Service α} (hlock : P (.lock tenant))
    (hunlock : P (.unlock tenant)) (hp : Only P p) : Only P (locked tenant p) := by
  refine only_bind (p := ExceptT.lift (Program.only (.lock tenant))) ⟨hlock, fun _ => trivial⟩ ?_
  intro _
  refine only_bind (only_outcome hp) fun r => ?_
  refine only_bind (p := ExceptT.lift (Program.only (.unlock tenant))) ⟨hunlock, fun _ => trivial⟩ ?_
  intro _
  exact only_ofExcept r

end Service

end

end Overhaul
