import Overhaul.LockTable
import Overhaul.Service.Operation
import Overhaul.Store.Basic

/-!
# Running programs

A world is what a program runs in: the store, the locks that are taken, the parts that were given
back, whether the caller has given up, and what is still to go wrong. `World.run` runs a program
that is alone in its world; `World.Ready` says when a step can be taken at all, which matters only
beside others.
-/

namespace Overhaul

/-- The kinds of calls, which fail independently of each other. -/
inductive CallKind
  | task
  | putTask
  | tasksWhere
  | setState
  | addDependency
  | dependency
  | removeDependency
  | dependenciesOf
  | dependentsOf
  | addChange
  | changesOf
  | announce
  | releaseParts
  deriving DecidableEq, Repr

namespace Call

/-- The kind of a call. -/
def kind : Call → CallKind
  | .task _ _ => .task
  | .putTask _ => .putTask
  | .tasksWhere _ => .tasksWhere
  | .setState _ _ _ _ _ => .setState
  | .addDependency _ => .addDependency
  | .dependency _ _ => .dependency
  | .removeDependency _ _ => .removeDependency
  | .dependenciesOf _ _ => .dependenciesOf
  | .dependentsOf _ _ => .dependentsOf
  | .addChange _ => .addChange
  | .changesOf _ _ => .changesOf
  | .announce _ => .announce
  | .releaseParts _ _ => .releaseParts

/-- The answer that there is nothing, for calls that can give it: those that look a record up, put a
task into a state or remove a dependency. Calls that list records, and calls that add a record or
write over one, announce something or give parts back, have no such answer, and are carried out. -/
def nothing? : (c : Call) → Option c.Value
  | .task _ _ => some (none : Option Task)
  | .setState _ _ _ _ _ => some (none : Option Task)
  | .dependency _ _ => some (none : Option Dependency)
  | .removeDependency _ _ => some false
  | _ => none

/-- The answer with the found task in another state. -/
def posing (state : TaskState) : (c : Call) → c.Value → c.Value
  | .task _ _, (v : Option Task) => v.map fun t => { t with state }
  | .putTask _, v | .tasksWhere _, v | .setState _ _ _ _ _, v | .addDependency _, v
  | .dependency _ _, v | .removeDependency _ _, v | .dependenciesOf _ _, v
  | .dependentsOf _ _, v | .addChange _, v | .changesOf _ _, v | .announce _, v
  | .releaseParts _ _, v => v

end Call

/-- What happens to a call. -/
inductive Fault
  /-- Nothing out of the ordinary. -/
  | none
  /-- The call fails and does nothing. -/
  | fail (text : String)
  /-- The caller gives up just before the call is carried out. -/
  | cancel
  /-- The call answers that there is nothing, and does nothing. -/
  | nothing
  /-- The call is carried out, and shows the found task in another state. -/
  | posing (state : TaskState)
  deriving DecidableEq, Repr

/-- What a program runs in. -/
structure World where
  store : Store
  locks : LockTable := .empty
  /-- The tasks whose parts were given back, with their tenants, the earliest first. -/
  released : List (TenantId × TaskId) := []
  /-- The caller has given up. -/
  cancelled : Bool := false
  /-- What happens to the next calls of every kind. -/
  faults : CallKind → List Fault := fun _ => []

namespace World

/-- The world in which a change to the store was made or refused. -/
def commit (w : World) : Except StoreError Store → Except CallError Unit × World
  | .ok store => (.ok (), { w with store })
  | .error cause => (.error (.refused cause), w)

/-- Carries a call out. -/
def perform (w : World) : (c : Call) → Except CallError c.Value × World
  | .task scope id => (.ok (w.store.task? scope id), w)
  | .putTask t => w.commit (w.store.putTask t)
  | .tasksWhere f => (.ok (w.store.tasksWhere f), w)
  | .setState scope id state notes now =>
    match w.store.setState scope id state notes now with
    | some (t, store) => (.ok (some t), { w with store })
    | none => (.ok none, w)
  | .addDependency d => w.commit (w.store.addDependency d)
  | .dependency scope id => (.ok (w.store.dependency? scope id), w)
  | .removeDependency scope id =>
    match w.store.removeDependency scope id with
    | some store => (.ok true, { w with store })
    | none => (.ok false, w)
  | .dependenciesOf scope task => (.ok (w.store.dependenciesOf scope task), w)
  | .dependentsOf scope task => (.ok (w.store.dependentsOf scope task), w)
  | .addChange c => w.commit (w.store.addChange c)
  | .changesOf scope task => (.ok (w.store.changesOf scope task), w)
  | .announce m => (.ok (), { w with store := w.store.announce m })
  | .releaseParts tenant task => (.ok (), { w with released := w.released ++ [(tenant, task)] })

/-- What happens to the next call of a kind, and the world in which that is used up. -/
def nextFault (w : World) (kind : CallKind) : Fault × World :=
  match w.faults kind with
  | [] => (.none, w)
  | fault :: rest =>
    (fault, { w with faults := fun k => if k = kind then rest else w.faults k })

/-- Answers a call. -/
def answer (w : World) (c : Call) : Except CallError c.Value × World :=
  match w.nextFault c.kind with
  | (.none, w) => w.perform c
  | (.fail text, w) => (.error (.unavailable text), w)
  | (.cancel, w) => { w with cancelled := true }.perform c
  | (.nothing, w) =>
    match c.nothing? with
    | some v => (.ok v, w)
    | none => w.perform c
  | (.posing state, w) =>
    let (r, w) := w.perform c
    (r.map (c.posing state), w)

/-- The step can be taken: a lock is free. -/
def Ready (w : World) : Step → Prop
  | .lock tenant => tenant ∉ w.locks.held
  | _ => True

instance (w : World) : (s : Step) → Decidable (w.Ready s)
  | .lock tenant => inferInstanceAs (Decidable (tenant ∉ w.locks.held))
  | .call _ | .unlock _ | .isCancelled => inferInstanceAs (Decidable True)

/-- Takes a step. -/
def take (w : World) : (s : Step) → s.Reply × World
  | .call c => w.answer c
  | .lock tenant => ((), { w with locks := (w.locks.acquire? tenant).getD w.locks })
  | .unlock tenant => ((), { w with locks := w.locks.release tenant })
  | .isCancelled => (w.cancelled, w)

/-- Runs a program to its end. -/
def run {α : Type} : Program α → World → α × World
  | .done a, w => (a, w)
  | .step s next, w => run (next (w.take s).1) (w.take s).2

/-- Runs a service: how it ends, and the world that it leaves. -/
def serve {α : Type} (w : World) (p : Service α) : Except Failure α × World := run p.run w

/-- Runs what the service does for an operation. -/
def runOperation (w : World) (setup : Setup) (ctx : Context) (o : Operation) :
    Except Failure Answer × World :=
  w.serve (o.service setup ctx)

@[simp] theorem run_done {α : Type} (a : α) (w : World) : run (.done a) w = (a, w) := rfl

@[simp] theorem run_step {α : Type} (s : Step) (next : s.Reply → Program α) (w : World) :
    run (.step s next) w = run (next (w.take s).1) (w.take s).2 := rfl

/-- A program and then another: the second runs in the world that the first leaves. -/
theorem run_bind {α β : Type} (p : Program α) (f : α → Program β) (w : World) :
    run (p >>= f) w = run (f (run p w).1) (run p w).2 := by
  induction p generalizing w with
  | done a => rfl
  | step s next ih => simp only [Program.step_bind, run_step, ih]

/-! ### How services run -/

section

variable {α β : Type} (w : World)

@[simp] theorem serve_pure (a : α) : w.serve (pure a) = (.ok a, w) := rfl

@[simp] theorem serve_throw (f : Failure) : w.serve (throw f : Service α) = (.error f, w) := rfl

@[simp] theorem serve_ofExcept (e : Except Failure α) : w.serve (Service.ofExcept e) = (e, w) := rfl

/-- A service goes on where the one before ended, unless that failed. -/
theorem serve_bind (p : Service α) (f : α → Service β) :
    w.serve (p >>= f) =
      match w.serve p with
      | (.ok a, w) => w.serve (f a)
      | (.error e, w) => (.error e, w) := by
  show run (p.run >>= ExceptT.bindCont f) w = _
  rw [run_bind]
  simp only [serve, ExceptT.run]
  rcases run (p : Program (Except Failure α)) w with ⟨_ | _, _⟩ <;> rfl

@[simp] theorem serve_map (f : α → β) (p : Service α) :
    w.serve (f <$> p) = ((w.serve p).1.map f, (w.serve p).2) := by
  rw [← bind_pure_comp, serve_bind]
  rcases w.serve p with ⟨_ | _, _⟩ <;> rfl

@[simp] theorem serve_outcome (p : Service α) :
    w.serve p.outcome = (.ok (w.serve p).1, (w.serve p).2) := by
  show run (Except.ok <$> p.run) w = _
  rw [← bind_pure_comp, run_bind]
  rfl

@[simp] theorem serve_attempt (c : Call) :
    w.serve (Service.attempt c) = (.ok (w.answer c).1, (w.answer c).2) := rfl

/-- A call that fails makes its service fail. -/
@[simp] theorem serve_ask (c : Call) :
    w.serve (Service.ask c) = ((w.answer c).1.mapError Failure.store, (w.answer c).2) := by
  rw [Service.ask, serve_bind, serve_attempt]
  rcases w.answer c with ⟨_ | _, _⟩ <;> rfl

@[simp] theorem serve_ensureActive :
    w.serve Service.ensureActive = (if w.cancelled then .error .cancelled else .ok (), w) := by
  show run (Program.step .isCancelled _) w = _
  rw [run_step]
  cases h : w.cancelled <;> simp [take, h] <;> rfl

/-- A service that holds a lock ends as it would without, and the lock is free afterwards. -/
theorem serve_locked (tenant : TenantId) (p : Service α) :
    w.serve (Service.locked tenant p) =
      let (r, w) := (w.take (.lock tenant)).2.serve p
      (r, (w.take (.unlock tenant)).2) := by
  rw [Service.locked, serve_bind]
  show (w.take (.lock tenant)).2.serve _ = _
  rw [serve_bind, serve_outcome]
  rfl

end

end World

end Overhaul
