import Overhaul.Proofs.Concurrency.Concerns
import Overhaul.Proofs.Quiet

/-!
# What is done under a lock

Under the lock of a tenant only calls are made that concern that tenant. `Program.Fenced` says so of
all that a program does from one store on, and also that it changes the states of tasks and the
dependencies with its first write at most. A `Program.Section` is fenced, gives the lock back and is
done. Main statements: such a program ends alike wherever the tenant finds the same
(`Program.Section.run_same`), and no other tenant notices it (`Program.Section.sameFor_run`).
-/

namespace Overhaul

/-- From the store on, when nothing goes wrong, the program makes only calls that concern the tenant.
Those after its first write, or all of them when it has `written` before, leave the states of tasks
and the dependencies alone. -/
inductive Program.Fenced (o : Registry) (a : TenantId) {α : Type} :
    Program α → Bool → Store → Prop
  | done (x : α) (written : Bool) (s : Store) : Fenced o a (.done x) written s
  | isCancelled {next : Bool → Program α} {written : Bool} {s : Store} :
      Fenced o a (next false) written s → Fenced o a (.step .isCancelled next) written s
  /-- A call with which nothing is written. -/
  | reads {c : Call} {next : Except CallError c.Value → Program α} {written : Bool} {s : Store} :
      c.Concerns o a → (∀ s : Store, (s.reply c).2 = s) →
      Fenced o a (next (s.reply c).1) written s → Fenced o a (.step (.call c) next) written s
  | writes {c : Call} {next : Except CallError c.Value → Program α} {written : Bool} {s : Store} :
      c.Concerns o a → (written = true → (s.reply c).2.AlikeFor a s) →
      Fenced o a (next (s.reply c).1) true (s.reply c).2 →
      Fenced o a (.step (.call c) next) written s

theorem Store.reply_of_reads {c : Call} (hc : c.Reads) (s : Store) : (s.reply c).2 = s := by
  cases c <;> first | rfl | exact hc.elim

namespace Program

variable {o : Registry} {a b : TenantId} {α β : Type} {p : Program α} {written : Bool}
  {s s' : Store}

/-- What a program may do that has written it may do that has not. -/
theorem Fenced.of_written (h : p.Fenced o a true s) (written : Bool) : p.Fenced o a written s := by
  generalize hw : true = before at h
  induction h with
  | done x _ s => exact .done x _ s
  | isCancelled _ ih => exact .isCancelled (ih hw)
  | reads hc hstill _ ih => exact .reads hc hstill (ih hw)
  | writes hc halike hrest _ => exact .writes hc (fun _ => halike hw.symm) hrest

/-- One program after another is fenced when both are. -/
theorem Fenced.bind {f : α → Program β} (hp : p.Fenced o a written s)
    (hf : (f (s.run p).1).Fenced o a true (s.run p).2) : (p >>= f).Fenced o a written s := by
  induction hp with
  | done x written s => exact hf.of_written written
  | isCancelled _ ih => exact .isCancelled (ih hf)
  | @reads c _ _ s hc hstill _ ih =>
      refine .reads hc hstill (ih ?_)
      rwa [Store.run, Store.take, hstill] at hf
  | writes hc halike _ ih => exact .writes hc halike (ih hf)

theorem Fenced.registered_run (h : p.Fenced o a written s) (hs : s.Registered o) :
    (s.run p).2.Registered o := by
  induction h with
  | done _ _ _ => exact hs
  | isCancelled _ ih => exact ih hs
  | @reads c _ _ s hc hstill _ ih =>
      rw [Store.run, Store.take, hstill]
      exact ih hs
  | writes hc _ _ ih => exact ih (hs.reply hc)

/-- No other tenant notices what is done for one. -/
theorem Fenced.sameFor_run (h : p.Fenced o a written s) (hs : s.Registered o) (hb : b ≠ a) :
    (s.run p).2.SameFor b s := by
  induction h with
  | done _ _ s => exact .refl b s
  | isCancelled _ ih => exact ih hs
  | @reads c _ _ s hc hstill _ ih =>
      rw [Store.run, Store.take, hstill]
      exact ih hs
  | writes hc _ _ ih => exact (ih (hs.reply hc)).trans (hs.sameFor_reply hc hb)

/-- A program that has written leaves the states of tasks and the dependencies alone. -/
theorem Fenced.alikeFor_run (h : p.Fenced o a true s) : (s.run p).2.AlikeFor a s := by
  generalize hw : true = before at h
  induction h with
  | done _ _ s => exact .refl a s
  | isCancelled _ ih => exact ih hw
  | @reads c _ _ s hc hstill _ ih =>
      rw [Store.run, Store.take, hstill]
      exact ih hw
  | writes _ halike _ ih => exact (ih rfl).trans (halike hw.symm)

/-- What is fenced in one store is fenced in another in which the tenant finds the same. -/
theorem Fenced.of_same (h : p.Fenced o a written s) (hs : s.Registered o) (hs' : s'.Registered o)
    (hsame : s.SameFor a s') : p.Fenced o a written s' := by
  induction h generalizing s' with
  | done x written _ => exact .done x written s'
  | isCancelled _ ih => exact .isCancelled (ih hs hs' hsame)
  | reads hc hstill _ ih =>
      refine .reads hc hstill ?_
      rw [← (hsame.reply hs hs' hc).1]
      exact ih hs hs' hsame
  | writes hc halike _ ih =>
      obtain ⟨hreply, hsame'⟩ := hsame.reply hs hs' hc
      refine .writes hc (fun hw => ?_) ?_
      · exact (hsame'.symm.alike.trans (halike hw)).trans hsame.alike
      · rw [← hreply]
        exact ih (hs.reply hc) (hs'.reply hc) hsame'

/-- What is done for a tenant ends alike where it finds the same, and leaves the same for it. -/
theorem Fenced.run_same (h : p.Fenced o a written s) (hs : s.Registered o) (hs' : s'.Registered o)
    (hsame : s.SameFor a s') :
    (s.run p).1 = (s'.run p).1 ∧ (s.run p).2.SameFor a (s'.run p).2 := by
  induction h generalizing s' with
  | done x _ _ => exact ⟨rfl, hsame⟩
  | isCancelled _ ih => exact ih hs hs' hsame
  | @reads c _ _ s hc hstill _ ih =>
      rw [Store.run, Store.run, Store.take, Store.take, hstill, hstill,
        ← (hsame.reply hs hs' hc).1]
      exact ih hs hs' hsame
  | writes hc _ _ ih =>
      obtain ⟨hreply, hsame'⟩ := hsame.reply hs hs' hc
      rw [Store.run, Store.run, Store.take, Store.take, ← hreply]
      exact ih (hs.reply hc) (hs'.reply hc) hsame'

end Program

/-! ### From lock to unlock -/

namespace Program

variable {α β : Type} {o : Registry} {a b : TenantId} {written : Bool} {s s' : Store}

/-- The program holds the lock of the tenant; what it still does is fenced, and then it gives the lock
back and is done. -/
def Section (o : Registry) (a : TenantId) (p : Program α) (written : Bool) (s : Store) : Prop :=
  ∃ (β : Type) (body : Program β) (g : β → α),
    p = (body >>= fun x => .step (.unlock a) fun _ => .done (g x)) ∧ body.Fenced o a written s

/-- The next step of a section. -/
inductive SectionStep (o : Registry) (a : TenantId) : Program α → Bool → Store → Prop
  | leaves (x : α) (written : Bool) (s : Store) :
      SectionStep o a (.step (.unlock a) fun _ => .done x) written s
  | isCancelled {next : Bool → Program α} {written : Bool} {s : Store} :
      (next false).Section o a written s → SectionStep o a (.step .isCancelled next) written s
  | reads {c : Call} {next : Except CallError c.Value → Program α} {written : Bool} {s : Store} :
      c.Concerns o a → (∀ s : Store, (s.reply c).2 = s) →
      (next (s.reply c).1).Section o a written s →
      SectionStep o a (.step (.call c) next) written s
  | writes {c : Call} {next : Except CallError c.Value → Program α} {written : Bool} {s : Store} :
      c.Concerns o a → (written = true → (s.reply c).2.AlikeFor a s) →
      (next (s.reply c).1).Section o a true (s.reply c).2 →
      SectionStep o a (.step (.call c) next) written s

/-- A section is not done before it has given its lock back. -/
theorem Section.step {p : Program α} (h : p.Section o a written s) : p.SectionStep o a written s := by
  obtain ⟨β, body, g, rfl, hbody⟩ := h
  cases hbody with
  | done x => exact .leaves (g x) written s
  | isCancelled hrest => exact .isCancelled ⟨β, _, g, rfl, hrest⟩
  | reads hc hstill hrest => exact .reads hc hstill ⟨β, _, g, rfl, hrest⟩
  | writes hc halike hrest => exact .writes hc halike ⟨β, _, g, rfl, hrest⟩

section

variable {p : Program α}

/-- A section comes to what its body comes to. -/
theorem run_section (body : Program β) (g : β → α) (s : Store) :
    s.run (body >>= fun x => .step (.unlock a) fun _ => .done (g x)) =
      (g (s.run body).1, (s.run body).2) :=
  Store.run_bind s body _

theorem Section.registered_run (h : p.Section o a written s) (hs : s.Registered o) :
    (s.run p).2.Registered o := by
  obtain ⟨β, body, g, rfl, hbody⟩ := h
  rw [run_section]
  exact hbody.registered_run hs

theorem Section.sameFor_run (h : p.Section o a written s) (hs : s.Registered o) (hb : b ≠ a) :
    (s.run p).2.SameFor b s := by
  obtain ⟨β, body, g, rfl, hbody⟩ := h
  rw [run_section]
  exact hbody.sameFor_run hs hb

theorem Section.alikeFor_run (h : p.Section o a true s) : (s.run p).2.AlikeFor a s := by
  obtain ⟨β, body, g, rfl, hbody⟩ := h
  rw [run_section]
  exact hbody.alikeFor_run

theorem Section.of_same (h : p.Section o a written s) (hs : s.Registered o)
    (hs' : s'.Registered o) (hsame : s.SameFor a s') : p.Section o a written s' := by
  obtain ⟨β, body, g, rfl, hbody⟩ := h
  exact ⟨β, body, g, rfl, hbody.of_same hs hs' hsame⟩

/-- A section ends alike where its tenant finds the same, and leaves the same for it. -/
theorem Section.run_same (h : p.Section o a written s) (hs : s.Registered o) (hs' : s'.Registered o)
    (hsame : s.SameFor a s') :
    (s.run p).1 = (s'.run p).1 ∧ (s.run p).2.SameFor a (s'.run p).2 := by
  obtain ⟨β, body, g, rfl, hbody⟩ := h
  obtain ⟨hresult, hleft⟩ := hbody.run_same hs hs' hsame
  rw [run_section, run_section]
  exact ⟨congrArg g hresult, hleft⟩

end

end Program

/-! ### Services under a lock -/

/-- The step concerns the tenant and leaves the store as it is. -/
def Step.ReadsFor (o : Registry) (a : TenantId) : Step → Prop
  | .call c => c.Concerns o a ∧ ∀ s : Store, (s.reply c).2 = s
  | .isCancelled => True
  | .lock _ | .unlock _ => False

namespace Service

variable {o : Registry} {a : TenantId} {α β : Type} {written : Bool} {s s' : Store}

/-- What is done in the service is fenced. -/
def Fenced (o : Registry) (a : TenantId) (p : Service α) (written : Bool) (s : Store) : Prop :=
  Program.Fenced o a p.run written s

theorem fenced_pure (x : α) : Fenced o a (pure x) written s := .done _ _ _

theorem fenced_throw (f : Failure) : Fenced o a (throw f : Service α) written s := .done _ _ _

/-- Reading for the tenant is fenced, leaves the store alone and writes nothing. -/
theorem fenced_bind_of_reads {p : Service α} {f : α → Service β}
    (hp : Only (Step.ReadsFor o a) p)
    (hf : ∀ x, s.serve p = (.ok x, s) → Fenced o a (f x) written s) :
    Fenced o a (p >>= f) written s := by
  have hprogram : ∀ (p : Program (Except Failure α)), p.Only (Step.ReadsFor o a) →
      (∀ x, s.run p = (.ok x, s) → Fenced o a (f x) written s) →
      Program.Fenced o a (p >>= ExceptT.bindCont f) written s := by
    intro p hp hf
    induction p with
    | done r =>
        cases r with
        | ok x => exact hf x rfl
        | error e => exact .done _ _ _
    | step st next ih =>
        cases st with
        | call c =>
            obtain ⟨hc, hstill⟩ := hp.1
            refine .reads hc hstill (ih _ (hp.2 _) fun x hx => hf x ?_)
            rw [Store.run, Store.take, hstill]
            exact hx
        | isCancelled => exact .isCancelled (ih _ (hp.2 _) hf)
        | lock tenant => exact hp.1.elim
        | unlock tenant => exact hp.1.elim
  exact hprogram p.run hp hf

theorem fenced_bind {p : Service α} {f : α → Service β} (hp : Fenced o a p written s)
    (hf : ∀ x s', s.serve p = (.ok x, s') → Fenced o a (f x) true s') :
    Fenced o a (p >>= f) written s := by
  have hcont : ∀ r s', s.serve p = (r, s') →
      Program.Fenced o a (ExceptT.bindCont f r) true s' := by
    intro r s' hr
    cases r with
    | error e => exact .done _ _ _
    | ok x => exact hf x s' hr
  exact Program.Fenced.bind hp (hcont _ _ rfl)

/-- A call that writes is fenced, unless something was written before and it changes more than it
may. -/
theorem fenced_ask {c : Call} (hc : c.Concerns o a)
    (halike : written = true → (s.reply c).2.AlikeFor a s) : Fenced o a (ask c) written s := by
  refine .writes hc halike ?_
  cases (s.reply c).1 <;> exact .done _ _ _

theorem fenced_map {p : Service α} (f : α → β) (hp : Fenced o a p written s) :
    Fenced o a (f <$> p) written s := by
  rw [← bind_pure_comp]
  exact fenced_bind hp fun _ _ _ => fenced_pure _

theorem fenced_attempt {c : Call} (hc : c.Concerns o a)
    (halike : written = true → (s.reply c).2.AlikeFor a s) : Fenced o a (attempt c) written s :=
  .writes hc halike (.done _ _ _)

end Service

end Overhaul
