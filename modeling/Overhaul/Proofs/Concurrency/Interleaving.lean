import Mathlib.Data.List.FinRange
import Mathlib.Data.List.Nodup
import Mathlib.Logic.Function.Basic
import Overhaul.Proofs.Concurrency.Sections

/-!
# Programs side by side

Several programs run side by side in one world, each taking one step at a time, in whatever order; a
step that takes a lock has to wait until the lock is free. `World.Interleaving` says how this can go.
What the programs do has the effect that it would have if they ran one after the other, in the order
in which each of them comes to its first write, or else to its end. `Simulates` compares the
store that they share with the one that those leave which are that far. Main statements: every step
keeps this up (`Simulates.step`), and so do whole runs (`World.Interleaving.serial`).
-/

namespace Overhaul

/-- The programs can take their steps, one at a time, until all of them are done with these results
and have left the second world. -/
inductive World.Interleaving {n : Nat} {α : Type} :
    World → (Fin n → Program α) → World → (Fin n → α) → Prop
  | finished {w : World} {ps : Fin n → Program α} {results : Fin n → α} :
      (∀ i, ps i = .done (results i)) → Interleaving w ps w results
  /-- One of the programs takes a step, which it can take, and the others wait. -/
  | step {w w' : World} {ps : Fin n → Program α} {results : Fin n → α} (i : Fin n) {st : Step}
      {next : st.Reply → Program α} :
      ps i = .step st next → w.Ready st →
      Interleaving (w.take st).2 (Function.update ps i (next (w.take st).1)) w' results →
      Interleaving w ps w' results

/-! ### What comes before a section -/

/-- The program reads, and then enters a section or is done. `out` is what it comes to when it is run
at once from a store. What it reads meanwhile does not change that, except that it can make the
program be done with what `out` comes to in all stores in which all tasks are in the same states, and
all tenants have the same dependencies. -/
def Program.Approaches {α : Type} (o : Registry) (out : Store → α × Store) : Program α → Prop
  | .done x => ∀ s : Store, s.Registered o → out s = (x, s)
  | .step (.call c) next => c.Reads ∧ ∀ s : Store, s.Registered o →
      (next (s.reply c).1).Approaches o out ∨ ∃ x, next (s.reply c).1 = .done x ∧
        ∀ s' : Store, s'.Registered o → (∀ a, s.AlikeFor a s') → out s' = (x, s')
  | .step (.lock a) next => ∀ s : Store, s.Registered o →
      (next ()).Section o a false s ∧ out s = s.run (next ())
  | .step (.unlock _) _ | .step .isCancelled _ => False

/-! ### How far the programs are -/

/-- How far a program has come. -/
inductive Phase
  /-- It has still to enter its section. -/
  | outside
  /-- It is in its section, and has written nothing. -/
  | inside (a : TenantId)
  /-- It is in its section, and has written something. -/
  | ahead (a : TenantId)
  | finished

/-- The program holds the lock of the tenant. -/
def Phase.Holds : Phase → TenantId → Prop
  | .inside a, b | .ahead a, b => a = b
  | .outside, _ | .finished, _ => False

section

variable {n : Nat} {α : Type}

/-- Some of the programs have run from the start, one after the other, with these results, and left
the store. -/
inductive Serial (whole : Fin n → Program α) (start : Store) : List (Fin n × α) → Store → Prop
  | start : Serial whole start [] start
  | next {counted : List (Fin n × α)} {left : Store} (i : Fin n) :
      Serial whole start counted left →
      Serial whole start (counted ++ [(i, (left.run (whole i)).1)]) (left.run (whole i)).2

/-- Where a program stands in its phase: `s` is the store that all programs share, and `left` the one
that those leave which count as done. -/
def Stands (o : Registry) (whole : Program α) (s left : Store) (counted : List (Fin n × α))
    (i : Fin n) (p : Program α) : Phase → Prop
  | .outside => i ∉ counted.map Prod.fst ∧ p.Approaches o fun s => s.run whole
  | .inside a => i ∉ counted.map Prod.fst ∧ p.Section o a false s ∧
      ∀ s' : Store, s'.Registered o → s.SameFor a s' → s'.run whole = s'.run p
  | .ahead a => p.Section o a true s ∧ (i, (s.run p).1) ∈ counted ∧ (s.run p).2.SameFor a left
  | .finished => ∃ x, p = .done x ∧ (i, x) ∈ counted

variable {o : Registry} {whole : Fin n → Program α} {start left left' : Store} {w w' : World}
  {ps : Fin n → Program α} {counted counted' : List (Fin n × α)} {phase : Fin n → Phase}
  {i : Fin n} {p : Program α}

/-- What others do, for other tenants, does not change where a program stands. -/
theorem Stands.frame {whole : Program α} {s s' : Store} {ph : Phase}
    (h : Stands o whole s left counted i p ph) (hs : s.Registered o) (hs' : s'.Registered o)
    (hothers : ∀ a, ph.Holds a → s'.SameFor a s ∧ left'.SameFor a left)
    (hcounted : ∀ x, (i, x) ∈ counted → (i, x) ∈ counted')
    (hnew : i ∈ counted'.map Prod.fst → i ∈ counted.map Prod.fst) :
    Stands o whole s' left' counted' i p ph := by
  cases ph with
  | outside => exact ⟨fun hmem => h.1 (hnew hmem), h.2⟩
  | inside a =>
      obtain ⟨hnot, hsection, hout⟩ := h
      have hsame := (hothers a rfl).1
      refine ⟨fun hmem => hnot (hnew hmem), hsection.of_same hs hs' hsame.symm, ?_⟩
      exact fun s'' hs'' hsame' => hout s'' hs'' (hsame.symm.trans hsame')
  | ahead a =>
      obtain ⟨hsection, hmem, hleft⟩ := h
      obtain ⟨hsame, hsame'⟩ := hothers a rfl
      obtain ⟨hresult, hend⟩ := hsection.run_same hs hs' hsame.symm
      refine ⟨hsection.of_same hs hs' hsame.symm, ?_, ?_⟩
      · rw [← hresult]
        exact hcounted _ hmem
      · exact (hend.symm.trans hleft).trans hsame'.symm
  | finished =>
      obtain ⟨x, hx, hmem⟩ := h
      exact ⟨x, hx, hcounted x hmem⟩

/-- The programs side by side have come as far as those that count as done have come one after the
other. A tenant finds the same in both stores, unless a program is still writing for it; and then it
finds all tasks in the same states, and the same dependencies. -/
structure Simulates (o : Registry) (whole : Fin n → Program α) (start : Store) (w : World)
    (ps : Fin n → Program α) (counted : List (Fin n × α)) (left : Store) (phase : Fin n → Phase) :
    Prop where
  quiet : w.Quiet
  shared : w.store.Registered o
  serial : Serial whole start counted left
  planned : left.Registered o
  nodup : (counted.map Prod.fst).Nodup
  /-- A lock is taken by a program that holds it. -/
  locks : ∀ a, a ∈ w.locks.held ↔ ∃ i, (phase i).Holds a
  exclusive : ∀ i j a, (phase i).Holds a → (phase j).Holds a → i = j
  same : ∀ a, (∀ i, phase i ≠ .ahead a) → w.store.SameFor a left
  alike : ∀ a, w.store.AlikeFor a left
  stands : ∀ i, Stands o (whole i) w.store left counted i (ps i) (phase i)

/-- While a program holds a lock without having written, its tenant finds the same in both stores. -/
theorem Simulates.same_of_inside {a : TenantId} (h : Simulates o whole start w ps counted left phase)
    (hphase : phase i = .inside a) : w.store.SameFor a left := by
  refine h.same a fun j hj => ?_
  have hij : i = j := h.exclusive i j a (by rw [hphase]; rfl) (by rw [hj]; rfl)
  rw [← hij, hphase] at hj
  cases hj

/-- One program goes on to a new phase. What it does concerns the tenants whose locks it holds. -/
theorem Simulates.advance {p' : Program α}
    (h : Simulates o whole start w ps counted left phase) (ph : Phase) (hquiet : w'.Quiet)
    (hshared : w'.store.Registered o) (hserial : Serial whole start counted' left')
    (hleft : left'.Registered o) (hnodup : (counted'.map Prod.fst).Nodup)
    (hlocks : ∀ a, a ∈ w'.locks.held ↔ ph.Holds a ∨ a ∈ w.locks.held ∧ ¬(phase i).Holds a)
    (hfree : ∀ a, ph.Holds a → (phase i).Holds a ∨ a ∉ w.locks.held)
    (hothers : ∀ a, ¬(phase i).Holds a → w'.store.SameFor a w.store ∧ left'.SameFor a left)
    (hsame : ∀ a, (phase i).Holds a → ph ≠ .ahead a → w'.store.SameFor a left')
    (halike : ∀ a, (phase i).Holds a → w'.store.AlikeFor a left')
    (hcounted : ∀ j ≠ i, (∀ x, (j, x) ∈ counted → (j, x) ∈ counted') ∧
      (j ∈ counted'.map Prod.fst → j ∈ counted.map Prod.fst))
    (hstands : Stands o (whole i) w'.store left' counted' i p' ph) :
    Simulates o whole start w' (Function.update ps i p') counted' left'
      (Function.update phase i ph) := by
  have hheld : ∀ {j a}, (phase j).Holds a → a ∈ w.locks.held := fun hj => (h.locks _).mpr ⟨_, hj⟩
  refine ⟨hquiet, hshared, hserial, hleft, hnodup, fun a => ?_, fun j k a hj hk => ?_,
    fun a hnot => ?_, fun a => ?_, fun j => ?_⟩
  · rw [hlocks]
    constructor
    · rintro (hph | ⟨hmem, hnot⟩)
      · exact ⟨i, by rwa [Function.update_self]⟩
      · obtain ⟨j, hj⟩ := (h.locks a).mp hmem
        have hne : j ≠ i := by
          rintro rfl
          exact hnot hj
        exact ⟨j, by rwa [Function.update_of_ne hne]⟩
    · rintro ⟨j, hj⟩
      by_cases hji : j = i
      · subst hji
        rw [Function.update_self] at hj
        exact .inl hj
      · rw [Function.update_of_ne hji] at hj
        exact .inr ⟨hheld hj, fun hi => hji (h.exclusive j i a hj hi)⟩
  · -- a lock that is taken anew was free
    have hnew : ∀ {k}, k ≠ i → ph.Holds a → (phase k).Holds a → False := by
      intro k hki hph hk
      rcases hfree a hph with hi | hfree
      · exact hki (h.exclusive k i a hk hi)
      · exact hfree (hheld hk)
    by_cases hji : j = i
    · by_cases hki : k = i
      · rw [hji, hki]
      · rw [hji, Function.update_self] at hj
        rw [Function.update_of_ne hki] at hk
        exact (hnew hki hj hk).elim
    · rw [Function.update_of_ne hji] at hj
      by_cases hki : k = i
      · rw [hki, Function.update_self] at hk
        exact (hnew hji hk hj).elim
      · rw [Function.update_of_ne hki] at hk
        exact h.exclusive j k a hj hk
  · by_cases hi : (phase i).Holds a
    · refine hsame a hi fun hph => hnot i ?_
      rw [Function.update_self, hph]
    · obtain ⟨hstore, hleft⟩ := hothers a hi
      refine hstore.trans ((h.same a fun j hj => ?_).trans hleft.symm)
      by_cases hji : j = i
      · rw [← hji, hj] at hi
        exact hi rfl
      · exact hnot j (by rwa [Function.update_of_ne hji])
  · by_cases hi : (phase i).Holds a
    · exact halike a hi
    · obtain ⟨hstore, hleft⟩ := hothers a hi
      exact (hstore.alike.trans (h.alike a)).trans hleft.symm.alike
  · by_cases hji : j = i
    · subst hji
      rwa [Function.update_self, Function.update_self]
    · rw [Function.update_of_ne hji, Function.update_of_ne hji]
      obtain ⟨hkept, hnew⟩ := hcounted j hji
      refine (h.stands j).frame h.shared hshared (fun a hj => hothers a fun hi => ?_) hkept hnew
      exact hji (h.exclusive j i a hj hi)

/-- One program takes a step that nobody else can notice, and stays in its phase. -/
theorem Simulates.look {p' : Program α} (h : Simulates o whole start w ps counted left phase)
    (hquiet : w'.Quiet) (hstore : w'.store = w.store) (hlocks : w'.locks = w.locks)
    (hstands : Stands o (whole i) w.store left counted i p' (phase i)) :
    Simulates o whole start w' (Function.update ps i p') counted left phase := by
  refine ⟨hquiet, ?_, h.serial, h.planned, h.nodup, ?_, h.exclusive, ?_, ?_, fun j => ?_⟩
  · rw [hstore]
    exact h.shared
  · rw [hlocks]
    exact h.locks
  · rw [hstore]
    exact h.same
  · rw [hstore]
    exact h.alike
  · rw [hstore]
    by_cases hji : j = i
    · subst hji
      rwa [Function.update_self]
    · rw [Function.update_of_ne hji]
      exact h.stands j

/-- Counting a program that was not counted before changes nothing for the others. -/
theorem nodup_count (h : (counted.map Prod.fst).Nodup) (hi : i ∉ counted.map Prod.fst) (x : α) :
    ((counted ++ [(i, x)]).map Prod.fst).Nodup ∧
      ∀ j ≠ i, (∀ y, (j, y) ∈ counted → (j, y) ∈ counted ++ [(i, x)]) ∧
        (j ∈ (counted ++ [(i, x)]).map Prod.fst → j ∈ counted.map Prod.fst) := by
  rw [List.map_append]
  refine ⟨h.append (List.nodup_singleton i) (List.disjoint_singleton.mpr hi), fun j hj =>
    ⟨fun y hy => ?_, ?_⟩⟩
  · exact List.mem_append_left _ hy
  · intro hmem
    exact (List.mem_append.mp hmem).resolve_right fun hlast => hj (List.mem_singleton.mp hlast)

/-! ### One step -/

/-- Taking a free lock takes that one alone. -/
theorem World.mem_held_take_lock {a b : TenantId} (h : w.Ready (.lock a)) :
    b ∈ (w.take (.lock a)).2.locks.held ↔ b = a ∨ b ∈ w.locks.held := by
  change b ∈ ((w.locks.acquire? a).getD w.locks).held ↔ _
  cases ha : w.locks.acquire? a with
  | none => exact (h (LockTable.acquire?_eq_none_iff.mp ha)).elim
  | some locks => exact LockTable.mem_held_of_acquire? ha

variable {a : TenantId} {st : Step} {next : st.Reply → Program α}

/-- A program that has still to enter its section goes on reading, enters it, or is done. -/
theorem Simulates.step_outside (h : Simulates o whole start w ps counted left phase)
    (hphase : phase i = .outside) (hp : ps i = .step st next) (hready : w.Ready st) :
    ∃ counted' left' phase', Simulates o whole start (w.take st).2
      (Function.update ps i (next (w.take st).1)) counted' left' phase' := by
  obtain ⟨hreply, hstore, hquiet⟩ := h.quiet.take st
  have hstands := h.stands i
  rw [hphase, hp] at hstands
  obtain ⟨hnot, hnear⟩ := hstands
  have hnone : ∀ {a}, ¬(phase i).Holds a := by
    intro a ha
    rw [hphase] at ha
    exact ha
  cases st with
  | call c =>
      obtain ⟨hreads, hnext⟩ := hnear
      have hsame : (w.take (.call c)).2.store = w.store :=
        hstore.trans (Store.reply_of_reads hreads w.store)
      have hlocks := h.quiet.locks_take_call c
      rw [hreply]
      rcases hnext w.store h.shared with hstill | ⟨x, hx, hfixed⟩
      · refine ⟨counted, left, phase, h.look hquiet hsame hlocks ?_⟩
        rw [hphase]
        exact ⟨hnot, hstill⟩
      · have hrun : left.run (whole i) = (x, left) := hfixed left h.planned h.alike
        have hserial := h.serial.next i
        rw [hrun] at hserial
        obtain ⟨hnodup, hcounted⟩ := nodup_count h.nodup hnot x
        refine ⟨_, _, _, h.advance .finished hquiet (by rw [hsame]; exact h.shared) hserial
          h.planned hnodup (fun a => ?_) (fun a ha => ha.elim) (fun a _ => ?_)
          (fun a ha => (hnone ha).elim) (fun a ha => (hnone ha).elim) hcounted ⟨x, hx, ?_⟩⟩
        · rw [hlocks]
          exact ⟨fun hmem => .inr ⟨hmem, hnone⟩, fun hmem => (hmem.resolve_left id).1⟩
        · rw [hsame]
          exact ⟨.refl a _, .refl a _⟩
        · exact List.mem_append_right _ (List.mem_singleton_self _)
  | lock a =>
      have hfree : ∀ {b}, a = b → b ∉ w.locks.held := fun hab => hab ▸ hready
      refine ⟨_, _, _, h.advance (.inside a) hquiet h.shared h.serial h.planned h.nodup
        (fun b => ?_) (fun b hb => .inr (hfree hb)) (fun b _ => ⟨.refl b _, .refl b _⟩)
        (fun b hb => (hnone hb).elim) (fun b hb => (hnone hb).elim)
        (fun j _ => ⟨fun _ hmem => hmem, fun hmem => hmem⟩)
        ⟨hnot, (hnear w.store h.shared).1, fun s' hs' _ => (hnear s' hs').2⟩⟩
      rw [World.mem_held_take_lock hready]
      exact or_congr eq_comm ⟨fun hmem => ⟨hmem, hnone⟩, And.left⟩
  | unlock a => exact hnear.elim
  | isCancelled => exact hnear.elim

/-- A program writes for the tenant whose lock it holds. -/
theorem Simulates.write {p' : Program α} (h : Simulates o whole start w ps counted left phase)
    (hholds : ∀ {b}, (phase i).Holds b ↔ a = b) (hquiet : w'.Quiet)
    (hshared : w'.store.Registered o) (hlocks : w'.locks = w.locks)
    (hserial : Serial whole start counted' left') (hplanned : left'.Registered o)
    (hnodup : (counted'.map Prod.fst).Nodup)
    (hothers : ∀ b ≠ a, w'.store.SameFor b w.store ∧ left'.SameFor b left)
    (halike : w'.store.AlikeFor a left')
    (hcounted : ∀ j ≠ i, (∀ x, (j, x) ∈ counted → (j, x) ∈ counted') ∧
      (j ∈ counted'.map Prod.fst → j ∈ counted.map Prod.fst))
    (hstands : Stands o (whole i) w'.store left' counted' i p' (.ahead a)) :
    Simulates o whole start w' (Function.update ps i p') counted' left'
      (Function.update phase i (.ahead a)) := by
  refine h.advance (.ahead a) hquiet hshared hserial hplanned hnodup (fun b => ?_)
    (fun b hb => .inl (hholds.mpr hb)) (fun b hb => hothers b fun hba => hb (hholds.mpr hba.symm))
    (fun b hb hne => ?_) (fun b hb => hholds.mp hb ▸ halike) hcounted hstands
  · rw [hlocks, hholds]
    constructor
    · exact fun hmem => (Decidable.em (a = b)).imp_right fun hne => ⟨hmem, hne⟩
    · exact fun hmem => hmem.elim (fun hab => (h.locks b).mpr ⟨i, hholds.mpr hab⟩) And.left
  · exact (hne (by rw [hholds.mp hb])).elim

/-- A program gives the lock of its tenant back, when all that it has written counts as done. -/
theorem Simulates.leave {x : α} (h : Simulates o whole start w ps counted left phase)
    (hholds : ∀ {b}, (phase i).Holds b ↔ a = b) (hserial : Serial whole start counted' left)
    (hnodup : (counted'.map Prod.fst).Nodup) (hsame : w.store.SameFor a left)
    (hcounted : ∀ j ≠ i, (∀ x, (j, x) ∈ counted → (j, x) ∈ counted') ∧
      (j ∈ counted'.map Prod.fst → j ∈ counted.map Prod.fst))
    (hx : (i, x) ∈ counted') :
    Simulates o whole start (w.take (.unlock a)).2 (Function.update ps i (.done x)) counted' left
      (Function.update phase i .finished) := by
  refine h.advance .finished (h.quiet.take _).2.2 h.shared hserial h.planned hnodup (fun b => ?_)
    (fun b hb => hb.elim) (fun b _ => ⟨.refl b _, .refl b _⟩)
    (fun b hb _ => hholds.mp hb ▸ hsame) (fun b _ => h.alike b) hcounted ⟨x, rfl, hx⟩
  rw [hholds]
  change b ∈ (w.locks.release a).held ↔ False ∨ b ∈ w.locks.held ∧ ¬a = b
  rw [LockTable.mem_held_release, false_or, ne_comm]

/-- A program in its section goes on reading, comes to its first write, or leaves without one. -/
theorem Simulates.step_inside (h : Simulates o whole start w ps counted left phase)
    (hphase : phase i = .inside a) (hp : ps i = .step st next) :
    ∃ counted' left' phase', Simulates o whole start (w.take st).2
      (Function.update ps i (next (w.take st).1)) counted' left' phase' := by
  obtain ⟨hreply, hstore, hquiet⟩ := h.quiet.take st
  have hsame := h.same_of_inside hphase
  have hstands := h.stands i
  rw [hphase, hp] at hstands
  obtain ⟨hnot, hsection, hout⟩ := hstands
  have hrun : left.run (whole i) = left.run (.step st next) := hout left h.planned hsame
  have hserial := h.serial.next i
  rw [hrun] at hserial
  have hholds : ∀ {b}, (phase i).Holds b ↔ a = b := by
    intro b
    rw [hphase]
    exact Iff.rfl
  obtain ⟨hnodup, hcounted⟩ := nodup_count h.nodup hnot (left.run (.step st next)).1
  cases hsection.step with
  | leaves x =>
      exact ⟨_, _, _, h.leave hholds hserial hnodup hsame hcounted
        (List.mem_append_right _ (List.mem_singleton_self _))⟩
  | isCancelled hrest =>
      refine ⟨counted, left, phase, h.look hquiet hstore rfl ?_⟩
      rw [hphase, hreply]
      exact ⟨hnot, hrest, hout⟩
  | @reads c _ _ _ hc hstill hrest =>
      refine ⟨counted, left, phase,
        h.look hquiet (hstore.trans (hstill _)) (h.quiet.locks_take_call c) ?_⟩
      rw [hphase, hreply]
      refine ⟨hnot, hrest, fun s' hs' hsame' => ?_⟩
      rw [hout s' hs' hsame', Store.run, Store.take, hstill, ← (hsame'.reply h.shared hs' hc).1]
      rfl
  | @writes c _ _ _ hc _ hrest =>
      -- the program counts as done from here on, and all that it does has been done in `left`
      obtain ⟨hresult, hend⟩ := hsection.run_same h.shared h.planned hsame
      have hsection' := hsection.of_same h.shared h.planned hsame
      have hplanned := hsection'.registered_run h.planned
      refine ⟨_, _, _, h.write hholds hquiet ?_ (h.quiet.locks_take_call c) hserial hplanned hnodup
        (fun b hb => ?_) ?_ hcounted ?_⟩
      · rw [hstore]
        exact h.shared.reply hc
      · rw [hstore]
        exact ⟨h.shared.sameFor_reply hc hb, hsection'.sameFor_run h.planned hb⟩
      · rw [hstore]
        exact hrest.alikeFor_run.symm.trans hend.alike
      · rw [hreply, hstore]
        refine ⟨hrest, ?_, hend⟩
        rw [← hresult]
        exact List.mem_append_right _ (List.mem_singleton_self _)

/-- A program that has written goes on, or leaves its section. -/
theorem Simulates.step_ahead (h : Simulates o whole start w ps counted left phase)
    (hphase : phase i = .ahead a) (hp : ps i = .step st next) :
    ∃ counted' left' phase', Simulates o whole start (w.take st).2
      (Function.update ps i (next (w.take st).1)) counted' left' phase' := by
  obtain ⟨hreply, hstore, hquiet⟩ := h.quiet.take st
  have hstands := h.stands i
  rw [hphase, hp] at hstands
  obtain ⟨hsection, hmem, hend⟩ := hstands
  have hholds : ∀ {b}, (phase i).Holds b ↔ a = b := by
    intro b
    rw [hphase]
    exact Iff.rfl
  have hkept : ∀ j ≠ i, (∀ x, (j, x) ∈ counted → (j, x) ∈ counted) ∧
      (j ∈ counted.map Prod.fst → j ∈ counted.map Prod.fst) := fun _ _ => ⟨fun _ => id, id⟩
  cases hsection.step with
  | leaves x => exact ⟨_, _, _, h.leave hholds h.serial h.nodup hend hkept hmem⟩
  | isCancelled hrest =>
      refine ⟨counted, left, phase, h.look hquiet hstore rfl ?_⟩
      rw [hphase, hreply]
      exact ⟨hrest, hmem, hend⟩
  | @reads c _ _ _ hc hstill hrest =>
      refine ⟨counted, left, phase,
        h.look hquiet (hstore.trans (hstill _)) (h.quiet.locks_take_call c) ?_⟩
      rw [Store.run, Store.take, hstill] at hmem hend
      rw [hphase, hreply]
      exact ⟨hrest, hmem, hend⟩
  | @writes c _ _ _ hc halike hrest =>
      refine ⟨_, _, _, h.write hholds hquiet ?_ (h.quiet.locks_take_call c) h.serial h.planned
        h.nodup (fun b hb => ?_) ?_ hkept ?_⟩
      · rw [hstore]
        exact h.shared.reply hc
      · rw [hstore]
        exact ⟨h.shared.sameFor_reply hc hb, .refl b _⟩
      · rw [hstore]
        exact (halike rfl).trans (h.alike _)
      · rw [hreply, hstore]
        exact ⟨hrest, hmem, hend⟩

/-- With every step that any of the programs takes, they have come as far side by side as some of them
have come one after the other. -/
theorem Simulates.step (h : Simulates o whole start w ps counted left phase)
    (hp : ps i = .step st next) (hready : w.Ready st) :
    ∃ counted' left' phase', Simulates o whole start (w.take st).2
      (Function.update ps i (next (w.take st).1)) counted' left' phase' := by
  cases hphase : phase i with
  | outside => exact h.step_outside hphase hp hready
  | inside a => exact h.step_inside hphase hp
  | ahead a => exact h.step_ahead hphase hp
  | finished =>
      have hstands := h.stands i
      rw [hphase, hp] at hstands
      obtain ⟨x, hx, -⟩ := hstands
      cases hx

/-! ### Whole runs -/

variable {results : Fin n → α}

/-- However the programs take their steps, in the end they have come as far side by side as some of
them have come one after the other. -/
theorem World.Interleaving.simulates (hrun : World.Interleaving w ps w' results)
    (h : Simulates o whole start w ps counted left phase) :
    ∃ counted' left' phase',
      Simulates o whole start w' (fun i => .done (results i)) counted' left' phase' := by
  induction hrun generalizing counted left phase with
  | finished hdone =>
      rw [funext hdone] at h
      exact ⟨counted, left, phase, h⟩
  | step i hp hready _ ih =>
      obtain ⟨_, _, _, h'⟩ := h.step hp hready
      exact ih h'

/-- A program that is done counts, unless all that it has done was to read. -/
theorem Simulates.counts
    (h : Simulates o whole start w (fun i => .done (results i)) counted left phase) (i : Fin n) :
    (i, results i) ∈ counted ∨
      i ∉ counted.map Prod.fst ∧ left.run (whole i) = (results i, left) := by
  have hstands := h.stands i
  cases hphase : phase i with
  | outside =>
      rw [hphase] at hstands
      exact .inr ⟨hstands.1, hstands.2 left h.planned⟩
  | inside a =>
      rw [hphase] at hstands
      cases hstands.2.1.step
  | ahead a =>
      rw [hphase] at hstands
      cases hstands.1.step
  | finished =>
      rw [hphase] at hstands
      obtain ⟨x, hx, hmem⟩ := hstands
      cases hx
      exact .inl hmem

/-- When all programs are done, none of them is still writing. -/
theorem Simulates.same_of_done
    (h : Simulates o whole start w (fun i => .done (results i)) counted left phase) (a : TenantId) :
    w.store.SameFor a left := by
  refine h.same a fun i hphase => ?_
  have hstands := h.stands i
  rw [hphase] at hstands
  cases hstands.1.step

/-- Programs that only read can run after the others, in any order. -/
theorem Serial.append_idle {idle : List (Fin n)} (h : Serial whole start counted left)
    (hidle : ∀ i ∈ idle, left.run (whole i) = (results i, left)) :
    Serial whole start (counted ++ idle.map fun i => (i, results i)) left := by
  induction idle generalizing counted with
  | nil => simpa using h
  | cons i idle ih =>
      obtain ⟨hi, hrest⟩ := List.forall_mem_cons.mp hidle
      have hnext := h.next i
      rw [hi] at hnext
      simpa using ih hnext hrest

/-- However programs take their steps side by side, there is an order in which they end alike when
they run one after the other, and every tenant finds the same afterwards. -/
theorem World.Interleaving.serial (hrun : World.Interleaving w whole w' results) (hquiet : w.Quiet)
    (hlocks : w.locks.held = []) (hw : w.store.Registered o)
    (hwhole : ∀ i, (whole i).Approaches o fun s => s.run (whole i)) :
    ∃ (order : List (Fin n)) (left : Store), order.Perm (List.finRange n) ∧
      Serial whole w.store (order.map fun i => (i, results i)) left ∧
      ∀ a, w'.store.SameFor a left := by
  have hstart : Simulates o whole w.store w whole [] w.store fun _ => .outside :=
    ⟨hquiet, hw, .start, hw, List.nodup_nil, fun a => by simp [hlocks, Phase.Holds],
      fun i j a hi => hi.elim, fun a _ => .refl a _, fun a => .refl a _,
      fun i => ⟨List.not_mem_nil, hwhole i⟩⟩
  obtain ⟨counted, left, phase, hend⟩ := hrun.simulates hstart
  have hresults : ∀ p ∈ counted, (p.1, results p.1) = p := by
    intro p hp
    rcases hend.counts p.1 with hmem | ⟨hnot, -⟩
    · exact List.inj_on_of_nodup_map hend.nodup hmem hp rfl
    · exact (hnot (List.mem_map_of_mem hp)).elim
  have hcounted : (counted.map Prod.fst).map (fun i => (i, results i)) = counted := by
    rw [List.map_map]
    exact (List.map_congr_left hresults).trans (List.map_id counted)
  obtain ⟨idle, hnodup, hidle⟩ : ∃ idle : List (Fin n), idle.Nodup ∧
      ∀ i, i ∈ idle ↔ i ∉ counted.map Prod.fst :=
    ⟨(List.finRange n).filter (· ∉ counted.map Prod.fst), (List.nodup_finRange n).filter _, by simp⟩
  refine ⟨counted.map Prod.fst ++ idle, left, ?_, ?_, hend.same_of_done⟩
  · refine (List.perm_ext_iff_of_nodup ?_ (List.nodup_finRange n)).mpr fun i => ?_
    · exact hend.nodup.append hnodup fun i hi hi' => (hidle i).mp hi' hi
    · rw [List.mem_append, hidle]
      exact iff_of_true (em _) (List.mem_finRange i)
  · rw [List.map_append, hcounted]
    refine hend.serial.append_idle fun i hi => ?_
    rcases hend.counts i with hmem | ⟨-, hrun⟩
    · exact ((hidle i).mp hi (List.mem_map_of_mem hmem)).elim
    · exact hrun

end

end Overhaul
