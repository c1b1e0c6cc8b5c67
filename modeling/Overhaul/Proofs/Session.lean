import Mathlib.Data.List.Chain
import Overhaul.Proofs.Operations

/-!
# Sessions

Requests reach the service one after the other, each with an actor, inputs and mishaps of its own,
and each finds what the one before it left. `World.session` lists all worlds that a session passes
through, those in the middle of a request too; `World.after` is the one that it leaves. Main
statement: what every request keeps wherever it passes through holds throughout a session.
-/

namespace Overhaul

/-- A wish of a caller as it reaches the service, and what is to go wrong with it: calls fail or
answer that there is nothing, and the caller gives up, as the faults say. -/
structure Request where
  setup : Setup
  ctx : Context
  operation : Operation
  /-- The caller has given up beforehand. -/
  cancelled : Bool := false
  faults : CallKind → List Fault := fun _ => []
  /-- No call shows a task in a state that it is not in. -/
  honest : ∀ kind, ∀ f ∈ faults kind, f.Within False := by simp

/-- Where nothing goes wrong, no call shows a task in a state that it is not in. -/
theorem Request.honest_of_nil (_ : CallKind) : ∀ f ∈ ([] : List Fault), f.Within False := by simp

/-- What the service does for a request. -/
def Request.service (q : Request) : Service Answer := q.operation.service q.setup q.ctx

/-- A request asks for a move, or it writes no whole record and adds nothing to the history. -/
theorem Request.moves_or_spares (q : Request) : (∃ m, q.operation = .reschedule m) ∨
    .putTask ∉ q.operation.kinds ∧ .addChange ∉ q.operation.kinds := by
  cases q.operation with
  | reschedule m => exact .inl ⟨m, rfl⟩
  | _ => exact .inr (by simp [Operation.kinds])

namespace World

/-- The world in which a request is met. -/
def facing (w : World) (q : Request) : World :=
  { w with cancelled := q.cancelled, faults := q.faults }

/-- How a request ends, and the world that it leaves. -/
def handle (w : World) (q : Request) : Except Failure Answer × World :=
  (w.facing q).runOperation q.setup q.ctx q.operation

/-- The steps that are taken for a request. -/
def transcriptOf (w : World) (q : Request) : List Exchange := (w.facing q).heard q.service

/-- The world that requests leave. -/
def after (w : World) (qs : List Request) : World := qs.foldl (fun w q => (w.handle q).2) w

/-- The steps that are taken for each of several requests. -/
def transcripts (w : World) : List Request → List (List Exchange)
  | [] => []
  | q :: qs => w.transcriptOf q :: (w.handle q).2.transcripts qs

/-- How each of several requests ends. -/
def replies (w : World) : List Request → List (Except Failure Answer)
  | [] => []
  | q :: qs => (w.handle q).1 :: (w.handle q).2.replies qs

/-- The worlds that requests pass through, those in the middle of a request too. -/
def session (w : World) : List Request → List World
  | [] => [w]
  | q :: qs => trail q.service.run (w.facing q) ++ (w.handle q).2.session qs

theorem within_facing (w : World) (q : Request) : (w.facing q).Within fun _ => False := q.honest

/-- What is done for a request is one of the courses of its service. -/
theorem course_handle (w : World) (q : Request) :
    Service.Course (fun _ => False) q.service w.store (w.transcriptOf q) (w.handle q).1
      (w.handle q).2.store :=
  course_serve (within_facing w q) q.service

/-- The steps that are taken for a request are idle, or calls of its operation's kinds. -/
theorem idleOr_transcriptOf (w : World) (q : Request) :
    ∀ x ∈ w.transcriptOf q, x.step.IdleOr q.operation.kinds :=
  (course_handle w q).only (q.operation.only_service q.setup q.ctx)

/-- A request for a move ends as moves may end. -/
theorem ends_of_reschedule (w : World) {q : Request} {m : Move} (hop : q.operation = .reschedule m) :
    ∃ r, m.Ends False w.store q.ctx (w.transcriptOf q) r (w.handle q).2.store := by
  have hcourse := course_handle w q
  rw [Request.service, hop] at hcourse
  obtain ⟨r, -, hcourse⟩ := Service.course_map hcourse
  exact ⟨r, Service.course_reschedule hcourse⟩

theorem after_append (w : World) (qs rs : List Request) :
    w.after (qs ++ rs) = (w.after qs).after rs := List.foldl_append

/-- The last of several requests finds what those before it left. -/
theorem replies_concat (w : World) (qs : List Request) (q : Request) :
    w.replies (qs ++ [q]) = w.replies qs ++ [((w.after qs).handle q).1] := by
  induction qs generalizing w with
  | nil => rfl
  | cons r qs ih =>
      rw [List.cons_append, replies, ih]
      rfl

theorem head?_trail {α : Type} (p : Program α) (w : World) : (trail p w).head? = some w := by
  cases p <;> rfl

theorem getLast?_trail {α : Type} (p : Program α) (w : World) :
    (trail p w).getLast? = some (run p w).2 := by
  induction p generalizing w with
  | done a => rfl
  | step s next ih =>
      rw [trail, List.getLast?_cons, ih]
      rfl

/-- Each step of a run leads from one world to the next as its exchange may, where `J` says what is
known of the store and of the exchanges that are still to come. -/
theorem isChain_trail {α : Type} {sound : CallKind → Prop} {J : List Exchange → Store → Prop}
    {R : Store → Store → Prop}
    (hstep : ∀ x log s s', x.Carries sound s s' → J (x :: log) s → R s s' ∧ J log s') {w : World}
    (hw : w.Within sound) (p : Program α) (h : J (transcript p w) w.store) :
    (trail p w).IsChain fun u v => R u.store v.store := by
  induction p generalizing w with
  | done a => exact List.isChain_singleton w
  | step st next ih =>
      obtain ⟨hr, hrest⟩ := hstep _ _ _ _ (carries_take hw st) h
      refine List.isChain_cons.mpr ⟨?_, ih _ (hw.faults (faults_take w st)) hrest⟩
      intro v hv
      rw [head?_trail] at hv
      cases hv
      exact hr

/-- What leads from each world that a run passes through to the next leads from the first to the
last. -/
theorem rel_of_isChain {α : Type} {R : World → World → Prop} (hrefl : ∀ u, R u u)
    (htrans : ∀ {u₁ u₂ u₃}, R u₁ u₂ → R u₂ u₃ → R u₁ u₃) {p : Program α} {w : World}
    (h : (trail p w).IsChain R) : R w (run p w).2 := by
  induction p generalizing w with
  | done a => exact hrefl w
  | step st next ih =>
      obtain ⟨hfirst, hrest⟩ := List.isChain_cons.mp h
      exact htrans (hfirst _ (head?_trail _ _)) (ih _ hrest)

/-- What every step can only lead on to, a run has behind it at each point, and ahead of it. -/
theorem between {α : Type} {sound : CallKind → Prop} {R : Store → Store → Prop}
    (hrefl : ∀ s, R s s) (htrans : ∀ {s₁ s₂ s₃}, R s₁ s₂ → R s₂ s₃ → R s₁ s₃)
    (hstep : ∀ (x : Exchange) (s s' : Store), x.Carries sound s s' → R s s') {w : World}
    (hw : w.Within sound) (p : Program α) :
    ∀ v ∈ trail p w, R w.store v.store ∧ R v.store (run p w).2.store := by
  have hahead : ∀ {w : World}, w.Within sound → ∀ p : Program α, R w.store (run p w).2.store :=
    fun hw p => (course_run hw p).keeps (fun x _ _ _ hx h => htrans h (hstep x _ _ hx)) (hrefl _)
  induction p generalizing w with
  | done a =>
      intro v hv
      rw [List.mem_singleton.mp hv]
      exact ⟨hrefl _, hrefl _⟩
  | step st next ih =>
      intro v hv
      rcases List.mem_cons.mp hv with rfl | hv
      · exact ⟨hrefl _, hahead hw _⟩
      · obtain ⟨hbehind, hrest⟩ := ih _ (hw.faults (faults_take w st)) v hv
        exact ⟨htrans (hstep _ _ _ (carries_take hw st)) hbehind, hrest⟩

/-- The world that a session leaves is the last one that it passes through. -/
theorem after_mem_session (w : World) (qs : List Request) : w.after qs ∈ w.session qs := by
  induction qs generalizing w with
  | nil => exact List.mem_singleton_self w
  | cons q qs ih => exact List.mem_append_right _ (ih _)

theorem store_of_head?_session {w v : World} {qs : List Request} (h : v ∈ (w.session qs).head?) :
    v.store = w.store := by
  cases qs with
  | nil =>
      cases h
      rfl
  | cons q qs =>
      rw [session, List.head?_append, head?_trail] at h
      cases h
      rfl

/-- What leads from each world to the next while a request is dealt with does so throughout a
session, as the next request finds the store that the one before left. -/
theorem isChain_session {R : World → World → Prop} (hsame : ∀ u v : World, u.store = v.store → R u v)
    {w : World} {qs : List Request}
    (h : ∀ before q after, qs = before ++ q :: after →
      (trail q.service.run ((w.after before).facing q)).IsChain R) : (w.session qs).IsChain R := by
  induction qs generalizing w with
  | nil => exact List.isChain_singleton w
  | cons q qs ih =>
      refine List.isChain_append.mpr ⟨h [] q qs rfl, ih ?_, ?_⟩
      · rintro before q' after rfl
        exact h (q :: before) q' after rfl
      · intro u hu v hv
        rw [getLast?_trail] at hu
        cases hu
        exact hsame _ _ (store_of_head?_session hv).symm

/-- What each of the requests keeps wherever it passes through holds throughout their session. -/
theorem forall_session_of_mem {P : World → Prop} {qs : List Request}
    (hkeep : ∀ q ∈ qs, ∀ u, P u → ∀ v ∈ trail q.service.run (u.facing q), P v) {w : World}
    (hw : P w) : ∀ v ∈ w.session qs, P v := by
  induction qs generalizing w with
  | nil =>
      intro v hv
      rwa [List.mem_singleton.mp hv]
  | cons q qs ih =>
      obtain ⟨hq, hqs⟩ := List.forall_mem_cons.mp hkeep
      intro v hv
      rcases List.mem_append.mp hv with hv | hv
      · exact hq w hw v hv
      · exact ih hqs (hq w hw _ (run_mem_trail q.service.run (w.facing q))) v hv

/-- What every request keeps wherever it passes through holds throughout a session. -/
theorem forall_session {P : Store → Prop}
    (hkeep : ∀ (w : World) (q : Request), P w.store →
      ∀ v ∈ trail q.service.run (w.facing q), P v.store)
    {w : World} (hw : P w.store) (qs : List Request) : ∀ v ∈ w.session qs, P v.store :=
  forall_session_of_mem (P := fun u => P u.store) (fun q _ u => hkeep u q) hw

end World

end Overhaul
