import Overhaul.Proofs.Reschedule.Cascade
import Overhaul.Proofs.Timestamp.Written
import Overhaul.Proofs.Timestamp.Years

/-!
# Times that UTC cannot show

A clock that is behind UTC shows times in its last hours for which UTC has no year any more, and asking
for a window that ends at such a time gives no answer at all. `Window.Settles` says so of what a window
comes to. Main statements: this is the only way in which a window can fail to be a window in UTC or to
be refused, for new tasks, for tasks with another window and for moves (`windows_settle`), and it does
happen (`not_windows_answered`).
-/

namespace Overhaul

/-! ### Windows and tasks -/

theorem Timestamp.inUtc?_of_offset_eq_zero {t : Timestamp} (h : t.offset = 0) : t.inUtc? = some t :=
  inUtc?_eq_some_iff.mpr ⟨rfl, h⟩

theorem Timestamp.toUtc_of_offset_eq_zero {t : Timestamp} (h : t.offset = 0) : t.toUtc = .ok t :=
  toUtc_eq_ok_iff.mpr (inUtc?_of_offset_eq_zero h)

namespace Window

/-- A window gives no answer when it is not empty and UTC cannot show one of its ends. -/
theorem between_eq_beyondUtc_iff {a b : Timestamp} : Window.between a b = .error .beyondUtc ↔
    a.unixNanos < b.unixNanos ∧ (a.inUtc? = none ∨ b.inUtc? = none) := by
  unfold Window.between Timestamp.toUtc
  by_cases h : b.unixNanos ≤ a.unixNanos
  · simp [h, throw, throwThe, MonadExceptOf.throw, bind, Except.bind]
  · have hlt : a.unixNanos < b.unixNanos := by omega
    cases a.inUtc? <;> cases b.inUtc? <;>
      simp [h, hlt, bind, Except.bind, pure, Except.pure]

/-- There is a window when it is not empty and UTC can show both its ends. -/
theorem exists_between_iff {a b : Timestamp} : (∃ w, Window.between a b = .ok w) ↔
    a.unixNanos < b.unixNanos ∧ Window.between a b ≠ .error .beyondUtc := by
  constructor
  · rintro ⟨w, hw⟩
    rw [hw]
    exact ⟨(between_eq_ok_iff.mp hw).1, by simp⟩
  · rintro ⟨hlt, hnot⟩
    rw [Ne, between_eq_beyondUtc_iff, not_and, not_or] at hnot
    obtain ⟨start, hstart⟩ := Option.ne_none_iff_exists'.mp (hnot hlt).1
    obtain ⟨finish, hfinish⟩ := Option.ne_none_iff_exists'.mp (hnot hlt).2
    exact ⟨⟨start, finish⟩, between_eq_ok_iff.mpr ⟨hlt, hstart, hfinish⟩⟩

/-- The window between two times comes to this: it is a window in UTC, of positive length and with the
ends that were asked for, or it is refused, unless it would have to end in a year that UTC does not
show. -/
structure Settles (start finish : Timestamp) (r : Except Failure Window) : Prop where
  beyond : r = .error .beyondUtc ↔
    start.unixNanos < finish.unixNanos ∧ 9999 < Timestamp.yearOn finish.unixNanos 0
  inUtc : ∀ w, r = .ok w → w.start.offset = 0 ∧ w.finish.offset = 0
  positive : ∀ w, r = .ok w → w.start.unixNanos < w.finish.unixNanos
  same : ∀ w, r = .ok w →
    w.start.unixNanos = start.unixNanos ∧ w.finish.unixNanos = finish.unixNanos

/-- What comes to the same window, or is refused for another reason, settles in the same way. -/
theorem Settles.refine {start finish : Timestamp} {e r : Except Failure Window}
    (h : Settles start finish e) (hbeyond : r = .error .beyondUtc ↔ e = .error .beyondUtc)
    (hok : ∀ w, r = .ok w → e = .ok w) : Settles start finish r where
  beyond := hbeyond.trans h.beyond
  inUtc w hw := h.inUtc w (hok w hw)
  positive w hw := h.positive w (hok w hw)
  same w hw := h.same w (hok w hw)

theorem settles_between {start finish : Timestamp} (hstart : start.Writable)
    (hfinish : finish.Writable) : Settles start finish (Window.between start finish) := by
  refine ⟨?_, ?_, ?_, ?_⟩
  · rw [between_eq_beyondUtc_iff]
    refine and_congr_right fun hlt => ?_
    rw [Timestamp.inUtc?_eq_none_iff_of_writable hstart,
      Timestamp.inUtc?_eq_none_iff_of_writable hfinish]
    -- the end of the window is the later one of the two
    exact or_iff_right_of_imp fun hlate => hlate.trans_le (Timestamp.yearOn_mono hlt.le 0)
  all_goals
    intro w hw
    obtain ⟨hlt, hws, hwf⟩ := between_eq_ok_iff.mp hw
    rw [Timestamp.inUtc?_eq_some_iff] at hws hwf
    omega

end Window

/-- The window for which the task is planned. -/
def Task.window (t : Task) : Window := ⟨t.start, t.finish⟩

/-- The window into which the task was moved. -/
def ScheduleChange.window (c : ScheduleChange) : Window := ⟨c.newStart, c.newFinish⟩

/-- A new task comes to what its window comes to. -/
theorem Task.map_window_ofPlan (id : TaskId) (plan : TaskPlan) {now : Timestamp}
    (hnow : now.offset = 0) :
    (Task.ofPlan id plan now).map Task.window = Window.between plan.start plan.finish := by
  rw [Task.ofPlan, Timestamp.toUtc_of_offset_eq_zero hnow]
  cases Window.between plan.start plan.finish <;> rfl

/-- A task with another window comes to what that window comes to. -/
theorem Task.map_window_withWindow (t : Task) (start finish : Timestamp) {now : Timestamp}
    (hnow : now.offset = 0) :
    (t.withWindow start finish now).map Task.window = Window.between start finish := by
  rw [Task.withWindow, Timestamp.toUtc_of_offset_eq_zero hnow]
  cases Window.between start finish <;> rfl

/-! ### Programs -/

/-- Whatever its steps tell, the program is done with something in `Q`. -/
def Program.Ends {α : Type} (Q : α → Prop) : Program α → Prop
  | .done a => Q a
  | .step _ next => ∀ r, (next r).Ends Q

/-- Whatever its steps tell, the service does not come upon a time that UTC cannot show, and succeeds
with answers in `Q` only. -/
def Service.Timely {α : Type} (Q : α → Prop) (p : Service α) : Prop :=
  p.run.Ends fun r => r ≠ .error .beyondUtc ∧ ∀ a, r = .ok a → Q a

section

variable {α β : Type}

namespace Program

variable {P : α → Prop} {Q : β → Prop}

theorem Ends.bind {p : Program α} {f : α → Program β} (hp : p.Ends P)
    (hf : ∀ a, P a → (f a).Ends Q) : (p >>= f).Ends Q := by
  induction p with
  | done a => exact hf a hp
  | step st next ih => exact fun r => ih r (hp r)

/-- Every run of the program ends so. -/
theorem Ends.run {p : Program α} (hp : p.Ends P) (w : World) : P (World.run p w).1 := by
  induction p generalizing w with
  | done a => exact hp
  | step st next ih => exact ih _ (hp _) _

end Program

namespace Service

variable {Q : α → Prop}

theorem timely_pure {a : α} (h : Q a) : Timely Q (pure a) := by
  refine ⟨by rintro ⟨⟩, ?_⟩
  rintro _ ⟨⟩
  exact h

theorem timely_throw {f : Failure} (h : f ≠ .beyondUtc) : Timely Q (throw f) := by
  refine ⟨fun hf => h (Except.error.inj hf), ?_⟩
  rintro _ ⟨⟩

/-- What refuses a request for a reason has come upon no such time. -/
theorem timely_refuse (cause : Error) : Timely Q (throw (.error cause)) :=
  timely_throw (by rintro ⟨⟩)

theorem timely_ofExcept {e : Except Failure α} (h : e ≠ .error .beyondUtc)
    (hQ : ∀ a, e = .ok a → Q a) : Timely Q (ofExcept e) :=
  ⟨h, hQ⟩

/-- What is at hand needs no time in UTC. -/
theorem timely_ok_bind {b : β} {f : β → Service α} (h : Timely Q (f b)) :
    Timely Q (ofExcept (.ok b) >>= f) := h

theorem timely_bind {P : β → Prop} {p : Service β} {f : β → Service α} (hp : Timely P p)
    (hf : ∀ b, P b → Timely Q (f b)) : Timely Q (p >>= f) := by
  refine Program.Ends.bind hp fun r hr => ?_
  cases r with
  | ok b => exact hf b (hr.2 b rfl)
  | error e => exact timely_throw fun he => hr.1 (he ▸ rfl)

theorem timely_guard {c : Prop} [Decidable c] {cause : Error} {k : Unit → Service α}
    (h : Timely Q (k ())) : Timely Q (if c then throw (.error cause) >>= k else k ()) := by
  split
  · exact timely_refuse cause
  · exact h

theorem timely_outcome {p : Service α} (h : Timely Q p) :
    Timely (fun r => r ≠ .error .beyondUtc ∧ ∀ a, r = .ok a → Q a) p.outcome := by
  change Program.Ends _ (Except.ok <$> p.run)
  rw [← bind_pure_comp]
  exact Program.Ends.bind h fun r hr => timely_pure hr

theorem timely_step (st : Step) :
    Timely (fun _ => True) (ExceptT.lift (Program.only st) : Service st.Reply) :=
  fun _ => timely_pure trivial

theorem timely_locked {tenant : TenantId} {p : Service α} (h : Timely Q p) :
    Timely Q (locked tenant p) := by
  refine timely_bind (timely_step (.lock tenant)) fun _ _ => ?_
  refine timely_bind (timely_outcome h) fun r hr => ?_
  exact timely_bind (timely_step (.unlock tenant)) fun _ _ => timely_ofExcept hr.1 hr.2

theorem timely_attempt (c : Call) : Timely (fun _ => True) (attempt c) :=
  timely_step (.call c)

theorem timely_ask (c : Call) : Timely (fun _ => True) (ask c) := by
  refine timely_bind (timely_attempt c) fun r _ => ?_
  cases r with
  | ok v => exact timely_pure trivial
  | error cause => exact timely_refuse (.store cause)

theorem timely_ensureActive : Timely (fun _ => True) ensureActive := by
  refine timely_bind (timely_step .isCancelled) fun cancelled _ => ?_
  cases cancelled with
  | true => exact timely_refuse _
  | false => exact timely_pure trivial

theorem timely_visibleTask (ctx : Context) (id : TaskId) (missing : TaskId → Missing) :
    Timely (fun _ => True) (visibleTask ctx id missing) := by
  refine timely_bind (timely_ask _) fun found _ => ?_
  cases found with
  | none => exact timely_refuse _
  | some t => exact timely_pure trivial

theorem timely_discard {P : β → Prop} {p : Service β} (h : Timely P p) :
    Timely (fun _ => True) (discard p : Service PUnit) := by
  change Timely _ (Function.const β PUnit.unit <$> p)
  rw [← bind_pure_comp]
  exact timely_bind h fun _ _ => timely_pure trivial

/-! ### Moves -/

theorem timely_ensureOpen (t : Task) : Timely (fun _ => True) (ensureOpen t) := by
  unfold ensureOpen
  split
  · exact timely_refuse _
  · exact timely_pure trivial

/-- To plan a cascade no time has to be shown in UTC but the one at which that is done. -/
theorem timely_plan (tenant : TenantId) (nanos : Int) {now : Timestamp} (hnow : now.offset = 0)
    (seen : Seen .task) (stack : List TaskId) (pending : List Dependency) :
    Timely (fun _ => True) (plan tenant nanos now seen stack pending) := by
  have hshifted : ∀ t : Task, t.shifted nanos now ≠ .error .beyondUtc := by
    intro t
    rw [Task.shifted, Timestamp.toUtc_of_offset_eq_zero hnow]
    split <;> rintro ⟨⟩
  induction seen, stack, pending using plan.induct tenant with
  | case1 seen stack d pending hseen ih => rw [plan, dif_pos hseen]; exact ih
  | case2 seen stack d pending hseen _ ih₁ ih₂ =>
      rw [plan, dif_neg hseen]
      refine timely_bind (timely_ask _) fun found _ => ?_
      cases found with
      | none => exact ih₁
      | some t =>
          dsimp only
          split
          · exact ih₁
          · refine timely_bind (timely_ofExcept (hshifted t) fun _ _ => trivial) fun moved _ => ?_
            exact timely_bind ih₂ fun rest _ => timely_pure trivial
  | case3 seen => rw [plan]; exact timely_pure trivial
  | case4 seen task stack ih => rw [plan]; exact timely_bind (timely_ask _) fun found _ => ih found

theorem timely_record (setup : Setup) (change : ScheduleChange) :
    Timely (fun _ => True) (record setup change) := by
  refine timely_bind (timely_ask _) fun _ _ => ?_
  unfold publish
  split
  · exact timely_discard (timely_attempt _)
  · exact timely_pure trivial

theorem timely_writeCascade (shifts : List Shift) :
    Timely (fun r => r.2 ≠ some .beyondUtc) (writeCascade shifts) := by
  induction shifts with
  | nil => exact timely_pure (by rintro ⟨⟩)
  | cons shift rest ih =>
      refine timely_bind (timely_outcome (timely_bind timely_ensureActive fun _ _ =>
        timely_ask _)) fun r hr => ?_
      cases r with
      | error f => exact timely_pure fun hf => hr.1 (congrArg _ (Option.some.inj hf))
      | ok _ => exact timely_bind ih fun r hr => timely_pure hr

theorem timely_settle (setup : Setup) (root : Task) (change : ScheduleChange) (written : List Task) :
    Timely (fun _ => True) (settle setup root change written) := by
  have hback : ∀ tasks, Timely (fun _ => True) (writeBack tasks) := by
    intro tasks
    induction tasks with
    | nil => exact timely_pure trivial
    | cons t rest ih => exact timely_bind (timely_discard (timely_attempt _)) fun _ _ => ih
  unfold settle
  split
  · exact timely_discard (timely_outcome (timely_record _ _))
  · exact hback _

/-- The window of a move that was found to be one is in UTC already. -/
theorem timely_draft {ctx : Context} (hnow : ctx.clock.offset = 0) (m : Move) {window : Window}
    (hwindow : Window.between window.start window.finish = .ok window) (reason : String) :
    Timely (fun d => d.change.window = window) (draft ctx m window reason) := by
  have hrest : ∀ (t : Task) (shifts : List Shift) (change : ScheduleChange),
      change.window = window → Timely (fun d => d.change.window = window) (do
        ensureActive
        let moved ← ofExcept (Task.withWindow t window.start window.finish ctx.clock)
        return ({ root := t, moved, shifts, change } : Draft)) := by
    intro t shifts change hchange
    refine timely_bind timely_ensureActive fun _ _ => ?_
    refine timely_bind (P := fun _ => True) (timely_ofExcept ?_ fun _ _ => trivial) fun moved _ =>
      timely_pure hchange
    intro hlate
    have hsame := Task.map_window_withWindow t window.start window.finish hnow
    rw [hlate, hwindow] at hsame
    cases hsame
  unfold draft
  refine timely_bind (timely_visibleTask _ _ _) fun t _ => ?_
  refine timely_bind (timely_ensureOpen t) fun _ _ => ?_
  rw [Context.now, Timestamp.toUtc_of_offset_eq_zero hnow]
  refine timely_ok_bind ?_
  dsimp only
  split
  · exact timely_bind (timely_plan _ _ hnow _ _ _) fun shifts _ => hrest _ _ _ rfl
  · exact timely_bind (P := fun _ => True) (timely_pure trivial) fun shifts _ => hrest _ _ _ rfl

theorem timely_carryOut (setup : Setup) (d : Draft) :
    Timely (fun c => c.window = d.change.window) (carryOut setup d) := by
  refine timely_bind (timely_ask _) fun _ _ => ?_
  refine timely_bind (timely_writeCascade d.shifts) fun r hr => ?_
  obtain ⟨written, failure⟩ := r
  cases failure with
  | some f => exact timely_bind (timely_settle _ _ _ _) fun _ _ => timely_throw fun hf => hr (hf ▸ rfl)
  | none => exact timely_bind (timely_record _ _) fun _ _ => timely_pure rfl

/-- A move into a window that was found to be one meets no time that UTC cannot show. -/
theorem timely_reschedule (setup : Setup) {ctx : Context} (hnow : ctx.clock.offset = 0) {m : Move}
    {window : Window} (hwindow : Window.between m.start m.finish = .ok window) :
    Timely (fun c => c.window = window) (reschedule setup ctx m) := by
  unfold reschedule
  rw [hwindow]
  refine timely_ok_bind ?_
  refine timely_guard (timely_bind (timely_visibleTask _ _ _) fun t _ => ?_)
  refine timely_guard (timely_bind (timely_ensureOpen t) fun _ _ => timely_locked ?_)
  refine timely_bind (timely_draft hnow m (Window.between_self hwindow) _) fun d hd => ?_
  rw [← hd]
  exact timely_carryOut setup d

end Service

end

namespace World

variable {ctx : Context} {m : Move}

/-- A move comes to nothing at once when its window does. -/
theorem serve_reschedule_of_error {f : Failure} (h : Window.between m.start m.finish = .error f)
    (w : World) (setup : Setup) : w.serve (Service.reschedule setup ctx m) = (.error f, w) := by
  rw [Service.reschedule, h]
  rfl

/-- Whatever goes on in the world, a move comes to what its window comes to, or is refused. -/
theorem serve_reschedule_window (hnow : ctx.clock.offset = 0) (w : World) (setup : Setup) :
    ((w.serve (Service.reschedule setup ctx m)).1 = .error .beyondUtc ↔
      Window.between m.start m.finish = .error .beyondUtc) ∧
    ∀ change, (w.serve (Service.reschedule setup ctx m)).1 = .ok change →
      Window.between m.start m.finish = .ok change.window := by
  cases hbetween : Window.between m.start m.finish with
  | error f =>
      rw [serve_reschedule_of_error hbetween]
      simp
  | ok window =>
      obtain ⟨hresult, hwindow⟩ := (Service.timely_reschedule setup hnow hbetween).run w
      refine ⟨iff_of_false hresult (by simp), fun change hserve => ?_⟩
      rw [hwindow change hserve]

end World

/-- A window is asked for between two times that were read from texts, for a new task, for another one
or by a move, and the clock is in UTC. There is such a window in UTC exactly when it would end after it
starts, and not past the last year that UTC shows; both kinds of tasks come to the same as the window,
and whatever goes on in the world, so does a move that is not refused for another reason. A window that
would end past that year has no answer, and a move into it has done nothing. -/
theorem windows_settle {a b : String} {start finish now : Timestamp}
    (hstart : Timestamp.ofText? a = some start) (hfinish : Timestamp.ofText? b = some finish)
    (hnow : now.offset = 0) :
    Window.Settles start finish (Window.between start finish) ∧
    ((∃ window, Window.between start finish = .ok window) ↔
      start.unixNanos < finish.unixNanos ∧ Timestamp.yearOn finish.unixNanos 0 ≤ 9999) ∧
    (∀ (id : TaskId) (plan : TaskPlan), (Task.ofPlan id { plan with start, finish } now).map
      Task.window = Window.between start finish) ∧
    (∀ t : Task, (t.withWindow start finish now).map Task.window = Window.between start finish) ∧
    ∀ (w : World) (setup : Setup) (ctx : Context) (m : Move),
      let p := Service.reschedule setup { ctx with clock := now } { m with start, finish }
      let r := (w.serve p).1
      Window.Settles start finish (r.map ScheduleChange.window) ∧
        (r.map ScheduleChange.window = .error .beyondUtc → w.serve p = (.error .beyondUtc, w)) := by
  have hsettles := Window.settles_between (Timestamp.writable_of_ofText? hstart)
    (Timestamp.writable_of_ofText? hfinish)
  refine ⟨hsettles, ?_, fun id plan => Task.map_window_ofPlan _ _ hnow,
    fun t => Task.map_window_withWindow _ _ _ hnow, fun w setup ctx m => ?_⟩
  · rw [Window.exists_between_iff, Ne, hsettles.beyond, not_and, not_lt]
    exact and_congr_right fun hlt => ⟨fun h => h hlt, fun h _ => h⟩
  intro p r
  obtain ⟨hbeyond, hok⟩ : (r = .error .beyondUtc ↔ _) ∧ ∀ change, r = .ok change → _ :=
    World.serve_reschedule_window hnow w setup
  have hmap : r.map ScheduleChange.window = .error .beyondUtc ↔ r = .error .beyondUtc := by
    cases r <;> simp [Except.map]
  refine ⟨hsettles.refine (hmap.trans hbeyond) fun window hwindow => ?_, fun hlate => ?_⟩
  · cases hr : r with
    | error f => rw [hr] at hwindow; cases hwindow
    | ok change =>
        rw [hr] at hwindow
        cases hwindow
        exact hok change hr
  · exact World.serve_reschedule_of_error (hbeyond.mp (hmap.mp hlate)) w setup

/-- Two hours before the end of the year 9999 of UTC. -/
def sampleEve : Timestamp :=
  ⟨253402293600 * nanosPerSecond, 0, Timestamp.offset_lt_zero, by decide⟩

/-- Half an hour before the end of the year 9999 on a clock that is an hour behind UTC. -/
def sampleMidnight : Timestamp := ⟨253402302600 * nanosPerSecond, -60, by decide, by decide⟩

theorem ofText?_sampleEve : Timestamp.ofText? "9999-12-31T22:00:00Z" = some sampleEve := by cbv

theorem ofText?_sampleMidnight :
    Timestamp.ofText? "9999-12-31T23:30:00-01:00" = some sampleMidnight := by cbv

/-- A window from before the end of the last year of UTC to after it gives no answer, and whoever asks
for it in whatever world, nothing happens. -/
theorem windows_settle_sample :
    Window.between sampleEve sampleMidnight = .error .beyondUtc ∧
    ∀ (w : World) (setup : Setup) (ctx : Context) (m : Move),
      w.serve (Service.reschedule setup { ctx with clock := Store.hour 6 0 }
        { m with start := sampleEve, finish := sampleMidnight }) = (.error .beyondUtc, w) := by
  obtain ⟨hbetween, -, -, -, hmove⟩ := windows_settle ofText?_sampleEve ofText?_sampleMidnight
    (show (Store.hour 6 0).offset = 0 from rfl)
  have hlate : sampleEve.unixNanos < sampleMidnight.unixNanos ∧
      9999 < Timestamp.yearOn sampleMidnight.unixNanos 0 := by decide
  refine ⟨hbetween.beyond.mpr hlate, fun w setup ctx m => ?_⟩
  obtain ⟨hsettles, hnothing⟩ := hmove w setup ctx m
  exact hnothing (hsettles.beyond.mpr hlate)

/-- Times that can be read do not always get an answer: neither a window between them, nor a move into
such a window. -/
theorem not_windows_answered :
    (¬∀ (a b : String) (start finish : Timestamp), Timestamp.ofText? a = some start →
      Timestamp.ofText? b = some finish → Window.between start finish ≠ .error .beyondUtc) ∧
    ¬∀ (a b : String) (start finish : Timestamp), Timestamp.ofText? a = some start →
      Timestamp.ofText? b = some finish → ∀ (w : World) (setup : Setup) (ctx : Context) (m : Move),
      (w.serve (Service.reschedule setup { ctx with clock := Store.hour 6 0 }
        { m with start, finish })).1 ≠ .error .beyondUtc := by
  have hbetween : Window.between sampleEve sampleMidnight = .error .beyondUtc := by decide
  refine ⟨fun h => h _ _ _ _ ofText?_sampleEve ofText?_sampleMidnight hbetween, fun h => ?_⟩
  exact h _ _ _ _ ofText?_sampleEve ofText?_sampleMidnight { store := .sample } {} sampleContext
    sampleMove (congrArg Prod.fst (World.serve_reschedule_of_error hbetween _ _))

end Overhaul
