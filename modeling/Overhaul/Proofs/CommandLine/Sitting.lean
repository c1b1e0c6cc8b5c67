import Overhaul.Proofs.CommandLine.Aftermath
import Overhaul.Proofs.CommandLine.Turns

/-!
# Invocations one after the other

Every invocation loads the schedule from its file and starts a service of its own. Here the file is
followed beside a service that goes on and is asked the same: the invocations print what that service
answers, and the file holds what it would save (`sitting_simulates_session`). What carries this along
is `Scene.Reflects`, together with what `Sitting` says of the invocations that are still to come.
-/

namespace Overhaul

theorem exists_of_bind_eq_ok {ε α β : Type} {x : Except ε α} {f : α → Except ε β} {b : β}
    (h : x >>= f = .ok b) : ∃ a, x = .ok a ∧ f a = .ok b := by
  cases x with
  | error e => cases h
  | ok a => exact ⟨a, rfl, h⟩

namespace CommandLine

/-- A text in JSON is loaded as the store that is built from what it spells. -/
theorem ScheduleFile.load_text {path text : String} {x : Snapshot} {r : Store}
    (hpath : Format.ofPath path = .json) (hread : Format.json.read? text = some x)
    (hr : Store.ofSnapshot x = .ok r) : load path (.text text) = .ok r := by
  unfold load
  dsimp only
  rw [hpath, hread]
  dsimp only
  rw [hr]
  rfl

/-- An invocation as it takes place. -/
structure Turn where
  invocation : Invocation
  env : Environment
  /-- What the clock shows. -/
  clock : Timestamp
  /-- The identifier of what is made. -/
  fresh : BitVec 128

/-- The text that is printed of a value; an error when there is nothing to print. -/
def printed : Option Json → Except RunError String
  | some v => .ok v.page
  | none => .error .unprintable

namespace Turn

/-- What the invocation prints among the files, or why it fails, and the files that it leaves. -/
def among (t : Turn) (tree : FileTree) : Except RunError String × FileTree :=
  t.invocation.runAmong t.env tree t.clock t.fresh

/-- How the service is set up and who asks, as far as this can be found out among the files. -/
def setting (t : Turn) (tree : FileTree) : Except RunError (Setup × Context) := do
  let actor ← (t.invocation.caller.actor t.env).mapError .caller
  let settings ← Invocation.loadSettings t.invocation.settingsPath
    (tree.content t.invocation.settingsPath)
  return ({ settings }, { actor, clock := t.clock, fresh := t.fresh })

/-- What would be printed if a service that goes on were asked the same by the same caller in the same
setting, and the world that this would leave. -/
def ask (t : Turn) (tree : FileTree) (w : World) : Except RunError String × World :=
  match t.setting tree with
  | .error e => (.error e, w)
  | .ok (setup, ctx) =>
    let asked := t.invocation.command.ask setup ctx w
    (asked.1 >>= printed, asked.2)

theorem ask_of_setting {t : Turn} {tree : FileTree} {setup : Setup} {ctx : Context}
    (hset : t.setting tree = .ok (setup, ctx)) (w : World) :
    t.ask tree w = ((t.invocation.command.ask setup ctx w).1 >>= printed,
      (t.invocation.command.ask setup ctx w).2) := by
  unfold ask
  rw [hset]

/-- Once the store is loaded, the command is run in the setting, and the store is saved if that was
asked for. -/
theorem run_of_load {t : Turn} {tree : FileTree} {file : FileContent} {r : Store}
    (hload : ScheduleFile.loadIfAny t.invocation.schedulePath file = .ok r) :
    t.invocation.run t.env (tree.content t.invocation.settingsPath) file t.clock t.fresh = do
      let (setup, ctx) ← t.setting tree
      let (value, s) ← t.invocation.command.run setup ctx r
      let output ← printed value
      return {
        output
        saving := if t.invocation.write && t.invocation.command.changesSchedule then
            some (ScheduleFile.save t.invocation.schedulePath s)
          else none } := by
  unfold Invocation.run setting
  rw [hload]
  cases (t.invocation.caller.actor t.env).mapError RunError.caller with
  | error e => rfl
  | ok actor =>
      cases Invocation.loadSettings t.invocation.settingsPath
        (tree.content t.invocation.settingsPath) with
      | error e => rfl
      | ok settings =>
          change (t.invocation.command.run { settings } ⟨actor, t.clock, t.fresh⟩ r >>= _) =
            (t.invocation.command.run { settings } ⟨actor, t.clock, t.fresh⟩ r >>= _)
          cases t.invocation.command.run { settings } ⟨actor, t.clock, t.fresh⟩ r with
          | error e => rfl
          | ok found =>
              obtain ⟨value, s⟩ := found
              cases value <;> rfl

/-- The caller, the clock and the identifier are the turn's own. -/
theorem setting_eq_ok {t : Turn} {tree : FileTree} {setup : Setup} {ctx : Context}
    (h : t.setting tree = .ok (setup, ctx)) :
    setup.announces = true ∧ ctx.clock = t.clock ∧ ctx.fresh = t.fresh := by
  obtain ⟨actor, -, h⟩ := exists_of_bind_eq_ok h
  obtain ⟨settings, -, h⟩ := exists_of_bind_eq_ok h
  cases h
  exact ⟨rfl, rfl, rfl⟩

/-! ### What is left in the files -/

/-- The only file that may change is the one with the schedule, and only when the invocation is to save
and succeeds with a command that changes schedules. -/
theorem snd_among (t : Turn) (tree : FileTree) :
    (t.among tree).2 = tree ∨ t.invocation.command.changesSchedule = true ∧
      t.invocation.write = true ∧ ∃ output text,
        t.among tree = (.ok output, tree.overwrite t.invocation.schedulePath text) := by
  unfold among Invocation.runAmong
  cases hrun : t.invocation.run t.env (tree.content t.invocation.settingsPath)
    (tree.content t.invocation.schedulePath) t.clock t.fresh with
  | error e => exact .inl rfl
  | ok report =>
      obtain ⟨_, -, hrun⟩ := exists_of_bind_eq_ok hrun
      obtain ⟨_, -, hrun⟩ := exists_of_bind_eq_ok hrun
      obtain ⟨_, -, hrun⟩ := exists_of_bind_eq_ok hrun
      obtain ⟨⟨value, s⟩, -, hrun⟩ := exists_of_bind_eq_ok hrun
      cases value with
      | none => cases hrun
      | some v =>
          cases hrun
          by_cases hsave : (t.invocation.write && t.invocation.command.changesSchedule) = true
          · dsimp only
            rw [if_pos hsave]
            obtain ⟨hwrite, hchanges⟩ := Bool.and_eq_true_iff.mp hsave
            cases ScheduleFile.save t.invocation.schedulePath s with
            | error e => exact .inl rfl
            | ok text => exact .inr ⟨hchanges, hwrite, _, text, rfl⟩
          · dsimp only
            rw [if_neg hsave]
            exact .inl rfl

/-- A command that only reads, an invocation that is not to save, and one that fails leave all files
as they are. -/
theorem among_keeps (t : Turn) (tree : FileTree)
    (h : t.invocation.command.changesSchedule = false ∨ t.invocation.write = false ∨
      ∃ e, (t.among tree).1 = .error e) : (t.among tree).2 = tree := by
  rcases t.snd_among tree with hkept | ⟨hchanges, hwrite, output, text, hmade⟩
  · exact hkept
  rcases h with hreads | hkeeps | ⟨e, hfails⟩
  · cases hreads.symm.trans hchanges
  · cases hkeeps.symm.trans hwrite
  · rw [hmade] at hfails
    cases hfails

/-- No invocation changes where paths lead. -/
theorem walk?_among (t : Turn) (tree : FileTree) (path : String) :
    (t.among tree).2.walk? path = tree.walk? path := by
  rcases t.snd_among tree with hkept | ⟨-, -, _, text, hmade⟩
  · rw [hkept]
  · rw [hmade]
    exact tree.walk?_overwrite _ text path

/-! ### A turn beside a service that goes on -/

variable {t : Turn} {tree : FileTree} {place : Place} {w : World}

/-- A service that goes on is asked for one operation at most, with the clock and the identifier of the
turn. -/
theorem snd_ask (t : Turn) (tree : FileTree) (w : World) :
    (t.ask tree w).2 = w ∨ ∃ setup ctx operation, setup.announces = true ∧ ctx.clock = t.clock ∧
      ctx.fresh = t.fresh ∧
        (t.ask tree w).2 = (w.handle (.undisturbed setup ctx operation)).2 := by
  unfold ask
  cases hset : t.setting tree with
  | error e => exact .inl rfl
  | ok found =>
      obtain ⟨setup, ctx⟩ := found
      obtain ⟨hannounces, hclock, hfresh⟩ := setting_eq_ok hset
      rcases t.invocation.command.snd_ask setup ctx w with hkept | ⟨operation, hleft⟩
      · exact .inl hkept
      · exact .inr ⟨setup, ctx, operation, hannounces, hclock, hfresh, hleft⟩

/-- What cannot be done, and what only reads, leaves the store of a service that goes on as it was. -/
theorem store_ask (hfresh : w.store.changes.find? ⟨t.fresh⟩ = none)
    (h : (∃ e ≠ .unprintable, (t.ask tree w).1 = .error e) ∨
      t.invocation.command.changesSchedule = false) : (t.ask tree w).2.store = w.store := by
  cases hset : t.setting tree with
  | error e =>
      unfold ask
      rw [hset]
  | ok found =>
      obtain ⟨setup, ctx⟩ := found
      rw [ask_of_setting hset] at h ⊢
      rw [← (setting_eq_ok hset).2.2] at hfresh
      refine Command.store_ask hfresh (h.imp_left ?_)
      rintro ⟨e, hprintable, he⟩
      dsimp only at he
      cases hasked : (t.invocation.command.ask setup ctx w).1 with
      | error f => exact ⟨f, rfl⟩
      | ok value =>
          rw [hasked] at he
          cases value with
          | none => cases he; exact absurd rfl hprintable
          | some v => cases he

/-- The invocation saves what it changes, as JSON in the file at the place. -/
structure Saves (t : Turn) (tree : FileTree) (place : Place) : Prop where
  write : t.invocation.write = true
  json : Format.ofPath t.invocation.schedulePath = .json
  walk? : tree.walk? t.invocation.schedulePath = some place

namespace Saves

theorem content (ht : t.Saves tree place) {text : String} (htext : tree.text? place = some text) :
    tree.content t.invocation.schedulePath = .text text := by
  unfold FileTree.content
  rw [ht.walk?]
  dsimp only
  rw [htext]

theorem overwrite (ht : t.Saves tree place) (text : String) :
    tree.overwrite t.invocation.schedulePath text = tree.withText place text := by
  unfold FileTree.overwrite
  rw [ht.walk?]

theorem load (ht : t.Saves tree place) {text : String} {x : Snapshot}
    (hread : Format.json.read? text = some x) {r : Store} (hr : Store.ofSnapshot x = .ok r) :
    ScheduleFile.loadIfAny t.invocation.schedulePath (.text text) = .ok r := by
  rw [← ScheduleFile.load_text ht.json hread hr]
  rfl

end Saves

/-- An invocation that finds a store like the one of a service that goes on prints what that service
answers, and saves what that service would. -/
theorem among_eq (ht : t.Saves tree place) {text : String} (htext : tree.text? place = some text)
    {x : Snapshot} (hread : Format.json.read? text = some x) {r : Store}
    (hr : Store.ofSnapshot x = .ok r) (halike : r.Alike w.store) :
    t.among tree = match (t.ask tree w).1 with
      | .error e => (.error e, tree)
      | .ok output =>
        if t.invocation.command.changesSchedule then
          match Format.json.write? (t.ask tree w).2.store.snapshot with
          | some text => (.ok output, tree.withText place text)
          | none => (.error (.schedule (.unwritable .json)), tree)
        else (.ok output, tree) := by
  unfold among Invocation.runAmong ask
  rw [ht.content htext, run_of_load (ht.load hread hr)]
  cases t.setting tree with
  | error e => rfl
  | ok found =>
      obtain ⟨setup, ctx⟩ := found
      obtain ⟨s, hlike, hrun⟩ := t.invocation.command.run_of_alike setup ctx halike
      dsimp only [bind, Except.bind]
      rw [hrun]
      cases (t.invocation.command.ask setup ctx w).1 with
      | error e => rfl
      | ok value =>
          cases value with
          | none => rfl
          | some v =>
              simp only [Except.map, printed, ht.write, Bool.true_and]
              cases t.invocation.command.changesSchedule with
              | false => rfl
              | true =>
                  simp only [if_true, ScheduleFile.save, ht.json, hlike.snapshot]
                  cases Format.json.write? _ with
                  | none => rfl
                  | some text => exact congrArg (Prod.mk _) (ht.overwrite text)

/-- What a service that goes on answers and what it keeps can be written. -/
structure Writable (t : Turn) (tree : FileTree) (w : World) : Prop where
  answer : (t.ask tree w).1 ≠ .error .unprintable
  store : (t.ask tree w).2.store.snapshot.json?.isSome = true

/-- Where all can be written, an invocation prints what a service that goes on answers. It keeps the
file as that service keeps its store, or saves what that service would. -/
theorem among_ask (ht : t.Saves tree place) {text : String} (htext : tree.text? place = some text)
    {x : Snapshot} (hread : Format.json.read? text = some x) {r : Store}
    (hr : Store.ofSnapshot x = .ok r) (halike : r.Alike w.store)
    (hfresh : w.store.changes.find? ⟨t.fresh⟩ = none) (hwritable : t.Writable tree w) :
    (t.among tree).1 = (t.ask tree w).1 ∧
      ((t.among tree).2 = tree ∧ (t.ask tree w).2.store = w.store ∨
        ∃ left, Format.json.write? (t.ask tree w).2.store.snapshot = some left ∧
          (t.among tree).2 = tree.withText place left) := by
  have hamong := among_eq ht htext hread hr halike
  cases hasked : (t.ask tree w).1 with
  | error e =>
      have hprintable : e ≠ .unprintable := by
        rintro rfl
        exact hwritable.answer hasked
      rw [hasked] at hamong
      rw [hamong]
      exact ⟨rfl, .inl ⟨rfl, store_ask hfresh (.inl ⟨e, hprintable, hasked⟩)⟩⟩
  | ok output =>
      rw [hasked] at hamong
      dsimp only at hamong
      cases hchanges : t.invocation.command.changesSchedule with
      | false =>
          rw [hchanges] at hamong
          rw [hamong]
          exact ⟨rfl, .inl ⟨rfl, store_ask hfresh (.inr hchanges)⟩⟩
      | true =>
          obtain ⟨v, hv⟩ := Option.isSome_iff_exists.mp hwritable.store
          have hwrite : Format.json.write? (t.ask tree w).2.store.snapshot = some v.page :=
            congrArg (Option.map Json.page) hv
          rw [hchanges, if_pos rfl, hwrite] at hamong
          rw [hamong]
          exact ⟨rfl, .inr ⟨v.page, hwrite, rfl⟩⟩

end Turn

/-! ### Turns beside a service that goes on -/

/-- The files that invocations work on, and a service that goes on beside them. -/
structure Scene where
  files : FileTree
  world : World

/-- The invocation takes place, and the service is asked the same. -/
def Turn.next (now : Scene) (t : Turn) : Scene :=
  ⟨(t.among now.files).2, (t.ask now.files now.world).2⟩

/-- The file at the place spells the snapshot in JSON. -/
def FileTree.Holds (tree : FileTree) (place : Place) (x : Snapshot) : Prop :=
  ∃ text, tree.text? place = some text ∧ Format.json.read? text = some x

/-- The file at the place holds what a service would save, and the service loses nothing by that. -/
structure Scene.Reflects (now : Scene) (place : Place) : Prop where
  holds : now.files.Holds place now.world.store.snapshot
  durable : now.world.store.Durable
  readable : Outbox.Readable now.world.store.outbox

/-- Invocations one after the other save what they change at the place. Each has an identifier that no
change has, and takes place later than those before it. The dependencies of the store were made earlier
than that. -/
structure Sitting (tree : FileTree) (place : Place) (s : Store) (turns : List Turn) : Prop where
  saves : ∀ t ∈ turns, t.Saves tree place
  clocks : turns.Pairwise fun a b => a.clock.unixNanos < b.clock.unixNanos
  made : ∀ t ∈ turns.head?, ∀ d ∈ s.dependencies.rows, d.created.unixNanos < t.clock.unixNanos
  identifiers : (turns.map Turn.fresh).Nodup
  unused : ∀ t ∈ turns, s.changes.find? ⟨t.fresh⟩ = none

variable {place : Place} {t : Turn} {turns : List Turn} {now : Scene}

/-- An invocation prints what a service that goes on answers, and its file holds what that service
keeps. -/
theorem Scene.Reflects.among (h : now.Reflects place) (ht : t.Saves now.files place)
    (hfresh : now.world.store.changes.find? ⟨t.fresh⟩ = none)
    (hwritable : t.Writable now.files now.world)
    (hreadable : Outbox.Readable (t.next now).world.store.outbox) :
    (t.among now.files).1 = (t.ask now.files now.world).1 ∧
      (t.next now).files.Holds place (t.next now).world.store.snapshot := by
  obtain ⟨text, htext, hread⟩ := h.holds
  obtain ⟨r, hr⟩ := h.durable.exists_ofSnapshot
  obtain ⟨hprinted, hleft⟩ := Turn.among_ask ht htext hread hr (h.durable.alike_of_ofSnapshot hr)
    hfresh hwritable
  refine ⟨hprinted, ?_⟩
  rcases hleft with ⟨hfiles, hstore⟩ | ⟨left, hwrite, hfiles⟩
  · rw [Turn.next, hfiles, hstore]
    exact h.holds
  · refine ⟨left, ?_, Format.read?_json hwrite hreadable⟩
    rw [Turn.next, hfiles, FileTree.text?_withText, htext]
    exact congrArg some (if_pos rfl)

namespace Sitting

/-- What a service that goes on holds after a turn was made by then, and has no identifier of a turn
that is still to come. -/
theorem next (h : Sitting now.files place now.world.store (t :: turns))
    (hreflects : now.Reflects place) :
    (t.next now).world.store.Durable ∧ Outbox.Readable (t.next now).world.store.outbox ∧
      Sitting (t.next now).files place (t.next now).world.store turns := by
  obtain ⟨hclock, hclocks⟩ := List.pairwise_cons.mp h.clocks
  obtain ⟨hnew, hidentifiers⟩ := List.nodup_cons.mp h.identifiers
  obtain ⟨hunused, hunused'⟩ := List.forall_mem_cons.mp h.unused
  have hsaves : ∀ t' ∈ turns, t'.Saves (t.next now).files place := fun t' ht' =>
    let hs := h.saves t' (List.mem_cons_of_mem t ht')
    { hs with walk? := (t.walk?_among now.files _).trans hs.walk? }
  have hmade := h.made t rfl
  have hlater : ∀ t' ∈ turns.head?, t.clock.unixNanos < t'.clock.unixNanos := fun t' ht' =>
    hclock t' (List.mem_of_mem_head? ht')
  rcases t.snd_ask now.files now.world with hkept | ⟨setup, ctx, o, -, hat, hid, hleft⟩
  · have hstore : (t.next now).world.store = now.world.store := congrArg World.store hkept
    rw [hstore]
    exact ⟨hreflects.durable, hreflects.readable, hsaves, hclocks,
      fun t' ht' d hd => (hmade d hd).trans (hlater t' ht'), hidentifiers, hunused'⟩
  · have hstore : (t.next now).world.store =
        (now.world.handle (.undisturbed setup ctx o)).2.store := congrArg World.store hleft
    have habreast := now.world.abreast_handle (.undisturbed setup ctx o)
      ⟨hreflects.durable, fun d hd => .inl (hat ▸ hmade d hd)⟩
    rw [hstore]
    refine ⟨habreast.durable, now.world.readable_handle _ hreflects.readable, hsaves,
      hclocks, fun t' ht' d hd => ?_, hidentifiers, fun t' ht' => ?_⟩
    · rcases habreast.made d hd with hlt | ⟨heq, -⟩
      · exact (hat ▸ hlt).trans (hlater t' ht')
      · exact (heq.trans (congrArg Timestamp.unixNanos hat)).trans_lt (hlater t' ht')
    · rw [World.find?_changes_handle]
      · exact hunused' t' ht'
      · intro heq
        have hsame : t'.fresh = t.fresh := (congrArg Id.bits heq).trans hid
        exact hnew (hsame ▸ List.mem_map_of_mem ht')

end Sitting

/-! ### Sittings -/

/-- All that is answered and kept along the invocations can be written. -/
def Writable (turns : List Turn) (now : Scene) : Prop :=
  ∀ before t, before ++ [t] <+: turns →
    t.Writable (before.foldl Turn.next now).files (before.foldl Turn.next now).world

theorem writable_nil (now : Scene) : Writable [] now := by
  intro before t h
  cases List.append_eq_nil_iff.mp (List.prefix_nil.mp h) |>.2

theorem writable_cons :
    Writable (t :: turns) now ↔ t.Writable now.files now.world ∧ Writable turns (t.next now) := by
  refine ⟨fun h => ⟨h [] t (List.prefix_append [t] turns), fun before u hu => ?_⟩, ?_⟩
  · exact h (t :: before) u (List.cons_prefix_cons.mpr ⟨rfl, hu⟩)
  · rintro ⟨hfirst, hrest⟩ before u hu
    cases before with
    | nil =>
        obtain ⟨rfl, -⟩ := List.cons_prefix_cons.mp hu
        exact hfirst
    | cons v before =>
        obtain ⟨rfl, hu'⟩ := List.cons_prefix_cons.mp hu
        exact hrest before u hu'

/-- What carries a sitting on is kept by every turn. -/
theorem Scene.Reflects.foldl_next {before : List Turn} (h : now.Reflects place)
    (hsitting : Sitting now.files place now.world.store (before ++ turns))
    (hwritable : Writable (before ++ turns) now) :
    (before.foldl Turn.next now).Reflects place ∧
      Sitting (before.foldl Turn.next now).files place (before.foldl Turn.next now).world.store
        turns ∧ Writable turns (before.foldl Turn.next now) := by
  induction before generalizing now with
  | nil => exact ⟨h, hsitting, hwritable⟩
  | cons t before ih =>
      obtain ⟨hdurable, hreadable, hrest⟩ := hsitting.next h
      obtain ⟨hfirst, hwritable'⟩ := writable_cons.mp hwritable
      have hfile := h.among (hsitting.saves t (List.mem_cons_self ..))
        (hsitting.unused t (List.mem_cons_self ..)) hfirst hreadable
      exact ih ⟨hfile.2, hdurable, hreadable⟩ hrest hwritable'

/-- A store that is loaded from what another one saves has the same dependencies and changes. -/
theorem Sitting.of_ofSnapshot {tree : FileTree} {s r : Store}
    (hr : Store.ofSnapshot s.snapshot = .ok r) (h : Sitting tree place s turns) :
    Sitting tree place r turns := by
  have hloads := Store.loads_ofSnapshot hr
  refine { h with
    made := fun t ht d hd => h.made t ht d ((Store.perm_of_ofSnapshot hr).2.mem_iff.mp hd)
    unused := ?_ }
  rw [Table.eq_of_rows hloads.changes]
  exact h.unused

namespace Turn

variable {setup : Setup} {ctx : Context}

/-- What is answered in a setting can be written when there is something to print. -/
theorem writable_of_setting (hset : t.setting now.files = .ok (setup, ctx))
    (hanswer : (t.invocation.command.ask setup ctx now.world).1.map Option.isSome = .ok true)
    (hstore : (t.invocation.command.ask setup ctx now.world).2.store.snapshot.json?.isSome = true) :
    t.Writable now.files now.world := by
  refine ⟨?_, ?_⟩ <;> rw [ask_of_setting hset]
  · cases hasked : (t.invocation.command.ask setup ctx now.world).1 with
    | error e =>
        rw [hasked] at hanswer
        cases hanswer
    | ok value =>
        rw [hasked] at hanswer
        cases value with
        | none => cases hanswer
        | some v =>
            intro hnone
            cases hnone
  · exact hstore

end Turn

/-! ### A small sitting -/

/-- An invocation on the first day of 1970 that saves what it changes in the working folder. -/
def sampleTurn (command : Command) (h n : Nat) : Turn where
  invocation := {
    folder := "."
    file := some "schedule.json"
    write := true
    caller := ⟨some (.ofNat 1), some (.ofNat 1), some .scheduler⟩
    command }
  env := {}
  clock := Store.hour h 0
  fresh := n

/-- The first task is put off, and the second one no longer waits for it. The third one does instead. -/
def sampleTurns : List Turn := [
  sampleTurn (.reschedule sampleMove) 6 7,
  sampleTurn (.undepend (.ofNat 1)) 7 8,
  sampleTurn (.depend (.ofNat 3) (.ofNat 1) none) 8 9]

/-- Where the schedule lies in the working folder. -/
def samplePlace : Place := [[], [], "schedule.json".toList]

/-- A working folder with a schedule and nothing else. -/
def sampleTree (text : String) : FileTree :=
  { FileTree.empty with files := [(samplePlace, text)] }

theorem walk?_sampleTree (text : String) :
    (sampleTree text).walk? "schedule.json" = some samplePlace := by
  unfold FileTree.walk? FileTree.start
  rw [if_neg (by decide), if_neg (by simp)]
  rfl

theorem walk?_sampleTree_settings (text : String) :
    (sampleTree text).walk? "./.hangar/config.toml" = none := by
  unfold FileTree.walk? FileTree.start
  rw [if_neg (by decide), if_neg (by simp)]
  rfl

theorem saves_sampleTurn (command : Command) (h n : Nat) (text : String) :
    (sampleTurn command h n).Saves (sampleTree text) samplePlace where
  write := rfl
  json := by
    have hjson : Format.ofPath "schedule.json" = .json := by cbv
    exact hjson
  walk? := walk?_sampleTree text

theorem sitting_sample (text : String) :
    Sitting (sampleTree text) samplePlace Store.sample sampleTurns where
  saves := by
    simp only [sampleTurns, List.forall_mem_cons, List.not_mem_nil, false_implies, implies_true,
      and_true, saves_sampleTurn]
  clocks := by decide
  made := by decide
  identifiers := by decide
  unused := by decide

/-- A scheduler of the first tenant asks at an hour of the day. -/
def sampleContextAt (h n : Nat) : Context :=
  { sampleContext with clock := Store.hour h 0, fresh := n }

theorem setting_sampleTurn {tree : FileTree} (htree : tree.walk? "./.hangar/config.toml" = none)
    (command : Command) (h n : Nat) :
    (sampleTurn command h n).setting tree = .ok ({}, sampleContextAt h n) := by
  have hpath : (sampleTurn command h n).invocation.settingsPath = "./.hangar/config.toml" := by
    have hin : Invocation.inFolder "." ".hangar/config.toml" = "./.hangar/config.toml" := by decide
    exact hin
  have hcontent : tree.content "./.hangar/config.toml" = .missing := by
    unfold FileTree.content
    rw [htree]
  unfold Turn.setting
  rw [hpath, hcontent]
  rfl

/-- Where there are no settings, there are none afterwards. -/
theorem writable_sampleTurn {command : Command} {h n : Nat}
    (hanswer : (command.ask {} (sampleContextAt h n) now.world).1.map Option.isSome = .ok true)
    (hstore : (command.ask {} (sampleContextAt h n) now.world).2.store.snapshot.json?.isSome = true)
    (hfiles : now.files.walk? "./.hangar/config.toml" = none)
    (hrest : ∀ files : FileTree, files.walk? "./.hangar/config.toml" = none →
      Writable turns ⟨files, (command.ask {} (sampleContextAt h n) now.world).2⟩) :
    Writable (sampleTurn command h n :: turns) now := by
  have hset := setting_sampleTurn hfiles command h n
  refine writable_cons.mpr ⟨Turn.writable_of_setting hset hanswer hstore, ?_⟩
  unfold Turn.next
  rw [Turn.ask_of_setting hset]
  exact hrest _ ((Turn.walk?_among _ _ _).trans hfiles)

/-- The small store as it is loaded from what it saves. -/
def sampleLoaded : Store := (Store.ofSnapshot Store.sample.snapshot).toOption.getD .empty

theorem writable_sampleTurns (text : String) :
    Writable sampleTurns ⟨sampleTree text, { store := sampleLoaded }⟩ := by
  refine writable_sampleTurn (by cbv) (by cbv) (walk?_sampleTree_settings text) fun _ h => ?_
  refine writable_sampleTurn (by cbv) (by cbv) h fun _ h => ?_
  exact writable_sampleTurn (by cbv) (by cbv) h fun _ _ => writable_nil _

end CommandLine

end Overhaul
