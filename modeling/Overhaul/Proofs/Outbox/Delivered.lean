import Overhaul.Proofs.Session
import Overhaul.Proofs.Store.Tenants
import Overhaul.Proofs.Table

/-!
# What waits in the outbox

A message for which the outbox is called may get there or not. The outbox changes through those that
get there and through nothing else (`World.outbox_trail`), and of these it holds the latest one for
each key, in the place of the first (`Outbox.holds_foldl`).
-/

namespace Overhaul

/-! ### Messages on their way -/

/-- The message that the step is to put into the outbox. -/
def Step.message? : Step → Option Message
  | .call (.announce m) => some m
  | _ => none

/-- The message that the exchange did put into the outbox. -/
def Exchange.delivered? : Exchange → Option Message
  | ⟨.call (.announce m), .ok _⟩ => some m
  | _ => none

/-- The messages that were to be put into the outbox, the first one first. -/
def attempted (log : List Exchange) : List Message := log.filterMap fun x => x.step.message?

/-- The messages that got there, the first one first. -/
def delivered (log : List Exchange) : List Message := log.filterMap Exchange.delivered?

theorem attempted_append (log₁ log₂ : List Exchange) :
    attempted (log₁ ++ log₂) = attempted log₁ ++ attempted log₂ := List.filterMap_append

theorem delivered_append (log₁ log₂ : List Exchange) :
    delivered (log₁ ++ log₂) = delivered log₁ ++ delivered log₂ := List.filterMap_append

/-! ### Keys -/

/-- An identifier is told by its text. -/
theorem Id.text_inj {kind : IdKind} {i j : Id kind} (h : i.text = j.text) : i = j := by
  refine Option.some.inj ?_
  rw [← ofText?_text i, h, ofText?_text]

/-- Messages about tasks have the same key just when they are about the same task of the same
tenant. -/
theorem Message.key_aboutTask_inj {a b : TenantId} {x y : TaskId} {event event' : String}
    {payload payload' : Json.Payload} :
    (aboutTask a x event payload).key = (aboutTask b y event' payload').key ↔ a = b ∧ x = y := by
  constructor
  · intro h
    obtain rfl : a = b := tenant_eq_of_taskKey h
    exact ⟨rfl, Id.text_inj (by simpa [aboutTask, taskKey] using h)⟩
  · rintro ⟨rfl, rfl⟩
    rfl

/-! ### What is kept of the messages that got there -/

/-- An element at the end is the first of its kind, or is left out. -/
theorem eraseDups_concat {κ : Type} [DecidableEq κ] (l : List κ) (a : κ) :
    (l ++ [a]).eraseDups = if a ∈ l then l.eraseDups else l.eraseDups ++ [a] := by
  rw [List.eraseDups_append]
  by_cases h : a ∈ l <;> simp [List.removeAll, h, List.eraseDups_cons]

theorem eraseDups_of_nodup {κ : Type} [DecidableEq κ] {l : List κ} (h : l.Nodup) :
    l.eraseDups = l := by
  induction l using List.reverseRecOn with
  | nil => rfl
  | append_singleton l a ih =>
      obtain ⟨hl, -, hne⟩ := List.nodup_append.mp h
      rw [eraseDups_concat, if_neg fun ha => hne a ha a (by simp) rfl, ih hl]

/-- A table into which rows are written has their keys after its own, in the order in which they
came. -/
theorem Table.map_rows_putAll {α κ : Type} [DecidableEq κ] {key : α → κ} (t : Table key)
    (rows : List α) :
    (t.putAll rows).rows.map key = (t.rows.map key ++ rows.map key).eraseDups := by
  induction rows using List.reverseRecOn with
  | nil => rw [List.map_nil, List.append_nil, eraseDups_of_nodup t.nodup, putAll_nil]
  | append_singleton rows row ih =>
      rw [putAll_append, putAll_cons, putAll_nil, List.map_append, List.map_singleton,
        ← List.append_assoc, eraseDups_concat, ← ih]
      change (upsert key row (t.putAll rows).rows).map key = _
      rw [map_upsert]
      refine if_congr ?_ rfl rfl
      rw [ih, List.mem_eraseDups]

/-- What an outbox holds into which messages were put after others: the old keys in their places,
then the new ones in the order in which the first message of each came, and under each key the
message that came last. -/
structure Outbox.Holds (old sent : List Message) (outbox : Outbox) : Prop where
  distinct : (outbox.map Message.key).Nodup
  places : old.map Message.key <+: outbox.map Message.key
  keys : outbox.map Message.key = ((old ++ sent).map Message.key).eraseDups
  latest : ∀ key, (outbox.find? fun m => m.key = key) =
    (sent.reverse ++ old).find? fun m => m.key = key

/-- An outbox in which no key was there twice is a table of its messages. -/
theorem Outbox.rows_putAll {old : List Message} (h : (old.map Message.key).Nodup)
    (sent : List Message) :
    ((⟨old, h⟩ : Table Message.key).putAll sent).rows = sent.foldl Outbox.put old := by
  suffices hall : ∀ t : Table Message.key, (t.putAll sent).rows = sent.foldl Outbox.put t.rows from
    hall ⟨old, h⟩
  intro t
  induction sent generalizing t with
  | nil => rfl
  | cons m sent ih => exact ih (t.put m)

/-- Of the messages that were put into an outbox one after the other the latest are kept. -/
theorem Outbox.holds_foldl {old : List Message} (h : (old.map Message.key).Nodup)
    (sent : List Message) : Outbox.Holds old sent (sent.foldl Outbox.put old) := by
  have hkeys : (sent.foldl Outbox.put old).map Message.key =
      (old.map Message.key ++ sent.map Message.key).eraseDups := by
    rw [← rows_putAll h, Table.map_rows_putAll]
  refine ⟨?_, ?_, by rw [hkeys, List.map_append], fun key => ?_⟩
  · rw [← rows_putAll h]
    exact Table.nodup _
  · rw [hkeys, List.eraseDups_append, eraseDups_of_nodup h]
    exact List.prefix_append _ _
  · rw [← rows_putAll h, List.find?_append]
    exact Table.find?_putAll _ sent key

/-! ### What changes the outbox -/

/-- The outbox changes through what gets there alone. -/
theorem Exchange.outbox_eq {sound : CallKind → Prop} {x : Exchange} {s s' : Store}
    (h : x.Carries sound s s') : s'.outbox = (delivered [x]).foldl Outbox.put s.outbox := by
  obtain ⟨st, e⟩ := x
  cases st with
  | call c =>
      cases c with
      | putTask t => rcases carries_putTask h with ⟨-, rfl⟩ | ⟨_, -, rfl⟩ <;> rfl
      | setState scope id state notes now =>
          rcases carries_setState h with ⟨t, -, hset⟩ | ⟨-, rfl⟩
          · obtain ⟨_, -, -, rfl⟩ := Store.setState_eq_some_iff.mp hset
            rfl
          · rfl
      | addDependency d =>
          rcases carries_addDependency h with ⟨-, hadd⟩ | ⟨_, -, rfl⟩
          · obtain ⟨-, -, -, rfl⟩ := Store.addDependency_eq_ok_iff.mp hadd
            rfl
          · rfl
      | removeDependency scope id =>
          rcases carries_removeDependency h with ⟨-, hremove⟩ | ⟨-, rfl⟩
          · obtain ⟨d, -, rfl⟩ := Store.removeDependency_eq_some_iff.mp hremove
            rfl
          · rfl
      | addChange c => rcases carries_addChange h with ⟨-, -, rfl⟩ | ⟨_, -, rfl⟩ <;> rfl
      | announce m => rcases carries_announce h with ⟨rfl, rfl⟩ | ⟨_, rfl, rfl⟩ <;> rfl
      | releaseParts tenant task =>
          cases h with
          | performed => rfl
          | failed => rfl
          | nothing _ _ _ _ hv => cases hv
      | _ =>
          obtain rfl := store_of_reads (by trivial) h
          rfl
  | _ =>
      obtain rfl := store_of_idle (by trivial) h
      rfl

/-- A course leaves the outbox with what got there in it. -/
theorem Program.Course.outbox_eq {α : Type} {sound : CallKind → Prop} {p : Program α} {s s' : Store}
    {log : List Exchange} {a : α} (h : p.Course sound s log a s') :
    s'.outbox = (delivered log).foldl Outbox.put s.outbox := by
  induction h with
  | done a s => rfl
  | @step st next r s s₁ s₂ log a hx hrest ih =>
      rw [ih, Exchange.outbox_eq hx, ← List.foldl_append, ← delivered_append]
      rfl

namespace World

variable {α : Type} {sound : CallKind → Prop}

/-- At each point of a run what got there so far is in the outbox. -/
theorem outbox_trail {w : World} (hw : w.Within sound) (p : Program α) {k : Nat} {v : World}
    (hv : (trail p w)[k]? = some v) :
    v.store.outbox = (delivered ((transcript p w).take k)).foldl Outbox.put w.store.outbox := by
  induction p generalizing w k with
  | done a =>
      obtain ⟨rfl, rfl⟩ : k = 0 ∧ w = v := by
        cases k with
        | zero => exact ⟨rfl, Option.some.inj hv⟩
        | succ k => cases hv
      rfl
  | step st next ih =>
      cases k with
      | zero =>
          cases hv
          rfl
      | succ k =>
          rw [ih _ (hw.faults (faults_take w st)) hv, Exchange.outbox_eq (carries_take hw st),
            ← List.foldl_append, ← delivered_append]
          rfl

/-- After requests all that got there is in the outbox. -/
theorem outbox_after (w : World) (qs : List Request) :
    (w.after qs).store.outbox =
      (delivered (w.transcripts qs).flatten).foldl Outbox.put w.store.outbox := by
  induction qs generalizing w with
  | nil => rfl
  | cons q qs ih =>
      change ((w.handle q).2.after qs).store.outbox = _
      rw [ih, (course_handle w q).outbox_eq, ← List.foldl_append, ← delivered_append]
      rfl

end World

end Overhaul
