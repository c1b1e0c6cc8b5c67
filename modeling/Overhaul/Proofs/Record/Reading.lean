import Mathlib.Data.List.Forall2
import Overhaul.Proofs.Timestamp.Written
import Overhaul.Record.Scalar

/-!
# Reading what was written

What the parts of a written record are read as, one kind of part after the other: the fields of an
object, nothing or something, lists, timestamps and payloads. Main statements: `Record.read?_json`
and the `Node` lemmas whose names end in `_json`.
-/

namespace Overhaul

/-! ### One part after the other

The two lemmas are about `>>=`. Where it is spelled `Option.bind`, rewriting goes through whatever
follows a step twice, and a record has many fields. -/

theorem bind_eq_some_iff {α β : Type} {x : Option α} {f : α → Option β} {b : β} :
    x >>= f = some b ↔ ∃ a, x = some a ∧ f a = some b :=
  Option.bind_eq_some_iff

theorem some_bind {α β : Type} (a : α) (f : α → Option β) : some a >>= f = f a := rfl

/-- A list goes through when each of its items does. -/
theorem mapM_eq_some_iff {α β : Type} {f : α → Option β} {xs : List α} {ys : List β} :
    xs.mapM f = some ys ↔ List.Forall₂ (fun a b => f a = some b) xs ys := by
  induction xs generalizing ys with
  | nil => simp [eq_comm]
  | cons x xs ih =>
      simp only [List.mapM_cons, bind_eq_some_iff, Option.pure_def, Option.some.injEq, ih,
        List.forall₂_cons_left_iff, eq_comm (a := ys)]
      grind

theorem exists_mapM {α β : Type} {f : α → Option β} {xs : List α}
    (h : ∀ a ∈ xs, ∃ b, f a = some b) : ∃ ys, xs.mapM f = some ys := by
  induction xs with
  | nil => exact ⟨[], rfl⟩
  | cons x xs ih =>
      obtain ⟨⟨y, hy⟩, hrest⟩ := List.forall_mem_cons.mp h
      obtain ⟨ys, hys⟩ := ih hrest
      exact ⟨y :: ys, by simp [hy, hys]⟩

namespace Node

theorem ofJsonFields_eq_map (fields : List (String × Json)) :
    ofJsonFields fields = fields.map fun f => (f.1, ofJson f.2) := by
  induction fields with
  | nil => rfl
  | cons f fields ih => rw [ofJsonFields, ih, List.map_cons]

/-! ### Parts of a record -/

variable {α : Type} {read : Node → Option α}

/-- A written timestamp is read back. -/
theorem time?_json {t : Timestamp} {v : Json} (h : t.json? = some v) :
    time? (ofJson v) = some t := by
  obtain ⟨s, hs, rfl⟩ := Option.map_eq_some_iff.mp h
  exact Timestamp.ofText?_text? hs

/-- Null stands for nothing, and something is read as itself by whoever does not read null. -/
theorem orNull?_json (hnull : read .null = none) {a : Option α} {v : Option Json}
    (h : Option.Rel (fun x v => read (ofJson v) = some x) a v) :
    orNull? read (ofJson (v.getD .null)) = some a := by
  cases h with
  | none => rfl
  | @some x v hread =>
      have hvalue : ofJson v ≠ .null := by
        intro heq
        rw [heq, hnull] at hread
        cases hread
      rw [Option.getD_some, orNull?, hread]
      · rfl
      · exact hvalue

/-- A list is read item by item. -/
theorem items?_json {xs : List α} {vs : List Json}
    (h : List.Forall₂ (fun x v => read (ofJson v) = some x) xs vs) :
    items? read (ofJson (.arr vs)) = some xs := by
  change (ofItems vs).mapM read = some xs
  induction h with
  | nil => rfl
  | cons hread _ ih =>
      rw [ofItems, List.mapM_cons, hread, ih]
      rfl

/-- A list of written records is read back when each of them is. -/
theorem items?_records (read : Node → Option α) {xs : List α} {write : α → Option Fields}
    {written : List Fields} (h : xs.mapM write = some written)
    (hread : ∀ a fields, write a = some fields → read (ofJson fields.json) = some a) :
    items? read (ofJson (.arr (written.map Fields.json))) = some xs :=
  items?_json (List.forall₂_map_right_iff.mpr
    ((mapM_eq_some_iff.mp h).imp fun a fields hwrite => hread a fields hwrite))

theorem text?_json (s : String) : text? (ofJson (.str s)) = some s := rfl

end Node

/-! ### Payloads -/

namespace Json

/-- A field whose name comes before all others is put in front of them. -/
theorem insertField_of_lt {name : String} {value : Json} {fields : List (String × Json)}
    (h : ∀ f ∈ fields, name < f.1) : insertField name value fields = (name, value) :: fields := by
  cases fields with
  | nil => rfl
  | cons f rest => rw [insertField, if_pos (h f List.mem_cons_self)]

mutual

/-- Sorting leaves a canonical value as it is. -/
theorem sorted_of_canonical : (v : Json) → v.Canonical → v.sorted = v
  | null, _ | bool _, _ | num _, _ | str _, _ => rfl
  | arr items, h => congrArg arr (sortedItems_of_canonical items h)
  | obj fields, h => congrArg obj (sortedFields_of_canonical fields h.1 h.2)

theorem sortedItems_of_canonical :
    (items : List Json) → CanonicalItems items → sortedItems items = items
  | [], _ => rfl
  | v :: items, h => by
      rw [sortedItems, sorted_of_canonical v h.1, sortedItems_of_canonical items h.2]

theorem sortedFields_of_canonical : (fields : List (String × Json)) → Ascending fields →
    CanonicalFields fields → sortedFields fields = fields
  | [], _, _ => rfl
  | (n, v) :: fields, hascending, h => by
      obtain ⟨hfirst, hrest⟩ := List.pairwise_cons.mp hascending
      rw [sortedFields, sorted_of_canonical v h.1, sortedFields_of_canonical fields hrest h.2,
        insertField_of_lt hfirst]

end

end Json

theorem Node.payload?_json (p : Json.Payload) : payload? (ofJson p.json) = some p := by
  obtain ⟨v, hv⟩ := p
  simp [payload?, Json.Payload.of, Json.sorted_of_canonical v hv]

/-! ### Records -/

namespace Record

variable {dialect : Dialect} {names : List String} {fields : List (String × Json)}

/-- All fields of an object with distinct names are read when all of its names are asked for. -/
theorem read?_obj (hnames : fields.map Prod.fst = names) (hnodup : names.Nodup) :
    read? dialect names (.ofJson (.obj fields)) =
      some (fields.map fun f => (f.1, Node.ofJson f.2)) := by
  have hfst : (Node.ofJsonFields fields).map Prod.fst = names := by
    rw [Node.ofJsonFields_eq_map, List.map_map]
    exact hnames
  have hall : (Node.ofJsonFields fields).filter (fun f => names.contains f.1) =
      Node.ofJsonFields fields := by
    refine List.filter_eq_self.mpr fun f hf => ?_
    rw [← hfst]
    simpa using List.mem_map_of_mem (f := Prod.fst) hf
  change known? names (Node.ofJsonFields fields) = _
  rw [known?, hall, hfst, if_pos hnodup, Node.ofJsonFields_eq_map]

/-- A written record is read as its fields. -/
theorem read?_json {fields : Fields} (hnames : fields.map Prod.fst = names) (hnodup : names.Nodup) :
    read? dialect names (.ofJson fields.json) =
      some (fields.map fun f => (f.1, Node.ofJson (f.2.getD .null))) := by
  rw [Fields.json, read?_obj (by rw [List.map_map]; exact hnames) hnodup, List.map_map]
  rfl

variable {α : Type} {n m : String} {v : Node} {r : Record} {read : Node → Option α}

/-- The first field is read when it has the name, and skipped when it has another one. -/
theorem required?_cons :
    required? ((m, v) :: r) n read = if n = m then read v else required? r n read := by
  split
  · rename_i h
    simp [required?, h]
  · rename_i h
    rw [required?, List.lookup_cons, beq_eq_false_iff_ne.mpr h, required?]

theorem optional?_cons {missing : α} :
    optional? ((m, v) :: r) n missing read =
      if n = m then read v else optional? r n missing read := by
  split
  · rename_i h
    simp [optional?, h]
  · rename_i h
    rw [optional?, List.lookup_cons, beq_eq_false_iff_ne.mpr h, optional?]

end Record

end Overhaul
