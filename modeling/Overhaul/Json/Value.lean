import Overhaul.Json.Number

/-!
# JSON values

A value keeps the order of the fields of its objects, which is the order they are written in. In a
*canonical* value every object lists its fields in the strictly ascending order of their names.
Main statement: `sorted` makes any value canonical, the last of several fields of one name winning.
-/

namespace Overhaul

/-- A JSON value. -/
inductive Json
  | null
  | bool (b : Bool)
  | num (n : Json.Number)
  | str (s : String)
  | arr (items : List Json)
  | obj (fields : List (String × Json))
  deriving Repr

namespace Json

/-! ### Equality is decidable -/

mutual

/-- Decides equality of values. -/
def decEq : (a b : Json) → Decidable (a = b)
  | null, null => .isTrue rfl
  | bool a, bool b => decidable_of_iff (a = b) (by simp)
  | num a, num b => decidable_of_iff (a = b) (by simp)
  | str a, str b => decidable_of_iff (a = b) (by simp)
  | arr a, arr b =>
    have := decEqItems a b
    decidable_of_iff (a = b) (by simp)
  | obj a, obj b =>
    have := decEqFields a b
    decidable_of_iff (a = b) (by simp)
  | null, bool _ | null, num _ | null, str _ | null, arr _ | null, obj _
  | bool _, null | bool _, num _ | bool _, str _ | bool _, arr _ | bool _, obj _
  | num _, null | num _, bool _ | num _, str _ | num _, arr _ | num _, obj _
  | str _, null | str _, bool _ | str _, num _ | str _, arr _ | str _, obj _
  | arr _, null | arr _, bool _ | arr _, num _ | arr _, str _ | arr _, obj _
  | obj _, null | obj _, bool _ | obj _, num _ | obj _, str _ | obj _, arr _ =>
    .isFalse (by simp)
termination_by structural a => a

/-- Decides equality of the items of arrays. -/
def decEqItems : (as bs : List Json) → Decidable (as = bs)
  | [], [] => .isTrue rfl
  | [], _ :: _ | _ :: _, [] => .isFalse (by simp)
  | a :: as, b :: bs =>
    have := decEq a b
    have := decEqItems as bs
    decidable_of_iff (a = b ∧ as = bs) (by simp)
termination_by structural as => as

/-- Decides equality of the fields of objects. -/
def decEqFields : (as bs : List (String × Json)) → Decidable (as = bs)
  | [], [] => .isTrue rfl
  | [], _ :: _ | _ :: _, [] => .isFalse (by simp)
  | (k, a) :: as, (l, b) :: bs =>
    have := decEq a b
    have := decEqFields as bs
    decidable_of_iff (k = l ∧ a = b ∧ as = bs) (by simp [and_assoc])
termination_by structural as => as

end

instance : DecidableEq Json := decEq

/-! ### The canonical order of fields -/

/-- The fields with one more, unless there is one of that name. -/
def insertField (name : String) (value : Json) : List (String × Json) → List (String × Json)
  | [] => [(name, value)]
  | (n, v) :: rest =>
    if name < n then (name, value) :: (n, v) :: rest
    else if name = n then (n, v) :: rest
    else (n, v) :: insertField name value rest

mutual

/-- The canonical form of a value. -/
def sorted : Json → Json
  | null => null
  | bool b => bool b
  | num n => num n
  | str s => str s
  | arr items => arr (sortedItems items)
  | obj fields => obj (sortedFields fields)
termination_by structural v => v

/-- The canonical forms of the items of an array. -/
def sortedItems : List Json → List Json
  | [] => []
  | v :: items => sorted v :: sortedItems items
termination_by structural items => items

/-- The fields in order, with canonical values. -/
def sortedFields : List (String × Json) → List (String × Json)
  | [] => []
  | (n, v) :: fields => insertField n (sorted v) (sortedFields fields)
termination_by structural fields => fields

end

/-- The names stand in strictly ascending order. -/
def Ascending (fields : List (String × Json)) : Prop :=
  fields.Pairwise fun a b => a.1 < b.1

mutual

/-- Every object in the value lists its fields in strictly ascending order. -/
def Canonical : Json → Prop
  | null | bool _ | num _ | str _ => True
  | arr items => CanonicalItems items
  | obj fields => Ascending fields ∧ CanonicalFields fields
termination_by structural v => v

/-- Every item is canonical. -/
def CanonicalItems : List Json → Prop
  | [] => True
  | v :: items => Canonical v ∧ CanonicalItems items
termination_by structural items => items

/-- The value of every field is canonical. -/
def CanonicalFields : List (String × Json) → Prop
  | [] => True
  | (_, v) :: fields => Canonical v ∧ CanonicalFields fields
termination_by structural fields => fields

end

theorem mem_insertField {name : String} {value : Json} {fields : List (String × Json)}
    {f : String × Json} (h : f ∈ insertField name value fields) :
    f = (name, value) ∨ f ∈ fields := by
  fun_induction insertField name value fields <;> grind

theorem ascending_insertField {name : String} {value : Json} {fields : List (String × Json)}
    (h : Ascending fields) : Ascending (insertField name value fields) := by
  induction fields with
  | nil => exact List.pairwise_singleton _ _
  | cons f rest ih =>
    obtain ⟨n, v⟩ := f
    have hrest := List.pairwise_cons.1 h
    simp only [insertField]
    split
    · rename_i hlt
      refine List.pairwise_cons.2 ⟨fun g hg => ?_, h⟩
      rcases List.mem_cons.1 hg with rfl | hg
      · exact hlt
      · exact String.lt_trans hlt (hrest.1 g hg)
    · split
      · exact h
      · rename_i hnlt hne
        refine List.pairwise_cons.2 ⟨fun g hg => ?_, ih hrest.2⟩
        rcases mem_insertField hg with rfl | hg
        · exact Decidable.byContradiction fun h' =>
            hne (String.le_antisymm (String.not_lt.1 h') (String.not_lt.1 hnlt))
        · exact hrest.1 g hg

theorem canonicalFields_insertField {name : String} {value : Json} {fields : List (String × Json)}
    (hv : Canonical value) (h : CanonicalFields fields) :
    CanonicalFields (insertField name value fields) := by
  induction fields with
  | nil => exact ⟨hv, trivial⟩
  | cons f rest ih =>
    obtain ⟨n, v⟩ := f
    simp only [insertField]
    split
    · exact ⟨hv, h⟩
    · split
      · exact h
      · exact ⟨h.1, ih h.2⟩

theorem ascending_sortedFields (fields : List (String × Json)) :
    Ascending (sortedFields fields) := by
  induction fields with
  | nil => exact List.Pairwise.nil
  | cons f rest ih => exact ascending_insertField ih

mutual

theorem canonical_sorted : (v : Json) → Canonical (sorted v)
  | null | bool _ | num _ | str _ => trivial
  | arr items => canonicalItems_sortedItems items
  | obj fields => ⟨ascending_sortedFields fields, canonicalFields_sortedFields fields⟩

theorem canonicalItems_sortedItems : (items : List Json) → CanonicalItems (sortedItems items)
  | [] => trivial
  | v :: items => ⟨canonical_sorted v, canonicalItems_sortedItems items⟩

theorem canonicalFields_sortedFields :
    (fields : List (String × Json)) → CanonicalFields (sortedFields fields)
  | [] => trivial
  | (_, v) :: fields =>
    canonicalFields_insertField (canonical_sorted v) (canonicalFields_sortedFields fields)

end

/-! ### Values that a message can carry -/

/-- A canonical value. -/
structure Payload where
  json : Json
  canonical : json.Canonical

instance : DecidableEq Payload := fun a b =>
  decidable_of_iff (a.json = b.json) (by cases a; cases b; simp)

instance : Repr Payload := ⟨fun p n => reprPrec p.json n⟩

/-- The payload with the content of a value. -/
def Payload.of (v : Json) : Payload := ⟨v.sorted, canonical_sorted v⟩

end Json

end Overhaul
