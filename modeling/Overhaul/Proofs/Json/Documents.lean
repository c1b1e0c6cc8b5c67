import Overhaul.Json.Node
import Overhaul.Proofs.Json.Scan

/-!
# The documents of written values

Tokens make up a document by a walk along its open lists and records. `Json.Readable` says of a value
that its numbers are read back and that its lists and records are not nested too deep. Main statement:
the text of a readable value is read as the document of the value (`Node.ofText?_page`).
-/

namespace Overhaul

namespace Json

mutual

/-- How many lists and records are inside each other. -/
def depth : Json → Nat
  | null | bool _ | num _ | str _ => 0
  | arr items => itemsDepth items + 1
  | obj fields => fieldsDepth fields + 1
termination_by structural v => v

/-- The depth of the deepest item. -/
def itemsDepth : List Json → Nat
  | [] => 0
  | v :: items => max (depth v) (itemsDepth items)
termination_by structural items => items

/-- The depth of the deepest value of a field. -/
def fieldsDepth : List (String × Json) → Nat
  | [] => 0
  | (_, v) :: fields => max (depth v) (fieldsDepth fields)
termination_by structural fields => fields

end

/-- The value is read back from its text where so many more lists and records may be open. -/
structure Readable (room : Nat) (v : Json) : Prop where
  legible : v.Legible
  depth_le : v.depth ≤ room

theorem readable_null (n : Nat) : null.Readable n := ⟨trivial, Nat.zero_le n⟩

theorem readable_str (n : Nat) (s : String) : (str s).Readable n := ⟨trivial, Nat.zero_le n⟩

theorem readable_arr {n : Nat} {items : List Json} :
    (arr items).Readable (n + 1) ↔ ∀ v ∈ items, v.Readable n := by
  have hitems : LegibleItems items ∧ itemsDepth items ≤ n ↔ ∀ v ∈ items, v.Readable n := by
    induction items with
    | nil => simp [LegibleItems, itemsDepth]
    | cons v items ih =>
        rw [List.forall_mem_cons, ← ih, LegibleItems, itemsDepth, Nat.max_le]
        exact ⟨fun ⟨⟨h₁, h₂⟩, h₃, h₄⟩ => ⟨⟨h₁, h₃⟩, h₂, h₄⟩,
          fun ⟨⟨h₁, h₃⟩, h₂, h₄⟩ => ⟨⟨h₁, h₂⟩, h₃, h₄⟩⟩
  rw [← hitems]
  exact ⟨fun ⟨h, hdepth⟩ => ⟨h, Nat.le_of_succ_le_succ hdepth⟩,
    fun ⟨h, hdepth⟩ => ⟨h, Nat.succ_le_succ hdepth⟩⟩

theorem readable_obj {n : Nat} {fields : List (String × Json)} :
    (obj fields).Readable (n + 1) ↔ ∀ f ∈ fields, f.2.Readable n := by
  have hfields : LegibleFields fields ∧ fieldsDepth fields ≤ n ↔ ∀ f ∈ fields, f.2.Readable n := by
    induction fields with
    | nil => simp [LegibleFields, fieldsDepth]
    | cons f fields ih =>
        rw [List.forall_mem_cons, ← ih, LegibleFields, fieldsDepth, Nat.max_le]
        exact ⟨fun ⟨⟨h₁, h₂⟩, h₃, h₄⟩ => ⟨⟨h₁, h₃⟩, h₂, h₄⟩,
          fun ⟨⟨h₁, h₃⟩, h₂, h₄⟩ => ⟨⟨h₁, h₂⟩, h₃, h₄⟩⟩
  rw [← hfields]
  exact ⟨fun ⟨h, hdepth⟩ => ⟨h, Nat.le_of_succ_le_succ hdepth⟩,
    fun ⟨h, hdepth⟩ => ⟨h, Nat.succ_le_succ hdepth⟩⟩

mutual

/-- A value is no harder to read when its fields are sorted. -/
theorem Readable.sorted : {v : Json} → {n : Nat} → v.Readable n → v.sorted.Readable n
  | null, _, h | bool _, _, h | num _, _, h | str _, _, h => h
  | arr _, 0, h | obj _, 0, h => absurd h.depth_le (Nat.not_succ_le_zero _)
  | arr items, _ + 1, h => readable_arr.mpr (readable_sortedItems items (readable_arr.mp h))
  | obj fields, _ + 1, h => readable_obj.mpr (readable_sortedFields fields (readable_obj.mp h))

theorem readable_sortedItems : (items : List Json) → {n : Nat} → (∀ v ∈ items, v.Readable n) →
    ∀ v ∈ sortedItems items, v.Readable n
  | [], _, h => h
  | v :: items, _, h => by
      obtain ⟨hfirst, hrest⟩ := List.forall_mem_cons.mp h
      exact List.forall_mem_cons.mpr ⟨hfirst.sorted, readable_sortedItems items hrest⟩

theorem readable_sortedFields : (fields : List (String × Json)) → {n : Nat} →
    (∀ f ∈ fields, f.2.Readable n) → ∀ f ∈ sortedFields fields, f.2.Readable n
  | [], _, h => h
  | (m, v) :: fields, _, h => by
      obtain ⟨hfirst, hrest⟩ := List.forall_mem_cons.mp h
      intro f hf
      rcases mem_insertField hf with rfl | hf
      · exact hfirst.sorted
      · exact readable_sortedFields fields hrest f hf

end

end Json

namespace Node

open Json (Token)

/-- The fields of a record whose names are all usable. -/
theorem ofFields_map (fields : List (String × Node)) :
    ofFields (fields.map fun f => (some f.1, f.2)) = .record fields := by
  have hall : (fields.map fun f => (some f.1, f.2)).mapM
      (fun f : Option String × Node => f.1.map fun n => (n, f.2)) = some fields := by
    induction fields with
    | nil => rfl
    | cons f fields ih => simp [ih]
  rw [ofFields, hall]

theorem close_list (frames : List Frame) (h : frames.length < depthLimit) (items : List Node) :
    close (.list items :: frames) .closeList = some (place frames (.list items.reverse)) := by
  have hroom : ¬depthLimit < (Frame.list items :: frames).length := by
    rw [List.length_cons]
    omega
  simp only [close, if_neg hroom]

theorem close_record (frames : List Frame) (h : frames.length < depthLimit)
    (fields : List (Option String × Node)) :
    close (.record fields none :: frames) .closeRecord =
      some (place frames (ofFields fields.reverse)) := by
  have hroom : ¬depthLimit < (Frame.record fields none :: frames).length := by
    rw [List.length_cons]
    omega
  simp only [close, if_neg hroom]

mutual

/-- The tokens of a value put its document in its place. -/
theorem foldlM_tokens : (v : Json) → (frames : List Frame) → (orEnd : Bool) →
    frames.length + v.depth ≤ depthLimit →
    v.tokens.foldlM step (.within frames (.value orEnd)) = some (place frames (ofJson v))
  | .null, _, _, _ | .bool _, _, _, _ | .num _, _, _, _ | .str _, _, _, _ => rfl
  | .arr items, frames, orEnd, h => by
      rw [Json.depth] at h
      have hclose := close_list frames (by omega) (ofItems items).reverse
      rw [List.reverse_reverse] at hclose
      change ((Token.separated (Json.itemTokens items) ++ [Token.closeList]).foldlM step
        (.within (.list [] :: frames) (.value true))) = _
      by_cases hempty : items = []
      · subst hempty
        exact hclose
      · rw [List.foldlM_append, foldlM_items items hempty frames [] true (by omega),
          List.append_nil]
        exact hclose
  | .obj fields, frames, orEnd, h => by
      rw [Json.depth] at h
      have hclose := close_record frames (by omega)
        ((ofJsonFields fields).map fun f => (some f.1, f.2)).reverse
      rw [List.reverse_reverse, ofFields_map] at hclose
      change ((Token.separated (Json.fieldTokens fields) ++ [Token.closeRecord]).foldlM step
        (.within (.record [] none :: frames) (.name true))) = _
      by_cases hempty : fields = []
      · subst hempty
        exact hclose
      · rw [List.foldlM_append, foldlM_fields fields hempty frames [] true (by omega),
          List.append_nil]
        exact hclose

/-- The tokens of items add their documents to an open list. -/
theorem foldlM_items : (items : List Json) → items ≠ [] → (frames : List Frame) →
    (before : List Node) → (orEnd : Bool) →
    frames.length + 1 + Json.itemsDepth items ≤ depthLimit →
    (Token.separated (Json.itemTokens items)).foldlM step
        (.within (.list before :: frames) (.value orEnd)) =
      some (.within (.list ((ofItems items).reverse ++ before) :: frames) .more)
  | [], hne, _, _, _, _ => absurd rfl hne
  | [v], _, frames, before, orEnd, h => by
      rw [Json.itemsDepth] at h
      exact foldlM_tokens v (.list before :: frames) orEnd (by rw [List.length_cons]; omega)
  | v :: w :: items, _, frames, before, orEnd, h => by
      rw [Json.itemsDepth] at h
      have hfirst := foldlM_tokens v (.list before :: frames) orEnd
        (by rw [List.length_cons]; omega)
      have hrest := foldlM_items (w :: items) (List.cons_ne_nil w items) frames
        (ofJson v :: before) false (by omega)
      change ((v.tokens ++ .comma :: Token.separated (Json.itemTokens (w :: items))).foldlM step
        (.within (.list before :: frames) (.value orEnd))) = _
      rw [List.foldlM_append, hfirst]
      change (Token.separated (Json.itemTokens (w :: items))).foldlM step
        (.within (.list (ofJson v :: before) :: frames) (.value false)) = _
      rw [hrest, ofItems.eq_2 v, List.reverse_cons, List.append_assoc, List.singleton_append]

/-- The tokens of fields add their documents to an open record. -/
theorem foldlM_fields : (fields : List (String × Json)) → fields ≠ [] → (frames : List Frame) →
    (before : List (Option String × Node)) → (orEnd : Bool) →
    frames.length + 1 + Json.fieldsDepth fields ≤ depthLimit →
    (Token.separated (Json.fieldTokens fields)).foldlM step
        (.within (.record before none :: frames) (.name orEnd)) =
      some (.within (.record (((ofJsonFields fields).map fun f => (some f.1, f.2)).reverse ++
        before) none :: frames) .more)
  | [], hne, _, _, _, _ => absurd rfl hne
  | [(n, v)], _, frames, before, orEnd, h => by
      rw [Json.fieldsDepth] at h
      exact foldlM_tokens v (.record before (some (some n)) :: frames) false
        (by rw [List.length_cons]; omega)
  | (n, v) :: g :: fields, _, frames, before, orEnd, h => by
      rw [Json.fieldsDepth] at h
      have hfirst := foldlM_tokens v (.record before (some (some n)) :: frames) false
        (by rw [List.length_cons]; omega)
      have hrest := foldlM_fields (g :: fields) (List.cons_ne_nil g fields) frames
        ((some n, ofJson v) :: before) false (by omega)
      change ((v.tokens ++ .comma :: Token.separated (Json.fieldTokens (g :: fields))).foldlM step
        (.within (.record before (some (some n)) :: frames) (.value false))) = _
      rw [List.foldlM_append, hfirst]
      change (Token.separated (Json.fieldTokens (g :: fields))).foldlM step
        (.within (.record ((some n, ofJson v) :: before) none :: frames) (.name false)) = _
      rw [hrest, ofJsonFields.eq_2 n v, List.map_cons, List.reverse_cons, List.append_assoc,
        List.singleton_append]

end

/-- The text of a value is read as its document. -/
theorem ofText?_page {v : Json} (h : v.Readable depthLimit) : ofText? v.page = some (ofJson v) := by
  have htokens : v.tokens.foldlM step (.within [] (.value false)) = some (.whole (ofJson v)) :=
    foldlM_tokens v [] false (by simpa using h.depth_le)
  rw [ofText?, Json.page, String.toList_ofList, Json.scan_pageChars 0 v h.legible, Option.bind_some,
    ofTokens?, htokens]

end Node

end Overhaul
