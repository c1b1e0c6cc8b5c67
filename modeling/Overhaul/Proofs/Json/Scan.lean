import Mathlib.Data.List.Basic
import Overhaul.Json.Printer
import Overhaul.Json.Token

/-!
# Scanning what was written

A scan finds in a text what it finds in its parts, as long as no number runs on from one part into the
next (`Token.scan_append`). Main statement: the text of a value is scanned as the tokens of the value
(`Json.scan_pageChars`), provided that its numbers are read back as what they are.
-/

namespace Overhaul.Json

namespace Token

/-! ### Parts of a text -/

/-- The scan with more tokens that were found before. -/
def Scan.onto (s : Scan) (earlier : List Token) : Scan := ⟨s.tokens ++ earlier, s.mode⟩

/-- What was found before makes no difference to where a token starts. -/
theorem start?_onto (tokens earlier : List Token) (c : Char) :
    start? (tokens ++ earlier) c = (start? tokens c).map (·.onto earlier) := by
  unfold start?
  split
  case h_11 =>
    split
    · rfl
    · split <;> rfl
  all_goals rfl

theorem step_onto (s : Scan) (earlier : List Token) (c : Char) :
    step (s.onto earlier) c = (step s c).map (·.onto earlier) := by
  obtain ⟨tokens, mode⟩ := s
  cases mode with
  | gap => exact start?_onto tokens earlier c
  | word rest token =>
      cases rest with
      | nil => exact start?_onto (token :: tokens) earlier c
      | cons d rest =>
          simp only [step, Scan.onto]
          split
          · split <;> rfl
          · rfl
  | number chars =>
      simp only [step, Scan.onto]
      split
      · rfl
      · cases ofLiteral? chars with
        | none => rfl
        | some t => exact start?_onto (t :: tokens) earlier c
  | text units =>
      simp only [step, Scan.onto]
      split
      · rfl
      · split
        · rfl
        · split <;> rfl
  | escape units =>
      simp only [step, Scan.onto]
      split
      · rfl
      · cases escaped? c <;> rfl
  | unit units left value =>
      simp only [step, Scan.onto]
      cases Text.hexDigit? c with
      | none => rfl
      | some d =>
          simp only [Option.map_some]
          split <;> rfl

theorem foldlM_onto (s : Scan) (earlier : List Token) (cs : List Char) :
    cs.foldlM step (s.onto earlier) = (cs.foldlM step s).map (·.onto earlier) := by
  induction cs generalizing s with
  | nil => rfl
  | cons c cs ih =>
      simp only [List.foldlM_cons, step_onto]
      cases step s c with
      | none => rfl
      | some s' => exact ih s'

theorem finish_onto (s : Scan) (earlier : List Token) :
    finish (s.onto earlier) = (finish s).map (earlier.reverse ++ ·) := by
  obtain ⟨tokens, mode⟩ := s
  cases mode with
  | gap => simp [finish, Scan.onto]
  | number chars => cases h : ofLiteral? chars <;> simp [finish, Scan.onto, h]
  | _ => rfl

/-- After a finished scan, a character that no number can hold starts afresh. -/
theorem step_of_finish {s : Scan} {tokens : List Token} {c : Char} (h : finish s = some tokens)
    (hc : inNumber c = false) : step s c = step ⟨tokens.reverse, .gap⟩ c := by
  obtain ⟨found, mode⟩ := s
  cases mode with
  | gap =>
      cases h
      rw [List.reverse_reverse]
  | number chars =>
      obtain ⟨t, ht, rfl⟩ := Option.map_eq_some_iff.mp h
      simp [step, hc, ht]
  | _ => cases h

/-- In a text of two parts one finds what is in the parts, when no number can run on. -/
theorem scan_append {cs₁ cs₂ : List Char} {c : Char} {ts₁ ts₂ : List Token}
    (h₁ : scan cs₁ = some ts₁) (hc : inNumber c = false) (h₂ : scan (c :: cs₂) = some ts₂) :
    scan (cs₁ ++ c :: cs₂) = some (ts₁ ++ ts₂) := by
  obtain ⟨s₁, hs₁, hfinish⟩ := Option.bind_eq_some_iff.mp h₁
  have hfresh : (⟨ts₁.reverse, .gap⟩ : Scan) = Scan.onto ⟨[], .gap⟩ ts₁.reverse := rfl
  have hrest : (c :: cs₂).foldlM step s₁ =
      (c :: cs₂).foldlM step (Scan.onto ⟨[], .gap⟩ ts₁.reverse) := by
    rw [List.foldlM_cons, List.foldlM_cons, step_of_finish hfinish hc, hfresh]
  obtain ⟨s₂, hs₂, hfinish₂⟩ := Option.bind_eq_some_iff.mp h₂
  rw [scan, List.foldlM_append, hs₁]
  change ((c :: cs₂).foldlM step s₁).bind finish = _
  rw [hrest, foldlM_onto, hs₂, Option.map_some, Option.bind_some, finish_onto, hfinish₂,
    Option.map_some, List.reverse_reverse]

/-- A character that is a token by itself, or none, makes no difference to what follows it. -/
theorem scan_cons {c : Char} (ts : List Token) (h : start? [] c = some ⟨ts.reverse, .gap⟩)
    (cs : List Char) : scan (c :: cs) = (scan cs).map (ts ++ ·) := by
  have hstep : step ⟨[], .gap⟩ c = some (Scan.onto ⟨[], .gap⟩ ts.reverse) := h
  rw [scan, List.foldlM_cons, hstep]
  change (cs.foldlM step (Scan.onto ⟨[], .gap⟩ ts.reverse)).bind finish = _
  rw [foldlM_onto, scan]
  cases cs.foldlM step ⟨[], .gap⟩ with
  | none => rfl
  | some s => simp [finish_onto]

/-! ### Strings -/

/-- An escaped character is one unit of the string. -/
theorem foldlM_escape (units : List Nat) (c : Char) :
    (escape c).foldlM step ⟨[], .text units⟩ = some ⟨[], .text (c.toNat :: units)⟩ := by
  unfold escape
  split
  case h_6 hquote hbackslash _ _ _ =>
    split
    · rename_i h
      rw [h]
      rfl
    split
    · rename_i h
      rw [h]
      rfl
    split
    · rename_i hcontrol
      have hdigits : Text.padded 16 4 c.toNat = [Text.digitChar (c.toNat / 16 / 16 / 16 % 16),
          Text.digitChar (c.toNat / 16 / 16 % 16), Text.digitChar (c.toNat / 16 % 16),
          Text.digitChar (c.toNat % 16)] := by simp [Text.padded]
      have hdigit : ∀ n, Text.hexDigit? (Text.digitChar (n % 16)) = some (n % 16) :=
        fun n => Text.hexDigit?_digitChar (Nat.mod_lt _ (by decide))
      have hvalue : ((c.toNat / 16 / 16 / 16 % 16 * 16 + c.toNat / 16 / 16 % 16) * 16 +
          c.toNat / 16 % 16) * 16 + c.toNat % 16 = c.toNat := by omega
      rw [hdigits]
      simp [step, hdigit, hvalue]
    · rename_i hprintable
      simp only [List.foldlM_cons, List.foldlM_nil, step, if_neg hquote, if_neg hbackslash,
        if_neg hprintable]
      rfl
  all_goals rfl

/-- The units of characters stand for those characters. -/
theorem ofUnits?_map_toNat (cs : List Char) : ofUnits? (cs.map Char.toNat) = some cs := by
  induction cs with
  | nil => rfl
  | cons c cs ih =>
      have hvalid := c.valid
      have hhigh : ¬(0xD800 ≤ c.toNat ∧ c.toNat < 0xDC00) := by
        simp only [Char.toNat, UInt32.isValidChar, Nat.isValidChar] at hvalid ⊢
        omega
      have hlow : ¬(0xDC00 ≤ c.toNat ∧ c.toNat < 0xE000) := by
        simp only [Char.toNat, UInt32.isValidChar, Nat.isValidChar] at hvalid ⊢
        omega
      rw [List.map_cons, ofUnits?.eq_def]
      dsimp only
      rw [if_neg hhigh, if_neg hlow, ih, Option.map_some, Char.ofNat_toNat]

/-- A string in quotes is one token. -/
theorem scan_quoted (s : String) : scan (quoted s) = some [.text (some s)] := by
  have hescaped : ∀ (cs : List Char) (units : List Nat),
      (cs.flatMap escape).foldlM step ⟨[], .text units⟩ =
        some ⟨[], .text ((cs.map Char.toNat).reverse ++ units)⟩ := by
    intro cs
    induction cs with
    | nil => exact fun units => rfl
    | cons c cs ih =>
        intro units
        rw [List.flatMap_cons, List.foldlM_append, foldlM_escape]
        change (cs.flatMap escape).foldlM step _ = _
        rw [ih, List.map_cons, List.reverse_cons, List.append_assoc, List.singleton_append]
  have hopen : step ⟨[], .gap⟩ '"' = some ⟨[], .text []⟩ := rfl
  rw [scan, quoted, List.foldlM_cons, hopen]
  change ((s.toList.flatMap escape ++ ['"']).foldlM step ⟨[], .text []⟩).bind finish = _
  rw [List.foldlM_append, hescaped, List.append_nil]
  have hunits : ofUnits? (s.toList.map Char.toNat).reverse.reverse = some s.toList := by
    rw [List.reverse_reverse, ofUnits?_map_toNat]
  change finish ⟨[.text ((ofUnits? (s.toList.map Char.toNat).reverse.reverse).map String.ofList)],
    .gap⟩ = _
  rw [hunits, Option.map_some, String.ofList_toList]
  rfl

/-! ### Brackets and separators -/

/-- The blanks of a line's end stand for nothing. -/
theorem scan_newline (level : Nat) (cs : List Char) : scan (newline level ++ cs) = scan cs := by
  have hblank : ∀ (c : Char), start? [] c = some ⟨[], .gap⟩ → ∀ cs, scan (c :: cs) = scan cs := by
    intro c hc cs
    rw [scan_cons [] hc]
    simp
  rw [newline, List.cons_append, hblank '\n' rfl]
  induction 2 * level with
  | zero => rfl
  | succ n ih => rw [List.replicate_succ, List.cons_append, hblank ' ' rfl, ih]

/-- Tokens with commas between them. -/
def separated : List (List Token) → List Token
  | [] => []
  | [ts] => ts
  | ts :: rest => ts ++ .comma :: separated rest

/-- Parts on lines of their own are found one after the other, with commas between them. -/
theorem scan_joined (level : Nat) {parts : List (List Char)} {tokens : List (List Token)}
    (h : List.Forall₂ (fun part ts => scan part = some ts) parts tokens) :
    scan (joined (',' :: newline level) parts) = some (separated tokens) := by
  induction h with
  | nil => rfl
  | @cons part ts parts tokens hpart hparts ih =>
      cases hparts with
      | nil => exact hpart
      | @cons part' ts' parts tokens hpart' hparts =>
          have hcomma : scan (',' :: (newline level ++ joined (',' :: newline level)
              (part' :: parts))) = some (.comma :: separated (ts' :: tokens)) := by
            rw [scan_cons [.comma] rfl, scan_newline, ih]
            rfl
          have hsplit : joined (',' :: newline level) (part :: part' :: parts) =
              part ++ ',' :: (newline level ++ joined (',' :: newline level) (part' :: parts)) := by
            simp [joined]
          rw [hsplit]
          exact scan_append hpart rfl hcomma

/-- Brackets around parts are found around what is found in the parts. -/
theorem scan_block {level : Nat} {opening closing : Char} {topen tclose : Token}
    (hopen : start? [] opening = some ⟨[topen], .gap⟩)
    (hclose : start? [] closing = some ⟨[tclose], .gap⟩) {parts : List (List Char)}
    {tokens : List (List Token)}
    (h : List.Forall₂ (fun part ts => scan part = some ts) parts tokens) :
    scan (block level opening closing parts) = some (topen :: separated tokens ++ [tclose]) := by
  have hlast : scan [closing] = some [tclose] := by
    rw [scan_cons [tclose] hclose]
    rfl
  unfold block
  split
  · rename_i hempty
    subst hempty
    cases h
    rw [scan_cons [topen] hopen, hlast]
    rfl
  · have hend : scan ('\n' :: (List.replicate (2 * level) ' ' ++ [closing])) = some [tclose] := by
      rw [← List.cons_append, ← newline, scan_newline, hlast]
    have hsplit : opening :: newline (level + 1) ++ joined (',' :: newline (level + 1)) parts ++
        newline level ++ [closing] = opening :: (newline (level + 1) ++
          (joined (',' :: newline (level + 1)) parts ++
            '\n' :: (List.replicate (2 * level) ' ' ++ [closing]))) := by simp [newline]
    rw [hsplit, scan_cons [topen] hopen, scan_newline,
      scan_append (scan_joined (level + 1) h) rfl hend]
    rfl

end Token

/-! ### Values -/

mutual

/-- The numbers of the value are read back as what they are. -/
def Legible : Json → Prop
  | null | bool _ | str _ => True
  | num n => Token.scan n.chars = some [.number (some n)]
  | arr items => LegibleItems items
  | obj fields => LegibleFields fields
termination_by structural v => v

/-- Every item is legible. -/
def LegibleItems : List Json → Prop
  | [] => True
  | v :: items => Legible v ∧ LegibleItems items
termination_by structural items => items

/-- The value of every field is legible. -/
def LegibleFields : List (String × Json) → Prop
  | [] => True
  | (_, v) :: fields => Legible v ∧ LegibleFields fields
termination_by structural fields => fields

end

mutual

/-- The tokens of a value. -/
def tokens : Json → List Token
  | null => [.null]
  | bool b => [.bool b]
  | num n => [.number (some n)]
  | str s => [.text (some s)]
  | arr items => .openList :: Token.separated (itemTokens items) ++ [.closeList]
  | obj fields => .openRecord :: Token.separated (fieldTokens fields) ++ [.closeRecord]
termination_by structural v => v

/-- The tokens of each item. -/
def itemTokens : List Json → List (List Token)
  | [] => []
  | v :: items => tokens v :: itemTokens items
termination_by structural items => items

/-- The tokens of each field. -/
def fieldTokens : List (String × Json) → List (List Token)
  | [] => []
  | (n, v) :: fields => (.text (some n) :: .colon :: tokens v) :: fieldTokens fields
termination_by structural fields => fields

end

mutual

/-- The text of a value is scanned as the tokens of the value. -/
theorem scan_pageChars (level : Nat) :
    (v : Json) → v.Legible → Token.scan (pageChars level v) = some v.tokens
  | null, _ => rfl
  | bool true, _ => rfl
  | bool false, _ => rfl
  | num _, h => h
  | str s, _ => Token.scan_quoted s
  | arr items, h => Token.scan_block rfl rfl (scan_pageItems (level + 1) items h)
  | obj fields, h => Token.scan_block rfl rfl (scan_pageFields (level + 1) fields h)

theorem scan_pageItems (level : Nat) : (items : List Json) → LegibleItems items →
    List.Forall₂ (fun part ts => Token.scan part = some ts) (pageItems level items)
      (itemTokens items)
  | [], _ => .nil
  | v :: items, h => .cons (scan_pageChars level v h.1) (scan_pageItems level items h.2)

theorem scan_pageFields (level : Nat) : (fields : List (String × Json)) → LegibleFields fields →
    List.Forall₂ (fun part ts => Token.scan part = some ts) (pageFields level fields)
      (fieldTokens fields)
  | [], _ => .nil
  | (n, v) :: fields, h => by
      refine .cons ?_ (scan_pageFields level fields h.2)
      have hvalue : Token.scan (':' :: ' ' :: pageChars level v) = some (.colon :: v.tokens) := by
        rw [Token.scan_cons [.colon] rfl, Token.scan_cons [] rfl,
          scan_pageChars level v h.1]
        rfl
      exact Token.scan_append (Token.scan_quoted n) rfl hvalue

end

end Overhaul.Json
