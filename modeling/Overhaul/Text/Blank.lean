/-!
# Blank characters

`isBlank` is membership in the Unicode property White_Space, which has more characters than core
counts as whitespace, and `trimmed` removes blanks from both ends of a text.
-/

namespace Overhaul.Text

/-- The characters with the Unicode property White_Space. -/
def isBlank (c : Char) : Bool :=
  let n := c.toNat
  (9 ≤ n && n ≤ 13) || n == 0x20 || n == 0x85 || n == 0xA0 || n == 0x1680 ||
    (0x2000 ≤ n && n ≤ 0x200A) || n == 0x2028 || n == 0x2029 || n == 0x202F || n == 0x205F ||
    n == 0x3000

/-- Characters without the blanks at either end. -/
def trimmedChars (cs : List Char) : List Char :=
  ((cs.dropWhile isBlank).reverse.dropWhile isBlank).reverse

/-- The text without the blanks at either end. -/
def trimmed (s : String) : String :=
  String.ofList (trimmedChars s.toList)

@[simp] theorem trimmedChars_nil : trimmedChars [] = [] := rfl

end Overhaul.Text
