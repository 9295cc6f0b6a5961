/-!
# Blanks

The characters that count as white space, and texts with the blanks around them taken off.
-/

namespace JvmLint.Text

def isBlank (c : Char) : Bool :=
  let n := c.toNat
  (0x09 ≤ n && n ≤ 0x0d) || n == 0x20 || n == 0x85 || n == 0xa0 || n == 0x1680 ||
    (0x2000 ≤ n && n ≤ 0x200a) || n == 0x2028 || n == 0x2029 || n == 0x202f || n == 0x205f || n == 0x3000

def trimList {α : Type} (p : α → Bool) (s : List α) : List α :=
  ((s.dropWhile p).reverse.dropWhile p).reverse

/-- The text without the blanks around it. -/
def trim (s : String) : String := String.ofList (trimList isBlank s.toList)

end JvmLint.Text
