/-!
Blank characters: the white space that separates words of a source text, and the cutting of blanks
off the ends of a text.

The set is the one of the Unicode property `White_Space` together with the four information
separators U+001C to U+001F.
-/

set_option autoImplicit false

namespace Boli.Text

/-- White space: the ASCII blanks, the information separators, and the Unicode spaces. -/
def isBlank (c : Char) : Bool :=
  let n := c.toNat
  (9 ≤ n && n ≤ 13) || (28 ≤ n && n ≤ 32) || n == 0x85 || n == 0xA0 || n == 0x1680 ||
    (0x2000 ≤ n && n ≤ 0x200A) || n == 0x2028 || n == 0x2029 || n == 0x202F || n == 0x205F ||
    n == 0x3000

/-- Cuts the blanks off both ends of a sequence of characters. -/
def trimChars (cs : List Char) : List Char :=
  ((cs.dropWhile isBlank).reverse.dropWhile isBlank).reverse

/-- Cuts the blanks off both ends of a text. -/
def trim (s : String) : String := String.ofList (trimChars s.toList)

end Boli.Text
