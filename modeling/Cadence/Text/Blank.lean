/-!
Blanks around a text, and letters in lower case. A blank is a character with the Unicode property White_Space;
only the letters of ASCII change their case.
-/

namespace Cadence.Text

def isBlank (c : Char) : Bool :=
  let n := c.val
  (0x09 ≤ n && n ≤ 0x0D) || n == 0x20 || n == 0x85 || n == 0xA0 || n == 0x1680 ||
    (0x2000 ≤ n && n ≤ 0x200A) || n == 0x2028 || n == 0x2029 || n == 0x202F || n == 0x205F || n == 0x3000

/-- The text without the blanks at its two ends. -/
def stripped (text : String) : String :=
  String.ofList ((text.toList.dropWhile isBlank).reverse.dropWhile isBlank).reverse

def lowered (text : String) : String :=
  String.ofList (text.toList.map Char.toLower)

end Cadence.Text
