/-!
# Blanks

The characters that separate words without being seen, and texts trimmed of
them.  The set is the `White_Space` property: besides the space and the controls
from tabulator to carriage return it holds the no-break space and the wider and
narrower spaces, but not the zero width ones.
-/

namespace Storyboard.Text

/-- The characters with the property `White_Space`. -/
def isBlankChar (c : Char) : Bool :=
  let n := c.toNat
  (0x9 ≤ n && n ≤ 0xD) || n == 0x20 || n == 0x85 || n == 0xA0 || n == 0x1680 ||
    (0x2000 ≤ n && n ≤ 0x200A) || n == 0x2028 || n == 0x2029 || n == 0x202F ||
    n == 0x205F || n == 0x3000

/-- A list of characters without the blanks at its front. -/
def dropBlanks (cs : List Char) : List Char := cs.dropWhile isBlankChar

/-- A text without the blanks at both of its ends. -/
def trim (s : String) : String :=
  String.ofList (dropBlanks (dropBlanks s.toList).reverse).reverse

/-- A text is blank when it holds nothing but blanks. -/
def isBlank (s : String) : Bool := s.toList.all isBlankChar

end Storyboard.Text
