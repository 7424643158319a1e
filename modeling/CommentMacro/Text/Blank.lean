import CommentMacro.Text.Ranges

/-!
# Blanks

A blank is a character of white space, of any script, or one of the four
separator controls. `Text.strip` takes the blanks off both ends of a text.
-/

namespace CommentMacro.Text

/-- White space beyond ASCII. -/
def blankRanges : CodeRanges := [
  (0x85, 0x85), (0xA0, 0xA0), (0x1680, 0x1680), (0x2000, 0x200A), (0x2028, 0x2029),
  (0x202F, 0x202F), (0x205F, 0x205F), (0x3000, 0x3000)]

/-- Tab to carriage return, the four separator controls, the space, and white
space beyond ASCII. -/
def isBlank (c : Char) : Bool :=
  (0x9 ≤ c.toNat && c.toNat ≤ 0xD) || (0x1C ≤ c.toNat && c.toNat ≤ 0x20) ||
    blankRanges.contains c

def stripEnd (t : Text) : Text :=
  (t.reverse.dropWhile isBlank).reverse

def strip (t : Text) : Text :=
  stripEnd (t.dropWhile isBlank)

end CommentMacro.Text
