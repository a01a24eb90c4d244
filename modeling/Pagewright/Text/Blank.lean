import Pagewright.Text.CodeRange

/-!
# Blank characters

Blanks are the characters of the Unicode property `White_Space`, which is wider than the six
characters of the programming tradition: a no-break space or an ideographic space is blank too.
Stylesheets are trimmed by this set, and a log filter made of blanks alone counts as absent.
-/

namespace Pagewright.Text

/-- The code points of the property `White_Space`. -/
def blankRanges : List CodeRange :=
  [(0x9, 0xd), (0x20, 0x20), (0x85, 0x85), (0xa0, 0xa0), (0x1680, 0x1680), (0x2000, 0x200a),
   (0x2028, 0x2029), (0x202f, 0x202f), (0x205f, 0x205f), (0x3000, 0x3000)]

/-- The character is white space. -/
def isBlank (c : Char) : Bool :=
  inRanges blankRanges c

/-- The text without the blanks it starts with. -/
def trimLeft (cs : List Char) : List Char :=
  cs.dropWhile isBlank

/-- The text without the blanks it ends with. -/
def trimRight (cs : List Char) : List Char :=
  (cs.reverse.dropWhile isBlank).reverse

/-- The text without the blanks at its two ends. -/
def trim (cs : List Char) : List Char :=
  trimRight (trimLeft cs)

/-- The text holds blanks only, or nothing. -/
def allBlank (s : String) : Bool :=
  s.toList.all isBlank

end Pagewright.Text
