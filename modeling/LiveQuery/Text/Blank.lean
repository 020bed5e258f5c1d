/-
LiveQuery/Text/Blank.lean

White space.  A space is a character with the Unicode property `White_Space`; a blank is a space
or one of the four information separators U+001C to U+001F.  Trimming a text drops the blanks
from its ends.
-/
import LiveQuery.Text.Basic
import LiveQuery.Text.Ranges

namespace LiveQuery

namespace Text

/-- The ranges of the property `White_Space`. -/
def spaceRanges : Ranges :=
  [(0x9, 0xD), (0x20, 0x20), (0x85, 0x85), (0xA0, 0xA0), (0x1680, 0x1680), (0x2000, 0x200A),
   (0x2028, 0x2029), (0x202F, 0x202F), (0x205F, 0x205F), (0x3000, 0x3000)]

/-- A character with the property `White_Space`. -/
def isSpace (c : Char) : Bool := spaceRanges.has c

/-- A space or an information separator. -/
def isBlank (c : Char) : Bool :=
  isSpace c || Ranges.has [(0x1C, 0x1F)] c

/-- The text without its last characters that satisfy `p`. -/
def dropEndWhile (p : Char → Bool) (t : Text) : Text := (t.reverse.dropWhile p).reverse

/-- The text without its leading blanks. -/
def trimLeft (t : Text) : Text := t.dropWhile isBlank

/-- The text without its trailing blanks. -/
def trimRight (t : Text) : Text := dropEndWhile isBlank t

/-- The text without blanks at either end. -/
def trim (t : Text) : Text := trimRight (trimLeft t)

end Text

end LiveQuery
