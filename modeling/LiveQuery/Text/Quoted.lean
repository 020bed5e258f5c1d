/-
LiveQuery/Text/Quoted.lean

A text or bytes as a quoted literal, for reports that must show every character: single quotes by
default, double quotes where there is a single quote and no double one inside, and a backslash
escape for the quote itself, the backslash and whatever is not printable.  Of bytes those of ASCII
are shown as characters.
-/
import LiveQuery.Text.Basic
import LiveQuery.Text.Printable

namespace LiveQuery

namespace Text

/-- The quotation mark around a text: the single one, unless the text holds it and does not
hold the double one. -/
def quoteMark (t : Text) : Char :=
  if t.contains '\'' && !t.contains '"' then '"' else '\''

/-- One character inside a literal that is closed by `mark`. -/
def quotedChar (mark c : Char) : Text :=
  if c = mark || c = '\\' then ['\\', c]
  else if c = '\t' then ['\\', 't']
  else if c = '\n' then ['\\', 'n']
  else if c = '\r' then ['\\', 'r']
  else if isPrintable c then [c]
  else
    let n := c.toNat
    if n < 0x100 then '\\' :: 'x' :: hex 2 n
    else if n < 0x10000 then '\\' :: 'u' :: hex 4 n
    else '\\' :: 'U' :: hex 8 n

/-- The literal that shows a text. -/
def quoted (t : Text) : Text :=
  let mark := quoteMark t
  mark :: (t.flatMap (quotedChar mark) ++ [mark])

/-- One byte inside a literal that is closed by `mark`. -/
def quotedByte (mark : Char) (b : Nat) : Text :=
  if b < 0x7F then quotedChar mark (Char.ofNat b) else '\\' :: 'x' :: hex 2 b

/-- The literal that shows bytes. -/
def quotedBytes (bs : List Nat) : Text :=
  let mark := quoteMark (bs.map Char.ofNat)
  'b' :: mark :: (bs.flatMap (quotedByte mark) ++ [mark])

end Text

end LiveQuery
