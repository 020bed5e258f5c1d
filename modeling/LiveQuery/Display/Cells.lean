/-
LiveQuery/Display/Cells.lean

Cells of a character terminal.  How large each character is drawn is known to the terminal alone
(`Glyphs`).  One that is drawn over another, a combining character say, takes a cell nonetheless,
so that clipping, padding and markers agree on every position.
-/
import LiveQuery.Text.Basic

namespace LiveQuery

/-- The sizes in which a terminal draws characters, in cells. -/
class Glyphs where
  size : Char → Nat

namespace Text

variable [Glyphs]

/-- The number of cells a character takes. -/
def cells (c : Char) : Nat := max 1 (Glyphs.size c)

/-- The number of cells a text takes. -/
def width : Text → Nat
  | [] => 0
  | c :: rest => cells c + width rest

/-- The greatest width among the lines, and 0 for none. -/
def maxWidth (ls : List Text) : Nat := ls.foldr (fun l w => max (width l) w) 0

/-- The longest part from the start of a text that fits into `room` cells. -/
def fit (room : Nat) : Text → Text
  | [] => []
  | c :: rest => if cells c ≤ room then c :: fit (room - cells c) rest else []

/-- The longest part from the start of a text that fits into `room` cells, none of them where
`room` is not positive. -/
def trimToWidth (t : Text) (room : Int) : Text := fit room.toNat t

end Text

end LiveQuery
