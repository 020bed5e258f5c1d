/-
LiveQuery/Display/Window.lean

A horizontal window on a line: which slice of the line is seen from a given cell on, and how a
side that is cut off is marked.
-/
import LiveQuery.Display.Cells

namespace LiveQuery

/-- What a window shows of a line, and whether something is cut off on either side. -/
structure Clip where
  text : Text
  left : Bool
  right : Bool
  deriving DecidableEq, Repr

namespace Display

variable [Glyphs]

/-- The line without the characters that end at or before cell `x`. -/
def dropCells (x : Nat) : Text → Text
  | [] => []
  | c :: rest => if Text.cells c ≤ x then dropCells (x - Text.cells c) rest else c :: rest

/-- The slice of a line that a window of `width` cells shows from cell `x` on.  The offset is
moved into the line; a character that straddles it is shown whole. -/
def clip (line : Text) (x width : Int) : Clip :=
  if width ≤ 0 then ⟨[], 0 < x, !line.isEmpty⟩
  else if line.isEmpty then ⟨[], 0 < x, false⟩
  else
    let total := line.width
    let start := min x.toNat total
    let text := (dropCells start line).fit width.toNat
    ⟨text, 0 < start, start + text.width < total⟩

/-- The marker of a side that is cut off. -/
def mark : Char := '…'

/-- A number of spaces. -/
def spaces (n : Nat) : Text := List.replicate n ' '

/-- A text with a marker on each side that is cut off, trimmed to make room for them and filled
up to exactly `width` cells; a text that is not cut stays as it is. -/
def withMarks (text : Text) (width : Int) (left right : Bool) : Text :=
  if width ≤ 0 then []
  else if !left && !right then text
  else if width = 1 then [mark]
  else
    let room := width.toNat - (if left && right then 2 else 1)
    let body := text.fit room
    let fill := spaces (room - body.width)
    match left, right with
    | true, true => mark :: (body ++ fill ++ [mark])
    | true, false => mark :: (body ++ fill)
    | _, _ => body ++ fill ++ [mark]

/-- The window on a line, with its markers. -/
def window (line : Text) (x width : Int) : Clip :=
  let c := clip line x width
  { c with text := withMarks c.text width c.left c.right }

end Display

end LiveQuery
