/-
LiveQuery/Display/Rows.lean

Rows of a window: the lines that are seen, clipped, painted and filled to the width.

Painted lines are kept in a bounded store under the clipped text.  The oldest entry leaves first,
whether or not it has been used since.
-/
import LiveQuery.Display.Paint
import LiveQuery.Display.Window

namespace LiveQuery

/-- Painted lines by their texts, oldest first. -/
structure PaintStore where
  capacity : Nat
  lines : List (Text × Text) := []

namespace PaintStore

/-- An empty store.  There is room for one line at least. -/
def ofCapacity (capacity : Int) : PaintStore where
  capacity := max 1 capacity.toNat

/-- The painted form of a line, if it is kept. -/
def get? (s : PaintStore) (line : Text) : Option Text :=
  (s.lines.find? fun e => e.1 = line).map Prod.snd

/-- The number of lines kept. -/
def size (s : PaintStore) : Nat := s.lines.length

/-- The painted form of a line, kept from now on; the oldest line makes room for it. -/
def paint (s : PaintStore) (line : Text) : Text × PaintStore :=
  if line.isEmpty then ([], s)
  else
    match s.get? line with
    | some painted => (painted, s)
    | none =>
      let painted := Display.paint line
      let lines := s.lines ++ [(line, painted)]
      (painted, { s with lines := if s.capacity < lines.length then lines.drop 1 else lines })

end PaintStore

namespace Display

variable [Glyphs]

/-- A styled text filled with spaces to a number of cells. -/
def pad (styled : Text) (width : Int) : Text :=
  styled ++ spaces (width - visibleWidth styled).toNat

/-- A window on a list of lines. -/
structure View where
  x : Int
  y : Int
  width : Int
  height : Int
  deriving DecidableEq, Repr

/-- The row of a line, and the store after painting it. -/
def row (v : View) (isError : Bool) (store : PaintStore) (line : Text) : Text × PaintStore :=
  let shown := (window line v.x v.width).text
  let (styled, store) := if isError then (paintError shown, store) else store.paint shown
  (pad styled v.width, store)

/-- The rows of some lines, one after the other. -/
def rowsOf (v : View) (isError : Bool) (store : PaintStore) : List Text → List Text × PaintStore
  | [] => ([], store)
  | line :: rest =>
    let (r, store) := row v isError store line
    let (rs, store) := rowsOf v isError store rest
    (r :: rs, store)

/-- The rows of a window: those of the lines it shows, and blank ones below them. -/
def rows (v : View) (isError : Bool) (store : PaintStore) (lines : List Text) :
    List Text × PaintStore :=
  let height := v.height.toNat
  let lines := if lines.isEmpty then [[]] else lines
  let (rs, store) := rowsOf v isError store ((lines.drop v.y.toNat).take height)
  (rs ++ List.replicate (height - rs.length) (spaces v.width.toNat), store)

end Display

end LiveQuery
