/-
LiveQuery/Desktop/Gesture.lean

The keys and mouse wheels that the desktop window answers to.
-/
import LiveQuery.Text.Basic

namespace LiveQuery

namespace Desktop

/-- Where a gesture is made. -/
inductive Place
  | entry
  | output
  deriving DecidableEq, Repr

/-- What the window answers to. -/
inductive Gesture
  /-- A key of the entry was let go. -/
  | typed
  | tab
  | enter
  | escape
  | up
  | down
  | left
  | right
  /-- A wheel that tells how far it was turned. -/
  | wheel
  /-- The wheel as two further buttons of the mouse. -/
  | wheelUp
  | wheelDown
  deriving DecidableEq, Repr

/-- The keys that edit nothing when they are let go. -/
def silentKeys : List Text :=
  ["Tab".toList, "Return".toList, "Escape".toList, "Up".toList, "Down".toList, "Shift_L".toList,
   "Shift_R".toList]

end Desktop

end LiveQuery
