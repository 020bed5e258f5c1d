/-
LiveQuery/Session/Recent.lean

The filters committed last, the most recent one first, each of them once.
-/
import LiveQuery.Text.Basic

namespace LiveQuery

/-- Recent filters, of which at most `limit` are kept. -/
structure Recent where
  limit : Int := 50
  items : List Text := []

namespace Recent

/-- The items in front of a position; a negative position counts from the end of the items. -/
def inFront (position : Int) (items : List Text) : List Text :=
  items.take (if position < 0 then items.length + position else position).toNat

theorem inFront_of_nonneg {position : Int} (h : 0 ≤ position) (items : List Text) :
    inFront position items = items.take position.toNat := by
  rw [inFront, if_neg (Int.not_lt.mpr h)]

/-- Puts a filter in front, from where it stood or anew; the items from the limit on are forgotten.
An empty filter is not kept. -/
def add (r : Recent) (text : Text) : Recent :=
  if text.isEmpty then r
  else { r with items := inFront r.limit (text :: r.items.erase text) }

theorem limit_add (r : Recent) (text : Text) : (r.add text).limit = r.limit := by
  unfold add
  split <;> rfl

end Recent

end LiveQuery
