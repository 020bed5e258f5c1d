/-
LiveQuery/Json/Value.lean

JSON values.  An object is the list of its members in the order in which their keys first
appeared; a key that is given again replaces the value and keeps the place.

Functions on values recurse through the two lists of members and items by companions of their
own, so that every one of them is structural.
-/
import LiveQuery.Decimal.Shortest

namespace LiveQuery

/-- A JSON value.  Integers are unbounded; every other number is a double. -/
inductive Value
  | null
  | bool (b : Bool)
  | int (i : Int)
  | real (x : Binary64)
  | string (t : Text)
  | array (items : List Value)
  | object (members : List (Text × Value))
  deriving Inhabited

namespace Value

/-- The members with `key` bound to `value`: replaced in its place, or added at the end. -/
def setMember (key : Text) (value : Value) : List (Text × Value) → List (Text × Value)
  | [] => [(key, value)]
  | (k, v) :: rest =>
    if k = key then (k, value) :: rest else (k, v) :: setMember key value rest

/-- The value of the member with the given key. -/
def member? (key : Text) : List (Text × Value) → Option Value
  | [] => none
  | (k, v) :: rest => if k = key then some v else member? key rest

/-- The order of members by key. -/
def memberLe (a b : Text × Value) : Bool := Text.le a.1 b.1

mutual

/-- The value with the members of all its objects in increasing order of their keys. -/
def sorted : Value → Value
  | null => null
  | bool b => bool b
  | int i => int i
  | real x => real x
  | string t => string t
  | array items => array (sortedItems items)
  | object members => object ((sortedMembers members).mergeSort memberLe)

/-- The items, each with its objects sorted. -/
def sortedItems : List Value → List Value
  | [] => []
  | v :: rest => sorted v :: sortedItems rest

/-- The members in their order, each with the objects inside it sorted. -/
def sortedMembers : List (Text × Value) → List (Text × Value)
  | [] => []
  | (k, v) :: rest => (k, sorted v) :: sortedMembers rest

end

end Value

end LiveQuery
