/-
LiveQuery/Path/Keys.lean

The keys of a value, and the keys at the end of a path: a walk through the document that follows
one value, for `[]` the first item.
-/
import LiveQuery.Json.Value
import LiveQuery.Path.Basic

namespace LiveQuery

namespace Value

/-- The most items for which an index is offered. -/
def maxIndexHints : Nat := 256

/-- The hint for an item. -/
def indexHint (n : Nat) : Text := '[' :: (Text.ofNat n ++ [']'])

/-- The keys of an object in increasing order, the indices of an array, and nothing otherwise. -/
def keys : Value → List Text
  | object members => Text.sort (members.map Prod.fst)
  | array items => (List.range (min items.length maxIndexHints)).map indexHint
  | _ => []

/-- One step of the walk: a missing member is null, a missing item or a value of the wrong kind
ends it. -/
def step? : Value → Step → Option Value
  | object members, .key name => some ((member? name members).getD null)
  | array items, .index n => items[n]?
  | array items, .iter => items.head?
  | _, _ => none

/-- The value at the end of a path. -/
def walk? (v : Value) : Path → Option Value
  | [] => some v
  | s :: rest =>
    match v.step? s with
    | some w => w.walk? rest
    | none => none

/-- The keys at the end of a path, none where the walk ends before. -/
def keysAt (v : Value) (p : Path) : List Text :=
  match v.walk? p with
  | some w => w.keys
  | none => []

end Value

end LiveQuery
