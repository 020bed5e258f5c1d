/-
LiveQuery/Completion/Suggestions.lean

Keys offered for a filter text: those at the path of its context that continue the typed part of
a key, whatever the case of their letters.  Behind a bar they come from what the filter before
the bar puts out.
-/
import LiveQuery.Completion.Context
import LiveQuery.Query.Memo
import LiveQuery.Text.Lower

namespace LiveQuery

/-- The keys that begin with `typed`, compared in lower case. -/
def matchPrefix (keys : List Text) (typed : Text) : List Text :=
  keys.filter fun k => k.lower.startsWith typed.lower

/-- The keys for the side panel: all of them where nothing has been typed. -/
def panelKeys (keys : List Text) (typed : Text) : List Text :=
  if typed.isEmpty then keys else matchPrefix keys typed

namespace Source

/-- The context of a filter text. -/
def context (s : Source) (text : Text) : StateM Memo Context := Context.ofText s.isValid text

/-- Two filters, the second one behind a bar. -/
def piped (left right : Text) : Text := left ++ " | ".toList ++ right

/-- The text with its last two characters replaced by the index of the first item, if they are
the brackets of an iteration. -/
def firstItem? (left : Text) : Option Text :=
  if left.endsWith "[]".toList then some (left.take (left.length - 2) ++ "[0]".toList) else none

/-- The keys at the path `right` behind a bar, from what `left` puts out.  Where `left` iterates,
its first item is tried before, and its keys are taken if it has any. -/
def keysAfterBar (s : Source) (left right : Text) : StateM Memo (Except Fault (List Text)) := do
  let behind (text : Text) : Text :=
    if right = [] || right = Context.rootPath then text else piped text right
  let whole := s.keysAt (behind left)
  match firstItem? left with
  | none => whole
  | some item =>
    match ← s.keysAt (behind item) with
    | .error (.query _) => whole
    | .error f => return .error f
    | .ok [] => whole
    | .ok keys => return .ok keys

/-- The keys at the path of a context: behind a bar that has a filter before it, or at the path
alone. -/
def keysInContext (s : Source) (text path : Text) : StateM Memo (Except Fault (List Text)) :=
  match text.splitLast '|' with
  | some (before, _) =>
    let left := before.trim
    if left.isEmpty then s.keysAt path else s.keysAfterBar left path
  | none => s.keysAt path

/-- The keys offered for a filter text, in increasing order, with its context.  Where the keys
cannot be had, nothing is offered. -/
def suggest (s : Source) (text : Text) : StateM Memo (List Text × Context) := do
  let context ← s.context text
  match ← s.keysInContext text context.path with
  | .ok keys => return (Text.sort (matchPrefix keys context.incomplete), context)
  | .error _ => return ([], context)

end Source

end LiveQuery
