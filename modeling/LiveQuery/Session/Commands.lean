/-
LiveQuery/Session/Commands.lean

The commands of a session: editing the filter, completing it, moving the window, and keeping a
result.

A command that changes the filter mints a sequence number in the same step, either with the delay
of the debounce (`queue`) or without (`executeNow`), and requests the keys of the new context if
they are neither shown nor awaited.
-/
import LiveQuery.Session.State

namespace LiveQuery

/-- A session with its dispatcher. -/
abbrev Desk (τ : Type) := Dispatcher τ Session

/-- A command of a session. -/
abbrev Command (τ α : Type) := Act τ Session α

namespace Desk

open Dispatcher

variable {τ : Type} [Time τ] [Glyphs]

/-- A new session.  `recording` says whether latencies are recorded. -/
def ofSession (s : Session) (recording : Bool) : Desk τ where
  client := s
  now := Time.zero
  latency := { enabled := recording }

/-- Changes the state of the session alone. -/
def edit (f : Session → Session) : Command τ Unit := act (onClient f)

/-- The state of the session. -/
def session : Command τ Session := return (← get).client

/-- Requests the keys at the current path, unless they are shown or awaited. -/
def fetchKeys : Command τ Unit := do
  let d ← get
  let path := d.client.currentPath
  if d.client.keysPath ≠ some path ∧ d.awaited ≠ some path then
    edit fun s => { s with available := [] }
    requestKeys Session.hooks path

/-- Runs the first filter, and requests the keys of the document. -/
def start : Command τ Unit := do
  executeNow Session.hooks
  fetchKeys

/-- The filter text was changed. -/
def setFilter (text : Text) : Command τ Unit := do
  edit (Session.setText text)
  act queue
  fetchKeys

/-! ### Completion -/

/-- Offers the suggestions for a text, which becomes the filter. -/
def Session.offer (text : Text) (s : Session) : Session :=
  let ((suggestions, context), memo) := s.source.suggest text s.memo
  { s with filter := text, suggestions, context, memo }

/-- The text to complete: behind a closing bracket a dot is added, so that the keys of the
element are offered. -/
def drilled (text : Text) : Text := if text.getLast? = some ']' then text ++ ['.'] else text

/-- The text with the suggestion completed and a dot behind it, where there is a single
suggestion and it has been typed out. -/
def completed? (s : Session) : Option Text :=
  match s.suggestions with
  | [only] =>
    if !s.context.incomplete.isEmpty && only == s.context.incomplete then
      some (s.context.accept s.filter only ++ ['.'])
    else none
  | _ => none

/-- Begins to complete the filter, and answers the suggestions for it. -/
def tab : Command τ (List Text) := do
  let before := (← session).filter
  edit fun s => { Session.offer (drilled before) s with mode := .completing, selected := 0 }
  if let some text := completed? (← session) then edit (Session.offer text)
  if (← session).filter ≠ before then
    act queue
    fetchKeys
  return (← session).suggestions

/-- The element of a list at an index, where a negative index counts from the end. -/
def itemAt? {α : Type} (items : List α) (i : Int) : Option α :=
  if 0 ≤ i then items[i.toNat]?
  else if -i ≤ items.length then items[items.length - i.natAbs]?
  else none

/-- Moves the selection among the suggestions, around their ends, and answers the selected
one. -/
def cycle (step : Int) : Command τ (Option Text) := do
  let s ← session
  if s.suggestions.isEmpty then return none
  let selected := Int.fmod (s.selected + step) s.suggestions.length
  edit fun s => { s with selected }
  return itemAt? s.suggestions selected

/-- Ends completing. -/
def cancelSuggestions : Command τ Unit :=
  edit fun s => { s with mode := .normal, suggestions := [], selected := 0 }

/-- Selects a suggestion by its number, which may be none of theirs. -/
def select (i : Int) : Command τ Unit := edit fun s => { s with selected := i }

/-- Puts the selected suggestion into the filter, if there is one, and runs the filter at
once. -/
def accept : Command τ Text := do
  let s ← session
  let text ←
    if s.suggestions.isEmpty then pure s.filter
    else
      match itemAt? s.suggestions s.selected with
      | some chosen => pure (s.context.accept s.filter chosen)
      | none => throw .outOfRange
  cancelSuggestions
  edit (Session.setText text)
  executeNow Session.hooks
  fetchKeys
  return (← session).filter

/-- Takes up a filter that was committed before. -/
def pickRecent (text : Text) : Command τ Unit := do
  edit fun s => { Session.setText text s with mode := .normal }
  executeNow Session.hooks
  fetchKeys

/-- Takes up a filter and runs it at once; a host that can wait waits for its result then. -/
def runNow (text : Text) : Command τ Unit := do
  edit (Session.setText text)
  executeNow Session.hooks

/-! ### Results and windows -/

/-- Keeps the filter among the recent ones and answers the output that is shown, unless there is
none. -/
def commit : Command τ (Option Text) := do
  let s ← session
  match s.outcome with
  | .failed _ => return none
  | .output raw =>
    if raw.isEmpty then return none
    edit fun s => { s with recent := s.recent.add s.filter }
    return some raw

/-- Moves the window by some lines, within the lines there are. -/
def scroll (dy : Int) : Command τ Unit :=
  edit fun s => { s with y := (min (s.y + dy) (s.lines.length - 1)).toNat }

/-- Moves the window by some cells, within the widest line. -/
def scrollAcross (dx : Int) : Command τ Unit := edit fun s => s.moveTo (s.x + dx)

/-- Moves the window to the start of the lines. -/
def home : Command τ Unit := edit fun s => { s with x := 0 }

/-- Moves the window to the end of the widest line. -/
def toEnd : Command τ Unit := edit fun s => { s with x := s.maxX }

/-- Gives the window another width. -/
def resize (width : Int) : Command τ Unit :=
  edit fun s => Session.moveTo s.x { s with width }

/-- The rows of the window, of the given height and, if one is given, another width. -/
def visibleRows (width : Option Int) (height : Int) : Command τ (List Text) := do
  if let some w := width then
    if w ≠ (← session).width then resize w
  let s ← session
  let (rs, store) := Display.rows ⟨s.x, s.y, s.width, height⟩ (!s.outcome.isOk) s.store s.lines
  edit fun s => { s with store }
  return rs

/-! ### Waiting -/

/-- What becomes of a command that waits, under a host that cannot. -/
def refuseToWait {α : Type} : Command τ α := throw .noLoop

end Desk

end LiveQuery
