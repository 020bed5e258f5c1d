/-
LiveQuery/Desktop/Actions.lean

What is done in the desktop window: documents are loaded, gestures are answered, time goes by, and
the window is closed.

Every change of the window is an `Action`, so that the states it can reach are those that lists of
actions lead to.
-/
import LiveQuery.Desktop.Gesture
import LiveQuery.Desktop.Window

namespace LiveQuery

namespace Desktop

variable {τ : Type} [Time τ] [Glyphs]

/-! ### Loading -/

/-- The question for a document. -/
def fileQuestion : FileQuestion where
  title := "Open JSON document".toList
  patterns := [("JSON".toList, "*.json".toList), ("All files".toList, "*.*".toList)]

/-- The user is asked for a file and answers with a path, an empty one to answer nothing.  One
document is loaded at a time. -/
def choose (path : Text) : Op τ Unit := do
  modify (Window.notice (.asked fileQuestion))
  if path.isEmpty then return
  if (← get).loader ≠ .idle then
    modify (Window.notice (.informed "Loading".toList
      "A document is already loading. Please wait.".toList))
    return
  modify fun w => { w with source := path.shortened maxSource }
  setStatus loadingState
  modify fun w => { w with busy := true, loader := .begins path }

/-- A document has been loaded or not, and an alarm is left. -/
def Window.loadEnds (w : Window τ) : Except LoadError (Value × Text) → Window τ
  | .ok (doc, name) => { w with loader := .ends none }.after 0 (.loaded doc name)
  | .error e =>
    { w with
      loader := .ends (some w.reasons.length)
      reasons := w.reasons ++ [some e] }.after 0 (.notLoaded w.reasons.length)

/-- The reason of a failure is let go of. -/
def Window.letGo (failure : Nat) (w : Window τ) : Window τ :=
  { w with loader := .ends none, reasons := w.reasons.set failure none }

/-- The reason of a failure, unless it has been let go of. -/
def Window.reason? (failure : Nat) (w : Window τ) : Option LoadError := w.reasons[failure]?.join

/-- The loading in the background takes a step. -/
def Window.work (w : Window τ) : Window τ :=
  match w.loader with
  | .idle => w
  | .begins path => w.loadEnds (Document.load w.folder .terminal (some path))
  | .ends (some failure) => w.letGo failure
  | .ends none => { w with loader := .idle }

/-- A session over a document. -/
def Window.openDesk (doc : Value) (name : Text) (w : Window τ) : Window τ :=
  let source : Source := ⟨w.evaluator, doc, w.desks.length⟩
  { w with
    desks := w.desks ++
      [.ofSession (.ofSource source name Session.defaultCapacity) w.recording] }

/-- A document has been loaded: the session before is ended, and one over the document begins with
the filter in the entry. -/
def takeDocument (doc : Value) (name : Text) : Op τ Unit := do
  modify fun w => { w with busy := false }
  let _ ← onShown (Dispatcher.act Dispatcher.shutDown)
  modify (Window.openDesk doc name)
  let text := (← get).entry
  let _ ← onShown (Desk.setFilter (if text.isEmpty then ['.'] else text))
  let _ ← onShown Desk.start
  setStatus ("Loaded ".toList ++ name)
  report ("Document ready: ".toList ++ name)
  modify fun w => { w with focused := true }
  redraw

/-- Tells why a document could not be loaded, as the log shows it and in words. -/
def tellNotLoaded (shown message : Text) : Op τ Unit := do
  modify fun w => { w with busy := false }
  setStatus notLoadedState
  report ("ERROR: ".toList ++ shown)
  modify (Window.notice (.warned "Load error".toList
    ("Failed to load document:\n".toList ++ message)))

/-! ### Gestures -/

/-- Whether suggestions are shown. -/
def suggesting (w : Window τ) : Bool :=
  match w.shown? with
  | some d => !d.client.suggestions.isEmpty
  | none => false

/-- The filter of the session that is shown. -/
def shownFilter (w : Window τ) : Text :=
  match w.shown? with
  | some d => d.client.filter
  | none => []

/-- The text in the entry may have changed.  The keys that edit nothing are passed over. -/
def typed (key : Text) : Op τ Unit := do
  let w ← get
  if w.shown?.isSome && !silentKeys.contains key && w.entry != shownFilter w then
    let _ ← onShown Desk.cancelSuggestions
    let _ ← onShown (Desk.setFilter w.entry)
    refreshKeys

/-- Moves the selection among the suggestions. -/
def cycle (step : Int) : Op τ Unit := do
  if suggesting (← get) then
    let _ ← onShown (Desk.cycle step)
    refreshKeys

/-- Begins to complete the filter, or goes on to the next suggestion. -/
def tab : Op τ Unit := do
  let w ← get
  if suggesting w then cycle 1
  else if w.shown?.isSome then
    let _ ← onShown Desk.tab
    replaceEntry (shownFilter (← get))
    refreshKeys

/-- Accepts the selected suggestion, or keeps the filter. -/
def enter : Op τ Unit := do
  if suggesting (← get) then
    if let some text ← onShown Desk.accept then replaceEntry text
    report ("Accepted: ".toList ++ shownFilter (← get))
  else if let some (some _) ← onShown Desk.commit then
    report ("Committed: ".toList ++ shownFilter (← get))
  refreshKeys

/-- Ends completing. -/
def escape : Op τ Unit := do
  let _ ← onShown Desk.cancelSuggestions
  refreshKeys

/-- Moves the window on the output across, or up and down. -/
def scrollAcross (dx : Int) : Op τ Unit := do
  let _ ← onShown (Desk.scrollAcross dx)
  refreshOutput

def scroll (dy : Int) : Op τ Unit := do
  let _ ← onShown (Desk.scroll dy)
  refreshOutput

/-- The cells and the lines by which the window on the output is moved. -/
def acrossStep : Int := 8
def wheelStep : Int := 3

/-- A gesture with what came with it: the name of the key, and how far a wheel was turned. -/
structure Press where
  gesture : Gesture
  key : Text := []
  turn : Int := 0

/-- Answers a gesture. -/
def Press.answer (p : Press) : Op τ Unit :=
  match p.gesture with
  | .typed => typed p.key
  | .tab => tab
  | .enter => enter
  | .escape => escape
  | .up => cycle (-1)
  | .down => cycle 1
  | .left => scrollAcross (-acrossStep)
  | .right => scrollAcross acrossStep
  | .wheel => scroll (if p.turn > 0 then -wheelStep else wheelStep)
  | .wheelUp => scroll (-wheelStep)
  | .wheelDown => scroll wheelStep

/-- Whether a gesture is used up by its answer, so that the widget does nothing of its own with
it.  Typing is not. -/
def Press.usedUp (p : Press) : Bool := p.gesture ≠ .typed

/-! ### Time -/

/-- Answers an alarm. -/
def Alarm.answer : Alarm → Op τ Unit
  | redraw => Desktop.redraw
  | loaded doc name => takeDocument doc name
  | notLoaded n => do
    match (← get).reason? n with
    | some e => tellNotLoaded e.shown e.message
    | none => throw .lostReason
  | session index callback => do
    let _ ← onDesk index (Dispatcher.react Session.hooks callback)

/-- At most `bound` alarms that are due by `limit` go off. -/
def Window.fireUpTo (limit : τ) : Nat → Window τ → Window τ
  | 0, w => w
  | bound + 1, w =>
    match w.clock.pop? limit with
    | some (alarm, clock) => fireUpTo limit bound (Window.guarded alarm.answer { w with clock }).2
    | none => w

/-- A number that the alarms of a span do not exceed: a timer may be a chain of redraws, and a
document that has been loaded starts one, a filter and the lookups before it. -/
def Window.alarmsWithin (span : τ) (w : Window τ) : Nat :=
  w.clock.pending.length * (Time.slices span + 16)

/-- Moves the clock on; the alarms that are due go off, unless the window has been closed. -/
def Window.advance (millis : Int) (w : Window τ) : Window τ :=
  let span : τ := Time.ofMillis millis
  let limit := w.clock.after span
  let w := if w.destroyed then w else w.fireUpTo limit (w.alarmsWithin span)
  { w with clock := w.clock.moveTo limit }

/-! ### Closing -/

/-- Takes the redraw that was started last off the clock. -/
def Window.disarm (w : Window τ) : Window τ :=
  match w.redrawTimer with
  | some n => { w with clock := w.clock.cancel n }
  | none => w

/-- The session that is shown is ended; before that its latencies are reported, where they are
recorded. -/
def endShown : Op τ Unit := do
  if let some d := (← get).shown? then
    if let some t := d.latency.summary then
      modify fun w => { w with printed := w.printed ++ t ++ [Text.newline] }
    let _ ← onShown (Dispatcher.act Dispatcher.shutDown)

/-- Closes the window.  Timers other than the one that is taken off stay on its clock. -/
def close : Op τ Unit := do
  modify Window.disarm
  endShown
  modify fun w => { w with destroyed := true }

/-! ### Actions -/

/-- What can happen to the window. -/
inductive Action
  /-- A file is chosen. -/
  | choose (path : Text)
  /-- The loading in the background takes a step. -/
  | work
  /-- A place gets another text. -/
  | edit (place : Place) (text : Text)
  /-- A gesture is made. -/
  | press (p : Press)
  /-- Time goes by. -/
  | advance (millis : Int)
  /-- A job of a session ends, by default of the one that is shown. -/
  | complete (index : Option Nat) (job : Nat)
  /-- The output gets another width. -/
  | resize (paneWidth : Int)
  | close

/-- Carries out an action, and tells whether a gesture was used up. -/
def Action.perform (a : Action) (w : Window τ) : Bool × Window τ :=
  let quietly (op : Op τ Unit) : Bool × Window τ := (false, (Window.guarded op w).2)
  match a with
  | choose path => quietly (Desktop.choose path)
  | work => (false, w.work)
  | edit .entry text => (false, { w with entry := text })
  | edit .output text => (false, { w with output := text })
  | press p =>
    let (r, w) := Window.guarded p.answer w
    (r.isSome && p.usedUp, w)
  | advance millis => (false, w.advance millis)
  | complete index job => quietly (Desktop.complete index job)
  | resize paneWidth => (false, { w with paneWidth })
  | close => quietly Desktop.close

end Desktop

end LiveQuery
