/-
LiveQuery/Desktop/Window.lean

The state of the desktop window: what its widgets show, the sessions it has opened, and the timers
that are still to go off.

A session is opened for each document that is loaded, and the one opened last is shown.  Those
before it have been ended, but their alarms and completions remain on the clock of the window.

Design.  An operation of the window may break down, and what it has done before stays done.  Alarms
and completions of a session become timers of the window as soon as the command that left them is
over.  A document is loaded in the background step by step, so that an alarm may go off between any
two: the loading leaves an alarm, lets go of the reason of a failure, and ends.
-/
import LiveQuery.Desktop.Labels
import LiveQuery.Document
import LiveQuery.Host.Looped
import LiveQuery.Host.Timers

namespace LiveQuery

namespace Desktop

/-- What goes off on the clock of the window. -/
inductive Alarm
  /-- The output and the keys are to be shown anew. -/
  | redraw
  /-- A document has been loaded. -/
  | loaded (document : Value) (name : Text)
  /-- A document could not be loaded: the failure of this number. -/
  | notLoaded (failure : Nat)
  /-- A session is called back. -/
  | session (index : Nat) (callback : Callback)

/-- Why an operation breaks down. -/
inductive Breakdown
  /-- The session raised a fault. -/
  | fault (f : Fault)
  /-- The reason to be told had been let go of. -/
  | lostReason
  deriving DecidableEq, Repr

/-- How far the loading in the background has come. -/
inductive Loader
  | idle
  /-- It is about to load what stands under a path. -/
  | begins (path : Text)
  /-- It has left an alarm and is about to end.  Before that it lets go of the reason of a failure,
  if it has the number of one. -/
  | ends (failure : Option Nat)
  deriving DecidableEq, Repr

/-- A question for a file: its title, and the names and patterns of the kinds of files. -/
structure FileQuestion where
  title : Text
  patterns : List (Text × Text)
  deriving DecidableEq, Repr

/-- What the user is told or asked beside the window, and what is known of breakdowns. -/
inductive Notice
  | asked (question : FileQuestion)
  | informed (title message : Text)
  | warned (title message : Text)
  | brokeDown (reason : Breakdown)
  deriving DecidableEq, Repr

/-- The window. -/
structure Window (τ : Type) where
  evaluator : Evaluator
  folder : Folder
  /-- Whether the jobs of the sessions end at once. -/
  immediate : Bool := true
  /-- Whether the sessions record latencies. -/
  recording : Bool := false
  clock : Timers τ Alarm
  /-- The sessions, in the order in which they were opened. -/
  desks : List (Desk τ) := []
  loader : Loader := .idle
  /-- Why documents could not be loaded, by the numbers of the failures; nothing where the reason
  has been let go of. -/
  reasons : List (Option LoadError) := []
  /-- The number of the timer started last for a redraw. -/
  redrawTimer : Option Nat := none
  status : Text := statusLine readyState
  source : Text := noSource
  busy : Bool := false
  entry : Text := ['.']
  cursor : Nat := 0
  focused : Bool := false
  output : Text := noOutput
  keysLabel : Text := keysTitle
  keys : Text := []
  log : Text := greeting ++ [Text.newline]
  printed : Text := []
  notices : List Notice := []
  destroyed : Bool := false
  /-- The width of the output and of a character, in points of the screen. -/
  paneWidth : Int
  charWidth : Int

/-- An operation of the window, which may break down. -/
abbrev Op (τ α : Type) := ExceptT Breakdown (StateM (Window τ)) α

namespace Window

variable {τ : Type} [Time τ] [Glyphs]

/-- Adds a notice. -/
def notice (n : Notice) (w : Window τ) : Window τ := { w with notices := w.notices ++ [n] }

/-- Does an operation; a breakdown is noticed, and the window goes on. -/
def guarded {α : Type} (op : Op τ α) (w : Window τ) : Option α × Window τ :=
  match op.run w with
  | (.ok a, w) => (some a, w)
  | (.error b, w) => (none, w.notice (.brokeDown b))

/-- Starts a timer. -/
def after (millis : Int) (a : Alarm) (w : Window τ) : Window τ :=
  { w with clock := w.clock.start (Time.ofMillis millis) a }

/-- The number of redraws that are still to come. -/
def redraws (w : Window τ) : Nat :=
  w.clock.pending.countP fun t => match t.action with
    | .redraw => true
    | _ => false

end Window

variable {τ : Type} [Time τ] [Glyphs]

/-! ### Sessions -/

/-- Hands what a session has left to the clock. -/
def Window.handOver (index : Nat) (d : Desk τ) (w : Window τ) : Window τ :=
  let d := if w.immediate then Looped.completeAll d else d
  let w := d.alarms.foldl
    (fun w seq => w.after Looped.defaultDebounce (.session index (.debounce seq))) w
  let w := d.posted.foldl (fun w c => w.after 0 (.session index c)) w
  { w with desks := w.desks.set index { d with alarms := [], posted := [] } }

/-- Does a command of a session, if there is one of this index. -/
def onDesk {α : Type} (index : Nat) (c : Command τ α) : Op τ (Option α) := fun w =>
  match w.desks[index]? with
  | none => (.ok none, w)
  | some d =>
    let (r, d) := c.run { d with now := w.clock.now }
    let w := w.handOver index d
    match r with
    | .ok a => (.ok (some a), w)
    | .error f => (.error (.fault f), w)

/-- Does a command of the session that is shown. -/
def onShown {α : Type} (c : Command τ α) : Op τ (Option α) := do
  onDesk ((← get).desks.length - 1) c

/-- The session that is shown. -/
def Window.shown? (w : Window τ) : Option (Desk τ) := w.desks.getLast?

/-- A job of a session ends, by default of the one that is shown. -/
def complete (index : Option Nat) (job : Nat) : Op τ Unit := do
  let last := (← get).desks.length - 1
  let _ ← onDesk (index.getD last) (Dispatcher.act (Dispatcher.complete Session.hooks job))

/-! ### What is shown -/

/-- Shows a state. -/
def setStatus (state : Text) : Op τ Unit := modify fun w => { w with status := statusLine state }

/-- Adds a line to the log. -/
def report (t : Text) : Op τ Unit := modify fun w => { w with log := w.log ++ t ++ [Text.newline] }

/-- Puts a text into the entry, and the cursor behind it. -/
def replaceEntry (t : Text) : Op τ Unit :=
  modify fun w => { w with entry := t, cursor := t.length }

/-- The rows of the output, and the fewest columns that it has. -/
def outputRows : Int := 40
def minColumns : Int := 20

/-- The columns of the output. -/
def Window.columns (w : Window τ) : Int := max minColumns (w.paneWidth.fdiv (max 1 w.charWidth))

/-- The state of a session: the kind of its error, or that it runs, or how many lines it shows. -/
def stateOf (d : Desk τ) : Text :=
  match d.client.outcome with
  | .failed e => e.kind ++ " error".toList
  | .output _ =>
    if d.running then "Running…".toList
    else Text.grouped d.client.lines.length ++ " lines".toList

/-- Rows as the text of a box: without colours, spaces at the ends, and empty rows below. -/
def outputText (rows : List Text) : Text :=
  Text.dropEndWhile (· = Text.newline)
    (Text.joinWith [Text.newline] (rows.map fun r => (Display.plain r).trimRight))

/-- Shows the output and the state of the session. -/
def refreshOutput : Op τ Unit := do
  if let some rows ← onShown (Desk.visibleRows (some (← get).columns) outputRows) then
    if let some d := (← get).shown? then setStatus (stateOf d)
    modify fun w => { w with output := outputText rows }

/-- Suggestions as lines, with a mark before the selected one. -/
def markedFrom (selected : Int) (i : Nat) : List Text → List Text
  | [] => []
  | t :: rest =>
    ((if (i : Int) = selected then "> " else "  ").toList ++ t) ::
      markedFrom selected (i + 1) rest

/-- Shows the suggestions of the session, or the keys of its context. -/
def refreshKeys : Op τ Unit := do
  if let some d := (← get).shown? then
    let s := d.client
    let show_ (title : Text) (lines : List Text) : Op τ Unit := modify fun w =>
      { w with keysLabel := title, keys := Text.joinWith [Text.newline] lines }
    if !s.suggestions.isEmpty then show_ suggestionsTitle (markedFrom s.selected 0 s.suggestions)
    else show_ (if s.context.incomplete.isEmpty then keysTitle else matchesTitle) s.panel

/-- The time between redraws, in thousandths of a second. -/
def redrawPeriod : Int := 50

/-- Shows everything anew, now and again after a while. -/
def redraw : Op τ Unit := do
  refreshOutput
  refreshKeys
  modify fun w => { w.after redrawPeriod .redraw with redrawTimer := some w.clock.nextNumber }

end Desktop

end LiveQuery
