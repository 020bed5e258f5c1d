/-
LiveQuery/Session/State.lean

One session over one document: the filter being edited, what is shown of its last result, and
what is offered to complete it.

The state is the client of a dispatcher.  `Session.hooks` says how filters are run and looked up
through the memo tables, and what an accepted result or key list changes.
-/
import LiveQuery.Completion.Suggestions
import LiveQuery.Display.Rows
import LiveQuery.Session.Dispatcher
import LiveQuery.Session.Recent

namespace LiveQuery

/-- Whether suggestions are being chosen from. -/
inductive Mode
  | normal
  | completing
  deriving DecidableEq, Repr

/-- The name of a mode. -/
def Mode.name : Mode → Text
  | normal => "normal".toList
  | completing => "autocomplete".toList

/-- The state of a session. -/
structure Session where
  source : Source
  memo : Memo := {}
  name : Text := []
  filter : Text := ['.']
  context : Context
  mode : Mode := .normal
  suggestions : List Text := []
  selected : Int := 0
  /-- The keys at `keysPath`, as long as that is the path of the context. -/
  available : List Text := []
  keysPath : Option Text := none
  outcome : Outcome := .output []
  /-- The lines of the outcome. -/
  lines : List Text := [[]]
  /-- The width of the widest line. -/
  maxWidth : Nat := 0
  x : Nat := 0
  y : Nat := 0
  width : Int := 80
  recent : Recent := {}
  store : PaintStore

namespace Session

/-- The number of painted lines that are kept by default. -/
def defaultCapacity : Int := 4096

/-- Sets the filter text, and its context with it. -/
def setText (text : Text) (s : Session) : Session :=
  let (context, memo) := s.source.context text s.memo
  { s with filter := text, context, memo }

/-- A new session, at the filter `.`. -/
def ofSource (source : Source) (name : Text) (capacity : Int) : Session :=
  let (context, memo) := source.context ['.'] {}
  { source, memo, name, context, store := .ofCapacity capacity }

/-- The path whose keys are shown. -/
def currentPath (s : Session) : Text :=
  if s.context.path.isEmpty then Context.rootPath else s.context.path

/-- The keys for the side panel. -/
def panel (s : Session) : List Text := panelKeys s.available s.context.incomplete

/-- The greatest offset to which a window can be moved. -/
def maxX (s : Session) : Nat := (s.maxWidth - s.width).toNat

/-- Moves the window to an offset, or as near to it as it can be. -/
def moveTo (x : Int) (s : Session) : Session := { s with x := (min x (s.maxX : Int)).toNat }

/-- Takes an accepted outcome: it is shown from now on, and the window is moved back where it
has become shorter or narrower. -/
def present [Glyphs] (o : Outcome) (s : Session) : Session :=
  let lines := o.lines
  let s := { s with
    outcome := o
    lines
    maxWidth := Text.maxWidth lines
    y := min s.y (lines.length - 1) }
  s.moveTo s.x

/-- Takes the keys at a path. -/
def takeKeys (path : Text) (keys : Option (List Text)) (s : Session) : Session :=
  { s with keysPath := some path, available := keys.getD [] }

/-- Runs a filter on the document, through the memo tables. -/
def execute (text : Text) (cancelled : Bool) (s : Session) :
    (Except Fault Outcome × Bool) × Session :=
  let (r, memo) := s.source.execute text (if cancelled then .cancelled else .live) s.memo
  (r, { s with memo })

/-- Looks up the keys at a path, through the memo tables. -/
def keysAt (path : Text) (s : Session) : Except Fault (List Text) × Session :=
  let (r, memo) := s.source.keysAt path s.memo
  (r, { s with memo })

/-- What a session is to its dispatcher. -/
def hooks [Glyphs] : Hooks Session where
  filter := filter
  execute := execute
  commit := present
  keysAt := some keysAt
  current _ s := s.currentPath
  takeKeys := takeKeys

end Session

end LiveQuery
