/-
LiveQuery/Terminal/Program.lean

The command line program: it loads the document, does its errand, and ends the session.

However the errand ends, the report of latencies is printed where they are recorded, and the
session is ended.
-/
import LiveQuery.Terminal.Invocation
import LiveQuery.Terminal.Repl

namespace LiveQuery

namespace Terminal

/-- What the program finds around it: an evaluator, a framework for its web server, whether its
output goes to a terminal, the size of that, and the text of the setting that turns colours off. -/
structure Surroundings (ρ σ : Type) where
  evaluator : Evaluator
  framework : Web.Framework ρ σ
  isScreen : Bool := false
  plainSetting : Text := []
  columns : Int := 80
  rows : Int := 24

/-- What reaches the program while it runs: lines, or requests and perhaps an interrupt after
them. -/
structure Visitors (ρ : Type) where
  lines : List Text := []
  requests : List ρ := []
  interrupted : Bool := false

/-- How the errand ends. -/
inductive Ending (σ : Type)
  /-- With an exit code. -/
  | exit (code : Nat)
  /-- With the responses of a server, which an interrupt may have ended. -/
  | served (responses : List σ) (interrupted : Bool)
  /-- With a fault. -/
  | fault (f : Fault)

/-- A run of the program to its end. -/
inductive Run (τ σ : Type)
  /-- The command line is not carried out. -/
  | stopped (s : Stop)
  /-- There is no document. -/
  | unloaded (e : LoadError)
  /-- The errand has ended. -/
  | ended (errand : Errand) (ending : Ending σ) (console : Console τ)

/-- The rows that are left for what stands below the window. -/
def rowsBelow : Int := 4

/-- The size that is asked for, as long as it is not zero. -/
def chosen (size : Option Int) (otherwise : Int) : Int :=
  match size with
  | some n => if n = 0 then otherwise else n
  | none => otherwise

variable {ρ σ τ : Type} [Time τ] [Glyphs]

/-- The session of the program over a document with a name. -/
def Surroundings.console (s : Surroundings ρ σ) (recording : Bool) (doc : Value) (name : Text) :
    Console τ where
  looped := .ofDesk
    (.ofSession (.ofSource ⟨s.evaluator, doc, 0⟩ name Session.defaultCapacity) recording)
    true Looped.defaultDebounce
  isScreen := s.isScreen
  colours := s.isScreen && s.plainSetting.isEmpty

/-- The size of the window for lines. -/
def Surroundings.size (s : Surroundings ρ σ) (width height : Option Int) : Size where
  width := chosen width s.columns
  height := chosen height (max 1 (s.rows - rowsBelow))

/-- Asks the memo tables of the session. -/
def ask {α : Type} (f : Session → α × Session) : Op τ α :=
  command do
    let (a, s) := f (← Desk.session)
    Desk.edit fun _ => s
    return a

/-- Prints texts, each on a line of its own. -/
def sayAll (texts : List Text) : Op τ Unit := texts.forM say

/-- Answers requests of the web. -/
def respondAll (f : Web.Framework ρ σ) (requests : List ρ) : Op τ (List σ) := do
  let (responses, desk) := Web.respondAll f requests (← get).looped.desk
  modify fun c => { c with looped := { c.looped with desk } }
  return responses

/-- Says what went wrong, for the exit code of a failure. -/
def failWith (e : QueryError) : Op τ (Ending σ) := do
  complain (errorLine e.message)
  return .exit 1

/-- Does an errand. -/
def Errand.perform (s : Surroundings ρ σ) (visitors : Visitors ρ) : Errand → Op τ (Ending σ)
  | serve _ =>
    return .served (← respondAll s.framework visitors.requests) visitors.interrupted
  | keys none => throw .noPath
  | keys (some path) => do
    match ← ask (Session.keysAt path) with
    | .ok ks =>
      sayAll ks
      return .exit 0
    | .error (.query e) => failWith e
    | .error f => throw f
  | suggest none => throw .noText
  | suggest (some text) => do
    let (suggestions, context) ← ask fun s =>
      let (r, memo) := s.source.suggest text s.memo
      (r, { s with memo })
    say ("[context] path=".toList ++ context.path.quoted ++ " incomplete=".toList ++
      context.incomplete.quoted ++ " start=".toList ++ Text.ofNat context.start)
    sayAll suggestions
    return .exit 0
  | converse width height => do
    repl (s.size width height) visitors.lines
    return .exit 0
  | run none => throw .noText
  | run (some filter) => do
    match ← onLoop (Looped.run filter Looped.defaultTimeout) with
    | .output raw =>
      say raw
      return .exit 0
    | .failed e => failWith e

/-- Prints the report of latencies, and ends the session. -/
def finish : Op τ Unit := do
  if let some t ← summary then complain t
  onLoop Looped.shutDown

/-- Does an errand to its end. -/
def Errand.conclude (e : Errand) (s : Surroundings ρ σ) (visitors : Visitors ρ)
    (c : Console τ) : Ending σ × Console τ :=
  let (r, c) := (e.perform s visitors).run c
  let (_, c) := finish.run c
  match r with
  | .ok ending => (ending, c)
  | .error f => (.fault f, c)

/-- Runs the program on the files of a folder and on the standard input. -/
def program (s : Surroundings ρ σ) (folder : Folder) (input : Document.Input)
    (visitors : Visitors ρ) (arguments : List Text) : Run τ σ :=
  match Invocation.ofArguments arguments with
  | .error stop => .stopped stop
  | .ok i =>
    match Document.load folder input i.file with
    | .error e => .unloaded e
    | .ok (doc, name) =>
      let (ending, c) := i.errand.conclude s visitors (s.console i.recording doc name)
      .ended i.errand ending c

end Terminal

end LiveQuery
