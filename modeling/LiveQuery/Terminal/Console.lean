/-
LiveQuery/Terminal/Console.lean

A session at a terminal: a session on a loop, together with what has been printed.
-/
import LiveQuery.Host.Looped

namespace LiveQuery

namespace Terminal

/-- A session at a terminal.  `isScreen` says whether the output goes to a terminal, `colours`
whether it may be coloured. -/
structure Console (τ : Type) where
  looped : Looped τ
  out : Text := []
  err : Text := []
  isScreen : Bool
  colours : Bool

/-- An operation at a terminal, which may raise a fault; what was printed stays printed. -/
abbrev Op (τ α : Type) := ExceptT Fault (StateM (Console τ)) α

variable {τ : Type} [Time τ] [Glyphs]

/-- Prints a text. -/
def write (t : Text) : Op τ Unit := modify fun c => { c with out := c.out ++ t }

/-- Prints a line. -/
def say (t : Text) : Op τ Unit := write (t ++ [Text.newline])

/-- Prints a line of the error output. -/
def complain (t : Text) : Op τ Unit :=
  modify fun c => { c with err := c.err ++ t ++ [Text.newline] }

/-- A text in the colour of the given parameters, where colours are shown. -/
def tinted (parameters : String) (t : Text) : Op τ Text := do
  if (← get).colours then return Display.painted (Display.sequence parameters) t else return t

/-- Prints a line in a colour. -/
def sayIn (parameters : String) (t : Text) : Op τ Unit := do say (← tinted parameters t)

/-- Does an operation of the session on its loop. -/
def onLoop {α : Type} (op : Looped.Op τ α) : Op τ α := fun c =>
  let (r, looped) := op.run c.looped
  (r, { c with looped })

/-- Does a command of the session. -/
def command {α : Type} (c : Command τ α) : Op τ α := onLoop (Looped.perform c)

/-- The state of the session. -/
def session : Op τ Session := return (← get).looped.desk.client

/-- The report of latencies, if they are recorded. -/
def summary : Op τ (Option Text) := return (← get).looped.desk.latency.summary

/-- The errors of a session in words, for an error line. -/
def errorLine (m : Text) : Text := "error: ".toList ++ m

end Terminal

end LiveQuery
