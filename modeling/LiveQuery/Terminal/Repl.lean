/-
LiveQuery/Terminal/Repl.lean

The interactive loop: each line is a filter, or a command that begins with a colon, and is
answered by the window on the result and the keys of the context.
-/
import LiveQuery.Terminal.Console
import LiveQuery.Text.Digit

namespace LiveQuery

namespace Terminal

/-- What a line asks for. -/
inductive Line
  | quit
  | clear
  | telemetry
  /-- The suggestions, or the one of a number to be accepted. -/
  | tab (argument : Option Text)
  /-- The recent filters, or the one of a number to be taken up. -/
  | recent (argument : Option Text)
  | left
  | right
  | home
  | toEnd
  | up
  | down
  | unknown (name : Text)
  | filter (text : Text)
  deriving DecidableEq, Repr

/-- The argument of a command, if it is given. -/
def argument? (t : Text) : Option Text := if t.isEmpty then none else some t

/-- The command of a name. -/
def Line.ofCommand (name argument : Text) : Line :=
  match String.ofList name with
  | ":clear" => clear
  | ":cls" => clear
  | ":telemetry" => telemetry
  | ":tab" => tab (argument? argument)
  | ":hist" => recent (argument? argument)
  | ":left" => left
  | ":right" => right
  | ":home" => home
  | ":end" => toEnd
  | ":up" => up
  | ":down" => down
  | _ => unknown name

/-- What a line asks for.  An empty line ends the loop, a colon after blanks begins a command, and
everything else is a filter, blanks included. -/
def Line.ofText (raw : Text) : Line :=
  if raw.isEmpty then quit
  else
    let trimmed := raw.trim
    if trimmed.startsWith [':'] then
      let (name, argument) := trimmed.splitFirst ' '
      ofCommand name argument
    else filter raw

/-- The size of the window of the loop. -/
structure Size where
  width : Int
  height : Int

/-- The parameters of the colours: of what is said beside the result, of an answer about
latencies, of a refusal, and of an error. -/
def quiet : String := "2;37"
def aside : String := "2;36"
def refusal : String := "2;31"
def alarm : String := "31"

/-- The number of cells by which the window is moved across. -/
def acrossStep : Int := 8

/-- The most keys that are listed. -/
def maxKeys : Nat := 20

variable {τ : Type} [Time τ] [Glyphs]

/-- Prints the rows of the window, without the spaces at their ends. -/
def printWindow (size : Size) : Op τ Unit := do
  let rows ← command (Desk.visibleRows (some size.width) size.height)
  let colours := (← get).colours
  for row in rows do
    say (if colours then row else Display.plain row).trimRight

/-- Prints the keys of the context. -/
def printKeys : Op τ Unit := do
  let s ← session
  let keys := s.panel
  let typing := !s.context.incomplete.isEmpty
  if keys.isEmpty then sayIn quiet (if typing then "(no matches)" else "(no keys)").toList
  else
    let label := (if typing then "Matching keys" else "Available keys").toList
    let rest := keys.length - maxKeys
    let shown := Text.joinWith ", ".toList (keys.take maxKeys) ++
      if rest = 0 then [] else " …+".toList ++ Text.ofNat rest ++ " more".toList
    say ((← tinted quiet (label ++ ": ".toList)) ++ shown)

/-- Prints texts with their numbers. -/
def printNumbered (n : Nat) : List Text → Op τ Unit
  | [] => pure ()
  | t :: rest => do
    say (Text.padRight 3 (Text.ofNat n) ++ ' ' :: t)
    printNumbered (n + 1) rest

/-- Prints texts with their numbers, or what to say where there are none. -/
def printList (texts : List Text) (none : String) : Op τ Unit :=
  if texts.isEmpty then sayIn quiet none.toList else printNumbered 0 texts

/-- Prints the answer to a line: the window, the error if there is one, and the keys.  A result
without an error is committed. -/
def printAnswer (size : Size) : Op τ Unit := do
  printWindow size
  match (← session).outcome with
  | .failed e => sayIn alarm ("Error: ".toList ++ e.message)
  | .output _ => let _ ← command Desk.commit
  printKeys

/-- Accepts the suggestion of a number, and tells whether there is one. -/
def acceptNumbered (argument : Text) : Op τ Bool := do
  if (← session).suggestions.isEmpty then let _ ← command Desk.tab
  match Text.readInt? argument with
  | none =>
    sayIn refusal "usage: :tab [n]".toList
    return false
  | some n =>
    command (Desk.select n)
    if 0 ≤ n ∧ n < (← session).suggestions.length then
      let _ ← command Desk.accept
      return true
    else
      command Desk.cancelSuggestions
      sayIn refusal "(no such suggestion)".toList
      return false

/-- Takes up the recent filter of a number, and tells whether there is one. -/
def pickNumbered (argument : Text) : Op τ Bool := do
  match (Text.readInt? argument).bind (Desk.itemAt? (← session).recent.items) with
  | some text =>
    command (Desk.pickRecent text)
    return true
  | none =>
    sayIn refusal "(no such history entry)".toList
    return false

/-- Does what a line asks for, and tells whether the window is to be shown afterwards. -/
def doLine (size : Size) : Line → Op τ Bool
  | .quit => return false
  | .clear => do
    if (← get).isScreen then write [Display.esc, '[', '2', 'J', Display.esc, '[', 'H'] else say []
    return false
  | .telemetry => do
    match ← summary with
    | some t => say t
    | none => sayIn aside "(telemetry disabled)".toList
    return false
  | .tab none => do
    printList (← command Desk.tab) "(no suggestions)"
    return false
  | .tab (some argument) => acceptNumbered argument
  | .recent none => do
    printList (← session).recent.items "(history empty)"
    return false
  | .recent (some argument) => pickNumbered argument
  | .left => do command (Desk.scrollAcross (-acrossStep)); return true
  | .right => do command (Desk.scrollAcross acrossStep); return true
  | .home => do command Desk.home; return true
  | .toEnd => do command Desk.toEnd; return true
  | .up => do command (Desk.scroll ((-size.height).fdiv 2)); return true
  | .down => do command (Desk.scroll (size.height.fdiv 2)); return true
  | .unknown name => do
    sayIn refusal ("unknown command ".toList ++ name)
    return false
  | .filter text => do command (Desk.setFilter text); return true

/-- Answers a line, and tells whether the loop goes on. -/
def answerLine (size : Size) (raw : Text) : Op τ Bool := do
  match Line.ofText raw with
  | .quit =>
    say "Goodbye!".toList
    return false
  | line =>
    if ← doLine size line then
      let _ ← onLoop (Looped.settle Looped.defaultTimeout)
      printAnswer size
    return true

/-- Begins the loop: says how it is used, and runs the first filter. -/
def greet : Op τ Unit := do
  say "Type a jq filter and press Enter (empty line to quit).".toList
  sayIn quiet ("Commands: :tab [n], :hist [n], :left, :right, :home, :end, :up, :down, " ++
    ":telemetry, :clear").toList
  let _ ← onLoop (Looped.run ['.'] Looped.defaultTimeout)

/-- Answers lines until one ends the loop or there are no more. -/
def answerLines (size : Size) : List Text → Op τ Unit
  | [] => say []
  | raw :: rest => do
    if ← answerLine size raw then answerLines size rest

/-- The interactive loop over the given lines. -/
def repl (size : Size) (lines : List Text) : Op τ Unit := do
  greet
  answerLines size lines

end Terminal

end LiveQuery
