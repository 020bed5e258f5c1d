/-
LiveQuery/Terminal/Invocation.lean

What the command line program is asked to do.
-/
import LiveQuery.Web.Server

namespace LiveQuery

namespace Terminal

/-- What the program is to do with the document.  A path or text that is none was asked for
without a value, and cannot be had. -/
inductive Errand
  /-- Answer requests of the web. -/
  | serve (address : Web.Address)
  /-- Print the keys at a path. -/
  | keys (path : Option Text)
  /-- Print the suggestions for a text. -/
  | suggest (text : Option Text)
  /-- Answer lines, in a window of the given size where one is given. -/
  | converse (width height : Option Int)
  /-- Print the output of a filter. -/
  | run (filter : Option Text)
  deriving DecidableEq, Repr

/-- A call of the program: the file that holds the document, the errand, and whether latencies
are recorded. -/
structure Invocation where
  file : Option Text
  errand : Errand
  recording : Bool
  deriving DecidableEq, Repr

namespace Invocation

/-- The options of the program. -/
def specs : List OptionSpec :=
  [⟨"--filter".toList, .text⟩, ⟨"--keys".toList, .text⟩, ⟨"--suggest".toList, .text⟩,
   ⟨"--repl".toList, .flag⟩, ⟨"--serve".toList, .flag⟩, ⟨"--width".toList, .number⟩,
   ⟨"--height".toList, .number⟩, ⟨"--telemetry".toList, .flag⟩] ++ Web.Address.specs

/-- The errand of a command line.  Of several that are named, the first one of serving, keys,
suggestions and lines is done; where none is named a filter is run, by default the identity. -/
def errandOf (l : CommandLine) : Errand :=
  if l.has "--serve" then .serve (.ofCommandLine l)
  else if l.has "--keys" then .keys (l.text "--keys" none)
  else if l.has "--suggest" then .suggest (l.text "--suggest" none)
  else if l.has "--repl" then
    .converse (l.number "--width" none) (l.number "--height" none)
  else .run (l.text "--filter" (some ['.']))

/-- How the program is called. -/
def usage : Text :=
  "usage: livequery ".toList ++ (specs.map fun s =>
    '[' :: s.name ++ (if s.kind = .flag then [] else " VALUE".toList) ++ "] ".toList).flatten ++
    "[file]".toList

/-- What a command line asks for. -/
def ofArguments (arguments : List Text) : Except Stop Invocation :=
  (CommandLine.read specs arguments).map fun l => ⟨l.file, errandOf l, l.has "--telemetry"⟩

end Invocation

end Terminal

end LiveQuery
