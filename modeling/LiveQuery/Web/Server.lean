/-
LiveQuery/Web/Server.lean

The web server over one document: where it listens, what it is started with, and its session.
-/
import LiveQuery.Document
import LiveQuery.Terminal.Options
import LiveQuery.Web.Api

namespace LiveQuery

namespace Web

open Terminal

/-- Where a server listens, and whether it is run to look for its own mistakes.  What was asked
for without a value is left to the server. -/
structure Address where
  host : Option Text
  portNumber : Option Int
  debug : Bool
  deriving DecidableEq, Repr

/-- The options that say where a server listens. -/
def Address.specs : List OptionSpec :=
  [⟨"--host".toList, .text⟩, ⟨"--port".toList, .number⟩, ⟨"--verbose".toList, .flag⟩]

/-- Where a server listens by a command line: on this machine only, unless it is told otherwise. -/
def Address.ofCommandLine (l : CommandLine) : Address where
  host := l.text "--host" (some "127.0.0.1".toList)
  portNumber := l.number "--port" (some 8000)
  debug := l.has "--verbose"

/-- What a server is started with. -/
structure Server where
  file : Option Text
  address : Address
  recording : Bool
  deriving DecidableEq, Repr

namespace Server

/-- The options of the server. -/
def specs : List OptionSpec := Address.specs ++ [⟨"--telemetry".toList, .flag⟩]

/-- The server that a command line asks for. -/
def ofArguments (arguments : List Text) : Except Stop Server :=
  (CommandLine.read specs arguments).map fun l =>
    ⟨l.file, .ofCommandLine l, l.has "--telemetry"⟩

variable {ρ σ τ : Type} [Time τ] [Glyphs]

/-- The session of a server, over the document that it was started with. -/
def session (s : Server) (evaluator : Evaluator) (folder : Folder) (input : Document.Input) :
    Except LoadError (Desk τ) :=
  (Document.load folder input s.file).map fun (doc, name) =>
    .ofSession (.ofSource ⟨evaluator, doc, 0⟩ name Session.defaultCapacity) s.recording

/-- Answers the requests that come, and ends the session. -/
def serve (f : Framework ρ σ) (requests : List ρ) (d : Desk τ) : List σ × Desk τ :=
  let (responses, d) := respondAll f requests d
  (responses, d.shutDown)

end Server

end Web

end LiveQuery
