/-
LiveQuery/Main.lean

The command line program.

It asks the system for what `Terminal.Surroundings` and `Document` need, and prints what they
answer.  Characters have the sizes of a common terminal, and requests are those of HTTP.  The
programs it knows are the recordings in the JSON file that the setting `LIVEQUERY_PROGRAMS` names.
A session that answers lines reads them one by one; one that serves reads requests as lines of JSON.
-/
import LiveQuery.Display.Wide
import LiveQuery.Query.Recording
import LiveQuery.Terminal.Program
import LiveQuery.Web.Wire

namespace LiveQuery

namespace Shell

open Terminal

/-- The bytes of a file as numbers. -/
def octets (b : ByteArray) : List Nat := b.toList.map UInt8.toNat

/-- All that a stream holds. -/
partial def readAll (s : IO.FS.Stream) (before : ByteArray) : IO ByteArray := do
  let b ← s.read 65536
  if b.isEmpty then return before else readAll s (before ++ b)

/-- What stands under a path. -/
def entryAt (path : Text) : IO Folder.Entry :=
  try
    return .file (octets (← IO.FS.readBinFile (String.ofList path)))
  catch
    | .inappropriateType .. => return .directory
    | _ => return .absent

/-- A setting of the system. -/
def setting (name : String) : IO Text := return ((← IO.getEnv name).getD "").toList

/-- A setting that holds a number, which is not zero. -/
def numberSetting (name : String) (otherwise : Int) : IO Int :=
  return chosen (Text.readInt? (← setting name)) otherwise

/-- The evaluator of the recorded programs. -/
def recordedPrograms : IO Evaluator := do
  let path ← setting "LIVEQUERY_PROGRAMS"
  let programs : Recordings := match ← entryAt path with
    | .file bytes =>
      match Document.ofBytes bytes with
      | .ok (.object ms) => Recordings.ofMembers ms
      | _ => []
    | _ => []
  return Recordings.evaluator programs false

/-- Prints what a console has gathered, and goes on with an empty one. -/
def flush (c : Console Float) : IO (Console Float) := do
  let out ← IO.getStdout
  out.putStr (String.ofList c.out)
  out.flush
  (← IO.getStderr).putStr (String.ofList c.err)
  return { c with out := [], err := [] }

/-- A line of the standard input, without its end; `none` where there are no more. -/
def nextLine : IO (Option Text) := do
  let line ← (← IO.getStdin).getLine
  if line.isEmpty then return none
  return some (Text.dropEndWhile (fun c => c = '\n' || c = '\r') line.toList)

/-- Answers lines as they come. -/
partial def converseWith (size : Size) (c : Console Float) : IO (Console Float) := do
  let out ← IO.getStdout
  out.putStr "> "
  out.flush
  match ← nextLine with
  | none => return ((say (τ := Float) []).run c).2
  | some line =>
    match (answerLine size line).run c with
    | (.ok true, c) => converseWith size (← flush c)
    | (_, c) => return c

/-- Answers requests as they come. -/
partial def serveLines (c : Console Float) : IO (Console Float) := do
  match ← nextLine with
  | none => return c
  | some line =>
    match Web.Request.ofLine? line with
    | none => serveLines c
    | some r =>
      match (respondAll Web.http [r]).run c with
      | (.ok responses, c) =>
        for response in responses do IO.println (String.ofList response.toLine)
        serveLines c
      | (.error _, c) => return c

/-- Does an errand on a session, and gives the exit code. -/
def perform (s : Surroundings Web.Request Web.Response) (e : Errand) (c : Console Float) :
    IO UInt32 := do
  let ended (c : Console Float) : IO UInt32 := do
    let _ ← flush (finish.run c).2
    return 0
  match e with
  | .converse width height =>
    let size := s.size width height
    ended (← converseWith size (← flush (greet.run c).2))
  | .serve a =>
    IO.eprintln (String.ofList ("serving ".toList ++ a.host.getD [] ++
      ':' :: (a.portNumber.map Text.ofInt).getD []))
    ended (← serveLines c)
  | _ =>
    let (ending, c) := e.conclude s {} c
    let _ ← flush c
    match ending with
    | .exit code => return code.toUInt32
    | .fault f =>
      IO.eprintln (String.ofList (errorLine f.message))
      return 1
    | .served _ _ => return 0

/-- The document that the program was started with. -/
def loadDocument (file : Option Text) : IO (Except LoadError (Value × Text)) := do
  match file with
  | some path => return Document.ofEntry path (← entryAt path)
  | none =>
    let input ← IO.getStdin
    if ← input.isTty then return Document.ofInput .terminal
    return Document.ofInput (.piped (octets (← readAll input .empty)))

/-- Runs the program on the arguments of its call. -/
def run (arguments : List String) : IO UInt32 := do
  let s : Surroundings Web.Request Web.Response := {
    evaluator := ← recordedPrograms
    framework := Web.http
    isScreen := ← (← IO.getStdout).isTty
    plainSetting := ← setting "NO_COLOR"
    columns := ← numberSetting "COLUMNS" 80
    rows := ← numberSetting "LINES" 24 }
  match Invocation.ofArguments (arguments.map String.toList) with
  | .error stop =>
    IO.eprintln (String.ofList Invocation.usage)
    return stop.code.toUInt32
  | .ok i =>
    match ← loadDocument i.file with
    | .error e =>
      IO.eprintln (String.ofList (errorLine e.message))
      return 1
    | .ok (doc, name) => perform s i.errand (s.console i.recording doc name)

end Shell

end LiveQuery

def main (arguments : List String) : IO UInt32 := LiveQuery.Shell.run arguments
