/-
LiveQuery/Query/Program.lean

Evaluators and their programs.

A program, given a document, plays a stream of events: values, a failure that ends the stream, a
breakdown of the evaluator, or the cancellation of the run while the next element is being
computed.  `play` consumes a stream as a caller does: it stops before an element once the run is
cancelled, but an element that was already being computed when that happened is still handed out.

A program may be one that reads the text of its document.  The evaluator writes a document out for
it, and keeps the text as long as it is given the same object.
-/
import LiveQuery.Json.Printer
import LiveQuery.Query.Outcome

namespace LiveQuery

/-- What an evaluator yields or raises as an error: an error of a query, or any other exception,
of which the wording is known. -/
inductive StreamError
  | query (error : QueryError)
  | foreign (message : Text)
  deriving DecidableEq, Repr

namespace StreamError

/-- An error element as the error of a query: a foreign one is taken by its wording. -/
def toQueryError : StreamError → QueryError
  | query e => e
  | foreign m => .evaluation m

/-- An error that is raised in the midst of a stream. -/
def toFault : StreamError → Fault
  | query e => .query e
  | foreign m => .crash m

end StreamError

/-- What happens in the stream of a program. -/
inductive Event
  | value (v : Value)
  /-- An error element, which ends the stream. -/
  | error (e : StreamError)
  /-- The evaluator breaks down. -/
  | crash (e : StreamError)
  /-- The run is cancelled. -/
  | cancel

/-- A compiled program: the stream that it plays, on a document or on the text of one. -/
inductive Program
  | onValue (play : Value → List Event)
  | onText (play : Text → List Event)

/-- The stream of a program on a document. -/
def Program.on : Program → Value → List Event
  | onValue play, document => play document
  | onText play, document => play document.compact

instance : CoeFun Program fun _ => Value → List Event := ⟨Program.on⟩

/-! ### The text of a document -/

/-- A document that has been written out: which object it was, and its text. -/
structure Transcript where
  object : Nat
  text : Text

/-- The text of a document: the one that is kept, if it is of the same object, and otherwise one
that is written out and kept instead. -/
def documentText (object : Nat) (document : Value) : StateM (Option Transcript) Text := fun kept =>
  let fresh : Transcript := ⟨object, document.compact⟩
  match kept with
  | some t => if t.object = object then (t.text, some t) else (fresh.text, some fresh)
  | none => (fresh.text, some fresh)

/-- The stream of a program on a document, of which the evaluator may have kept the text. -/
def Program.stream (p : Program) (object : Nat) (document : Value) :
    StateM (Option Transcript) (List Event) :=
  match p with
  | onValue play => return play document
  | onText play => return play (← documentText object document)

/-! ### Evaluators -/

/-- An evaluator compiles a text to a program, or says why it is none. -/
structure Evaluator where
  compile : Text → Except Text Program

namespace Evaluator

/-- The program of a text; a text that is none is a parse error. -/
def program (e : Evaluator) (text : Text) : Except QueryError Program :=
  match e.compile text with
  | .ok p => .ok p
  | .error m => .error (.parse ("parse error: ".toList ++ m))

/-- Texts that are filters without being compiled. -/
def isTrivial (text : Text) : Bool := text = [] || text = ['.']

/-- The number of compilations that it takes to tell whether a text is a filter. -/
def cost (text : Text) : Nat := if isTrivial text then 0 else 1

/-- Whether a text is a filter. -/
def isValid (e : Evaluator) (text : Text) : Bool :=
  isTrivial text ||
    match e.compile text with
    | .ok _ => true
    | .error _ => false

end Evaluator

/-- An element that a stream hands to its consumer. -/
inductive Element
  | value (v : Value)
  | error (e : StreamError)

/-- What a consumer has got from a stream: the elements, whether the run was cancelled in the
end, and the breakdown that interrupted it, if one did. -/
structure Playback where
  elements : List Element
  cancelled : Bool
  crash : Option StreamError

/-- The playback with an element before its others. -/
def Playback.cons (e : Element) (p : Playback) : Playback :=
  { p with elements := e :: p.elements }

/-- Whether a consumer that cancels after `limit` elements does so at its `count`-th. -/
def reaches (limit : Option Nat) (count : Nat) : Bool :=
  match limit with
  | some n => n ≤ count
  | none => false

/-- Plays a stream whose consumer has `count` elements already and cancels the run at the
`limit`-th.  `cancelled` says whether the run has been cancelled since the last element. -/
def playFrom (limit : Option Nat) (cancelled : Bool) (count : Nat) : List Event → Playback
  | [] => ⟨[], cancelled, none⟩
  | .cancel :: rest => playFrom limit true count rest
  | .crash e :: _ => ⟨[], cancelled, some e⟩
  | .error e :: _ => ⟨[.error e], cancelled || reaches limit (count + 1), none⟩
  | .value v :: rest =>
    if cancelled || reaches limit (count + 1) then ⟨[.value v], true, none⟩
    else (playFrom limit false (count + 1) rest).cons (.value v)

/-- Plays a stream; one whose run is cancelled beforehand is not begun. -/
def play (limit : Option Nat) (cancelled : Bool) (events : List Event) : Playback :=
  if cancelled then ⟨[], true, none⟩ else playFrom limit false 0 events

end LiveQuery
