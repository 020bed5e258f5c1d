/-
LiveQuery/Query/Memo.lean

Memo tables in front of an evaluator.

One document is queried again and again while a filter is typed.  Compiled programs are kept by
their text, key lists by their path, and answers to the question whether a text is a filter by
that text.  Entries are added where there was none and never changed; a failure adds nothing.
The tables also count the compilations, which is what they save.  With them goes the text of the
document that the evaluator keeps for its programs.

Key lists of simple paths come from a walk through the document and need no evaluator.
-/
import LiveQuery.Json.Printer
import LiveQuery.Path.Keys
import LiveQuery.Query.Program

namespace LiveQuery

/-- The tables, entries in the order in which they were added. -/
structure Memo where
  programs : List (Text × Program) := []
  keyLists : List (Text × List Text) := []
  validity : List (Text × Bool) := []
  compiles : Nat := 0
  transcript : Option Transcript := none

/-- The entry of a table for a text. -/
def lookUp {α : Type} (table : List (Text × α)) (text : Text) : Option α :=
  match table with
  | [] => none
  | (t, a) :: rest => if t = text then some a else lookUp rest text

/-- What a session asks its questions of: an evaluator and a document.  An evaluator may be given
other documents too, and knows each of them by its number. -/
structure Source where
  evaluator : Evaluator
  document : Value
  object : Nat

/-- The token of a run: none, in place of which a fresh one is made, or one that is cancelled or
not. -/
inductive Token
  | none
  | live
  | cancelled
  deriving DecidableEq, Repr

namespace Source

/-- The program of a text, compiled if it is not in the table. -/
def compiled (s : Source) (text : Text) : StateM Memo (Except QueryError Program) := fun m =>
  match lookUp m.programs text with
  | some p => (.ok p, m)
  | none =>
    let m := { m with compiles := m.compiles + 1 }
    match s.evaluator.program text with
    | .ok p => (.ok p, { m with programs := m.programs ++ [(text, p)] })
    | .error e => (.error e, m)

/-- The stream of a program on the document. -/
def stream (s : Source) (p : Program) : StateM Memo (List Event) := fun m =>
  let (events, transcript) := p.stream s.object s.document m.transcript
  (events, { m with transcript })

/-- The outcome of a stream that was played to its end: a cancellation counts first, then an
error; otherwise the values are printed one below the other. -/
def outcomeOf (p : Playback) : Except Fault Outcome :=
  match p.crash with
  | some e => .error e.toFault
  | none =>
    if p.cancelled then .ok (.failed .cancelled)
    else
      match p.elements.getLast? with
      | some (.error e) => .ok (.failed e.toQueryError)
      | _ =>
        .ok (.output (Text.unlines (p.elements.filterMap fun
          | .value v => some v.pretty
          | .error _ => none)))

/-- Runs a filter on the document.  The second part of the answer says whether the token is
cancelled afterwards. -/
def execute (s : Source) (text : Text) (token : Token) :
    StateM Memo (Except Fault Outcome × Bool) := do
  if token = .cancelled then return (.ok (.failed .cancelled), true)
  match ← s.compiled text with
  | .error e => return (.ok (.failed e), false)
  | .ok program =>
    let p := play none false (← s.stream program)
    return (outcomeOf p, p.cancelled)

/-- The first element of a stream.  Its run can be cancelled by nobody but the stream itself, and
then the element is already being computed. -/
def firstElement : List Event → Except Fault (Option Value)
  | [] => .ok none
  | .value v :: _ => .ok (some v)
  | .error e :: _ => .error (.query e.toQueryError)
  | .crash e :: _ => .error e.toFault
  | .cancel :: rest => firstElement rest

/-- The keys of the first value that a filter yields, none where it yields nothing. -/
def keysByRunning (s : Source) (text : Text) : StateM Memo (Except Fault (List Text)) := do
  match ← s.compiled text with
  | .error e => return .error (.query e)
  | .ok program =>
    match firstElement (← s.stream program) with
    | .error f => return .error f
    | .ok none => return .ok []
    | .ok (some v) => return .ok v.keys

/-- Adds a key list, unless the path has one, and answers the one in the table. -/
def storeKeys (path : Text) (keys : List Text) : StateM Memo (List Text) := fun m =>
  match lookUp m.keyLists path with
  | some ks => (ks, m)
  | none => (keys, { m with keyLists := m.keyLists ++ [(path, keys)] })

/-- The keys at a path: from the table, by a walk where the path is simple, by running it
otherwise.  A path that is not read to its end raises a fault. -/
def keysAt (s : Source) (path : Text) : StateM Memo (Except Fault (List Text)) := do
  let path := if path.isEmpty then ['.'] else path
  match lookUp (← get).keyLists path with
  | some ks => return .ok ks
  | none =>
    match Path.read path with
    | .error digits => return .error (.tooLong digits)
    | .ok (some steps) => return .ok (← storeKeys path (s.document.keysAt steps))
    | .ok none =>
      match ← s.keysByRunning path with
      | .ok ks => return .ok (← storeKeys path ks)
      | .error f => return .error f

/-- Whether a text is a filter, asked of the evaluator once for each text. -/
def isValid (s : Source) (text : Text) : StateM Memo Bool := fun m =>
  match lookUp m.validity text with
  | some b => (b, m)
  | none =>
    let b := s.evaluator.isValid text
    (b, { m with
      validity := m.validity ++ [(text, b)]
      compiles := m.compiles + Evaluator.cost text })

end Source

end LiveQuery
