/-
LiveQuery/Session/TableClient.lean

A client of the dispatcher whose answers are given by tables.  It has a filter and a path, runs
and lookups answer what the tables say, and it keeps a log of what it is told: the smallest client
on which the dispatcher can be watched.
-/
import LiveQuery.Query.Memo
import LiveQuery.Session.Dispatcher

namespace LiveQuery

/-- What a client has been told. -/
inductive Notice
  | committed (outcome : Outcome)
  | keys (path : Text) (keys : Option (List Text))

/-- The state of the client. -/
structure TableClient where
  filter : Text := ['.']
  path : Text := ['.']
  log : List Notice := []

/-- The answers of the client.  A filter without an answer puts out its own text, a path without
one has a single key made from it.  `honoursCancel` says whether a run whose token is cancelled
ends as cancelled. -/
structure ClientTables where
  runs : List (Text × Except Fault Outcome) := []
  keyLists : List (Text × Except Fault (List Text)) := []
  honoursCancel : Bool := false
  looksUpKeys : Bool := true
  checksPath : Bool := true
  takesKeys : Bool := true

namespace ClientTables

/-- The outcome of a run. -/
def execute (t : ClientTables) (text : Text) (cancelled : Bool) : Except Fault Outcome :=
  if t.honoursCancel && cancelled then .ok (.failed .cancelled)
  else (lookUp t.runs text).getD (.ok (.output text))

/-- The keys at a path. -/
def keysAt (t : ClientTables) (path : Text) : Except Fault (List Text) :=
  (lookUp t.keyLists path).getD (.ok ["k:".toList ++ path])

/-- What the client is to its dispatcher. -/
def hooks (t : ClientTables) : Hooks TableClient where
  filter := TableClient.filter
  execute text cancelled c := ((t.execute text cancelled, cancelled), c)
  commit o c := { c with log := c.log ++ [.committed o] }
  keysAt := if t.looksUpKeys then some fun path c => (t.keysAt path, c) else none
  current path c := if t.checksPath then c.path else path
  takeKeys path keys c := if t.takesKeys then { c with log := c.log ++ [.keys path keys] } else c

end ClientTables

end LiveQuery
