/-
LiveQuery/Query/Recording.lean

Evaluators given by a table of recorded programs.  A text that was not recorded is no program.

A recording is read from JSON: a string is the reason for which a text is no program, an array
lists what its stream plays, one object per event: `v` holds the text of a value, `doc` stands
for the text of the document, `fail` and `raise` hold the wording of a failure and of a
breakdown, and `cancel` cancels the run.
-/
import LiveQuery.Json.Printer
import LiveQuery.Json.Reader
import LiveQuery.Query.Program

namespace LiveQuery

/-- A recorded event of a stream. -/
inductive RecordedEvent
  | value (v : Value)
  | document
  | fail (message : Text)
  | crash (message : Text)
  | cancel

/-- What was recorded for a text: the reason for which it is no program, or its stream. -/
inductive Recording
  | refused (reason : Text)
  | plays (events : List RecordedEvent)

/-- Recordings by program text. -/
abbrev Recordings := List (Text × Recording)

/-- The event on the text of a document.  `foreign` says whether the evaluator's failures are
exceptions of another kind than its own. -/
def RecordedEvent.on (foreign : Bool) (document : Text) : RecordedEvent → Event
  | value v => .value v
  | RecordedEvent.document => .value (.string document)
  | fail m => .error (if foreign then .foreign m else .query (.evaluation m))
  | crash m => .crash (.foreign m)
  | cancel => .cancel

namespace Recordings

/-- The reason given for a text that was not recorded. -/
def unknown : Text := "unknown program".toList

/-- The evaluator that plays the recordings. -/
def evaluator (rs : Recordings) (foreign : Bool) : Evaluator where
  compile text :=
    match rs.find? fun r => r.1 = text with
    | some (_, .plays events) => .ok (.onText fun text => events.map (·.on foreign text))
    | some (_, .refused reason) => .error reason
    | none => .error unknown

/-- A recorded event from its JSON object. -/
def eventOf? : Value → Option RecordedEvent
  | .object [(key, .string t)] =>
    if key = ['v'] then
      match Json.read t with
      | .ok v => some (.value v)
      | .error _ => none
    else if key = "fail".toList then some (.fail t)
    else if key = "raise".toList then some (.crash t)
    else none
  | .object [(key, .bool true)] =>
    if key = "doc".toList then some .document
    else if key = "cancel".toList then some .cancel
    else none
  | _ => none

/-- Recordings from the members of a JSON object; what is no recording is left out. -/
def ofMembers (members : List (Text × Value)) : Recordings :=
  members.filterMap fun m =>
    match m.2 with
    | .string reason => some (m.1, .refused reason)
    | .array events => some (m.1, .plays (events.filterMap eventOf?))
    | _ => none

end Recordings

end LiveQuery
