/-
LiveQuery/Web/Api.lean

The web interface of a session: views that answer with JSON about its document.

A view answers from the memo tables alone.  It runs no command of the session, so that what the
session shows does not change; a filter is run at once, with a token of its own.

Design.  Requests are led to the views, and answers are sent, by a framework for web servers.  It is
a parameter: of what it does no more is said than that it reads the rules of the interface, and that
it keeps nothing between two requests.
-/
import LiveQuery.Session.Commands

namespace LiveQuery

namespace Web

/-- The views of the interface. -/
inductive View
  | home
  | health
  | query
  | keys
  | suggest
  | telemetry
  deriving DecidableEq, Repr

/-- The rules of the interface: the paths at which its views are read. -/
def rules : List (Text × View) :=
  [("/".toList, .home), ("/health".toList, .health), ("/api/query".toList, .query),
   ("/api/keys".toList, .keys), ("/api/suggest".toList, .suggest),
   ("/api/telemetry".toList, .telemetry)]

/-- What a view returns: a JSON value with a status, or the page. -/
inductive Answer
  | json (status : Nat) (v : Value)
  | page

/-- A framework for web servers, with its requests and its responses. -/
structure Framework (ρ σ : Type) where
  /-- The view that a request is led to by some rules, or the response where there is none. -/
  lead : List (Text × View) → ρ → Except σ View
  /-- The first value of a name in the query of a request. -/
  parameter? : ρ → Text → Option Text
  /-- The response to a request that is sent for what a view has returned or raised. -/
  send : ρ → Except Fault Answer → σ

/-! ### Views -/

/-- A JSON object with the given members. -/
def object (members : List (String × Value)) : Value :=
  .object (members.map fun m => (m.1.toList, m.2))

/-- A list of texts as JSON. -/
def textArray (ts : List Text) : Value := .array (ts.map .string)

/-- A JSON answer that succeeded. -/
def ok (members : List (String × Value)) : Answer := .json 200 (object members)

/-- The answer to a query. -/
def answerQuery (filter : Text) (s : Session) : Except Fault Answer × Session :=
  let ((r, _), memo) := s.source.execute filter .none s.memo
  let answer := match r with
    | .ok (.output raw) => .ok <|
      ok [("ok", .bool true), ("output", .string raw), ("error", .null), ("kind", .null)]
    | .ok (.failed e) => .ok <|
      ok [("ok", .bool false), ("output", .string []), ("error", .string e.message),
        ("kind", .string e.kind)]
    | .error f => .error f
  (answer, { s with memo })

/-- The answer to the question for the keys at a path. -/
def answerKeys (path : Text) (s : Session) : Except Fault Answer × Session :=
  let (r, s) := s.keysAt path
  let answer := match r with
    | .ok keys => .ok (ok [("ok", .bool true), ("keys", textArray keys), ("error", .null)])
    | .error (.query e) => .ok <|
      ok [("ok", .bool false), ("keys", textArray []), ("error", .string e.message),
        ("kind", .string e.kind)]
    | .error f => .error f
  (answer, s)

/-- The answer to the question for suggestions. -/
def answerSuggest (filter : Text) (s : Session) : Answer × Session :=
  let ((suggestions, context), memo) := s.source.suggest filter s.memo
  (ok [("suggestions", textArray suggestions),
     ("context", object [("path", .string context.path),
       ("incomplete", .string context.incomplete), ("start_pos", .int context.start)])],
   { s with memo })

/-- The answer to a query without a filter. -/
def missingFilter : Answer :=
  .json 400 (object [("ok", .bool false), ("error", .string "missing 'filter'".toList)])

/-- What a view answers, given the query of the request and the report of latencies. -/
def View.answer (parameter? : Text → Option Text) (summary : Option Text) (v : View)
    (s : Session) : Except Fault Answer × Session :=
  match v with
  | home => (.ok .page, s)
  | health => (.ok (ok [("ok", .bool true), ("document", .string s.name)]), s)
  | query =>
    match parameter? "filter".toList with
    | none => (.ok missingFilter, s)
    | some filter => answerQuery filter s
  | keys => answerKeys ((parameter? "path".toList).getD ['.']) s
  | suggest =>
    let (answer, s) := answerSuggest ((parameter? "filter".toList).getD []) s
    (.ok answer, s)
  | telemetry =>
    let text : Value := match summary with
      | some t => .string t
      | none => .null
    (.ok (ok [("enabled", .bool summary.isSome), ("summary", text)]), s)

/-! ### Requests -/

section

variable {ρ σ τ : Type} [Time τ]

/-- Answers a request. -/
def respond (f : Framework ρ σ) (r : ρ) (d : Desk τ) : σ × Desk τ :=
  match f.lead rules r with
  | .error response => (response, d)
  | .ok view =>
    let (answer, s) := view.answer (f.parameter? r) d.latency.summary d.client
    (f.send r answer, { d with client := s })

/-- Answers requests one after the other. -/
def respondAll (f : Framework ρ σ) : List ρ → Desk τ → List σ × Desk τ
  | [], d => ([], d)
  | r :: rest, d =>
    let (response, d) := respond f r d
    let (responses, d) := respondAll f rest d
    (response :: responses, d)

end

end Web

end LiveQuery
