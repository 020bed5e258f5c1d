/-
LiveQuery/Web/Wire.lean

Requests and responses as lines of JSON, by which a front end talks to a served session.

A request is an object with a `path`, and perhaps a `method` and a `query`, an object of texts,
which may also follow the path.  A response is an object with a `status`, a `type` and, where it
holds JSON, a `body`.
-/
import LiveQuery.Json.Reader
import LiveQuery.Json.Printer
import LiveQuery.Web.Http

namespace LiveQuery

namespace Web

/-- The text under a key of some members. -/
def textOf? (ms : List (Text × Value)) (key : String) : Option Text :=
  match Value.member? key.toList ms with
  | some (.string t) => some t
  | _ => none

/-- The query of a request: its members that are texts. -/
def queryOf (ms : List (Text × Value)) : List (Text × Text) :=
  match Value.member? "query".toList ms with
  | some (.object query) => query.filterMap fun m =>
    match m.2 with
    | .string t => some (m.1, t)
    | _ => none
  | _ => []

/-- The request that a line holds. -/
def Request.ofLine? (line : Text) : Option Request :=
  match Json.read line with
  | .ok (.object ms) => (textOf? ms "path").map fun path =>
    let target := Target.ofText path
    { method := (textOf? ms "method").getD "GET".toList
      target := { target with query := target.query ++ queryOf ms } }
  | _ => none

/-- The line of a response. -/
def Response.toLine (r : Response) : Text :=
  (object ([("status", .int r.status), ("type", .string r.body.mediaType)] ++
    match r.body with
    | .json v => [("body", v)]
    | _ => [])).compact

end Web

end LiveQuery
