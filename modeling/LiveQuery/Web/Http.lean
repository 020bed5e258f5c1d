/-
LiveQuery/Web/Http.lean

Requests and responses of HTTP, and the framework by which the interface is served over it.

Slashes at the head of a path count as one.  A path with nothing under it is looked up once more
with its doubled slashes halved: where there is something under that the client is sent there.
-/
import LiveQuery.Web.Api
import LiveQuery.Web.Target

namespace LiveQuery

namespace Web

/-- A request: its method and its target. -/
structure Request where
  method : Text
  target : Target

/-- What a response holds. -/
inductive Body
  /-- A JSON value. -/
  | json (v : Value)
  /-- A JSON value that is not sent, since only the head of the response was asked for. -/
  | unsent
  /-- A page to look at. -/
  | page

/-- A response: its status and what it holds. -/
structure Response where
  status : Nat
  body : Body

/-- The type of a body. -/
def Body.mediaType : Body → Text
  | json _ => "application/json".toList
  | unsent => "application/json".toList
  | page => "text/html".toList

/-! ### Paths -/

/-- What there is under a path: a view, or a file that pages refer to. -/
inductive Place
  | view (v : View)
  | file

/-- Where the paths of files begin. -/
def filesPath : Text := "/static/".toList

/-- The name of a file: not empty, not begun with a slash, and on one line. -/
def isFileName : Text → Bool
  | [] => false
  | c :: rest => c ≠ '/' && !rest.contains Text.newline

/-- What there is under a path. -/
def Place.ofPath? (rules : List (Text × View)) (path : Text) : Option Place :=
  match lookUp rules path with
  | some v => some (.view v)
  | none =>
    if path.startsWith filesPath && isFileName (path.drop filesPath.length) then some .file
    else none

/-- A path with one slash for each two. -/
def halveSlashes : Text → Text
  | '/' :: '/' :: rest => '/' :: halveSlashes rest
  | c :: rest => c :: halveSlashes rest
  | [] => []

/-- A path with a single slash at its head; nothing stays nothing. -/
def rooted (path : Text) : Text :=
  if path.isEmpty then [] else '/' :: path.dropWhile (· = '/')

/-! ### The framework -/

/-- The method that asks for the head of a response only. -/
def headMethod : Text := "HEAD".toList

/-- The methods with which a view is read. -/
def readMethods : List Text := ["GET".toList, headMethod]

/-- The method that asks what is allowed. -/
def optionsMethod : Text := "OPTIONS".toList

/-- Leads a request to a view.  The letters of its method may be small ones; there are no files. -/
def Request.lead (rules : List (Text × View)) (r : Request) : Except Response View :=
  let method := r.method.map Char.toUpper
  let allowed := (optionsMethod :: readMethods).contains method
  let path := rooted r.target.path
  match Place.ofPath? rules path, Place.ofPath? rules (halveSlashes path) with
  | some place, _ =>
    if !allowed then .error ⟨405, .page⟩
    else if method = optionsMethod then .error ⟨200, .page⟩
    else match place with
      | .view v => .ok v
      | .file => .error ⟨404, .page⟩
  | none, some _ => .error ⟨if allowed then 308 else 405, .page⟩
  | none, none => .error ⟨if path.isEmpty && allowed then 308 else 404, .page⟩

/-- The response for what a view has returned or raised. -/
def Request.send (r : Request) : Except Fault Answer → Response
  | .ok (.json status v) => ⟨status, if r.method = headMethod then .unsent else .json v⟩
  | .ok .page => ⟨200, .page⟩
  | .error _ => ⟨500, .page⟩

/-- The framework that serves the interface. -/
def http : Framework Request Response where
  lead := Request.lead
  parameter? r name := lookUp r.target.query name
  send := Request.send

end Web

end LiveQuery
