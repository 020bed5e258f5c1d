/-
LiveQuery/Session/Dispatcher.lean

The dispatcher of background runs.

Every change of the filter mints a sequence number.  After a delay without further changes the
newest number is dispatched: the filter is handed to the background as a job, and the run before
it is cancelled.  Only the result of the number dispatched last is committed, so that a slow old
run cannot overwrite a newer result, in whatever order the runs end.

Design.  The state holds everything that is still to happen: the alarms that have been set, the
jobs of the background, and the completions they have posted.  The host decides when an alarm
goes off, a job ends, or a completion is delivered; each of these is a function on the state.
What the dispatcher needs of its client is a record of hooks over the client's own state `χ`.
-/
import LiveQuery.Query.Outcome
import LiveQuery.Session.Latency

namespace LiveQuery

/-- What a job of the background does. -/
inductive Task
  /-- Runs a filter for a sequence number. -/
  | run (seq : Int) (text : Text)
  /-- Looks up the keys at a path. -/
  | lookUp (path : Text)
  deriving DecidableEq, Repr

/-- A job: its task, whether its token is cancelled, and whether it has ended. -/
structure Job where
  task : Task
  cancelled : Bool := false
  ended : Bool := false
  deriving DecidableEq, Repr

/-- What the host is to call back. -/
inductive Callback
  /-- The delay after an input is over. -/
  | debounce (seq : Int)
  /-- A run has ended. -/
  | result (seq : Int) (outcome : Outcome)
  /-- A lookup has ended. -/
  | keys (path : Text) (answer : Except QueryError (List Text))

/-- What the dispatcher needs of its client.  `execute` is told whether the token is cancelled,
and tells whether it is afterwards; `current` is the path whose keys are still wanted, where an
answer for the given one has come. -/
structure Hooks (χ : Type) where
  filter : χ → Text
  execute : Text → Bool → χ → (Except Fault Outcome × Bool) × χ
  commit : Outcome → χ → χ
  keysAt : Option (Text → χ → Except Fault (List Text) × χ)
  current : Text → χ → Text
  takeKeys : Text → Option (List Text) → χ → χ

/-- The state of a dispatcher and its client. -/
structure Dispatcher (τ χ : Type) where
  client : χ
  /-- The time at which the next operation takes place. -/
  now : τ
  /-- The newest sequence number. -/
  minted : Int := 0
  /-- The number dispatched last. -/
  active : Int := 0
  /-- Whether the result of the active number is awaited. -/
  running : Bool := false
  /-- The job whose token is held. -/
  held : Option Nat := none
  /-- The path whose keys are awaited. -/
  awaited : Option Text := none
  /-- All jobs, in the order of their submission. -/
  jobs : List Job := []
  /-- Whether the background takes no more jobs. -/
  shut : Bool := false
  /-- The sequence numbers for which an alarm is set. -/
  alarms : List Int := []
  /-- The completions that wait to be delivered. -/
  posted : List Callback := []
  latency : Latency τ

/-- An operation on the state that may raise a fault; what it has done before stays done. -/
abbrev Act (τ χ α : Type) := ExceptT Fault (StateM (Dispatcher τ χ)) α

namespace Dispatcher

variable {τ χ : Type} [Time τ]

/-- An operation that raises nothing. -/
def act (f : Dispatcher τ χ → Dispatcher τ χ) : Act τ χ Unit := modify f

/-- An operation on the client alone. -/
def onClient (f : χ → χ) (d : Dispatcher τ χ) : Dispatcher τ χ := { d with client := f d.client }

/-- Whether nothing is debouncing, running or being looked up. -/
def idle (d : Dispatcher τ χ) : Bool :=
  d.minted == d.active && !d.running && d.awaited.isNone

/-! ### Jobs -/

/-- Cancels the token of a job. -/
def cancelJob (d : Dispatcher τ χ) (i : Nat) : Dispatcher τ χ :=
  { d with jobs := d.jobs.modify i fun j => { j with cancelled := true } }

/-- Cancels the token that is held, and lets go of it. -/
def release (d : Dispatcher τ χ) : Dispatcher τ χ :=
  match d.held with
  | some i => { d.cancelJob i with held := none }
  | none => d

/-- Hands a task to the background. -/
def submit (task : Task) : Act τ χ Unit := do
  let d ← get
  if d.shut then throw .shutDown
  set { d with jobs := d.jobs ++ [Job.mk task false false] }

/-- The answer of a lookup, with any other fault taken as an error of the evaluation. -/
def answerOf : Except Fault (List Text) → Except QueryError (List Text)
  | .ok ks => .ok ks
  | .error f => .error f.toQueryError

/-- Ends a job: does its task and posts the completion.  A job ends once. -/
def complete (h : Hooks χ) (i : Nat) (d : Dispatcher τ χ) : Dispatcher τ χ :=
  match d.jobs[i]? with
  | none => d
  | some job =>
    if job.ended then d
    else
      match job.task with
      | .run seq text =>
        let ((r, cancelled), client) := h.execute text job.cancelled d.client
        { d with
          client
          jobs := d.jobs.set i { job with cancelled, ended := true }
          posted := d.posted ++ [.result seq (.ofRun r)] }
      | .lookUp path =>
        match h.keysAt with
        | none => d
        | some keysAt =>
          let (r, client) := keysAt path d.client
          { d with
            client
            jobs := d.jobs.set i { job with ended := true }
            posted := d.posted ++ [.keys path (answerOf r)] }

/-! ### Runs -/

/-- Mints a sequence number. -/
def mint (d : Dispatcher τ χ) : Dispatcher τ χ :=
  let seq := d.minted + 1
  { d with minted := seq, latency := Id.run (d.latency.queued (m := Id) d.now seq) }

/-- Records a change of the filter: mints a number and sets its alarm. -/
def queue (d : Dispatcher τ χ) : Dispatcher τ χ :=
  let d := d.mint
  { d with alarms := d.alarms ++ [d.minted] }

/-- Runs the filter as it stands, for a sequence number: the run before is cancelled, and the
number becomes the active one. -/
def dispatch (h : Hooks χ) (seq : Int) : Act τ χ Unit := do
  act release
  act fun d => { d with
    active := seq
    running := true
    latency := Id.run (d.latency.dispatched (m := Id) d.now seq)
    held := some d.jobs.length }
  submit (.run seq (h.filter (← get).client))

/-- Runs the filter at once, without the delay. -/
def executeNow (h : Hooks χ) : Act τ χ Unit := do
  act mint
  dispatch h (← get).minted

/-- The delay of a sequence number is over: it is dispatched if it is still the newest. -/
def debounced (h : Hooks χ) (seq : Int) : Act τ χ Unit := do
  if seq = (← get).minted then dispatch h seq
  else act fun d => { d with latency := d.latency.drop seq }

/-- Whether a result for a sequence number is accepted. -/
def accepts (d : Dispatcher τ χ) (seq : Int) : Bool := seq == d.active

/-- Whether an outcome for a sequence number is committed. -/
def commits (d : Dispatcher τ χ) (seq : Int) (o : Outcome) : Bool := d.accepts seq && !o.isCancelled

/-- Takes the outcome of a run: it is committed if its number is the active one, unless it was
cancelled. -/
def takeResult (h : Hooks χ) (seq : Int) (o : Outcome) (d : Dispatcher τ χ) : Dispatcher τ χ :=
  let d := { d with
    latency := Id.run (d.latency.ended (m := Id) d.now seq o.isCancelled (d.accepts seq)) }
  if d.accepts seq then
    let d := { d with running := false, held := none }
    if o.isCancelled then d else d.onClient (h.commit o)
  else d

/-! ### Keys -/

/-- Requests the keys at a path, where the client can look them up. -/
def requestKeys (h : Hooks χ) (path : Text) : Act τ χ Unit := do
  if h.keysAt.isSome then
    let path := if path.isEmpty then ['.'] else path
    act fun d => { d with awaited := some path }
    submit (.lookUp path)

/-- Whether the keys at a path are still wanted. -/
def wants (h : Hooks χ) (d : Dispatcher τ χ) (path : Text) : Bool :=
  path == h.current path d.client

/-- Takes the keys at a path, if they are still wanted; `none` stands for a failed lookup. -/
def answerKeys (h : Hooks χ) (path : Text) (keys : Option (List Text)) (d : Dispatcher τ χ) :
    Dispatcher τ χ :=
  let d := if d.awaited = some path then { d with awaited := none } else d
  if d.wants h path then d.onClient (h.takeKeys path keys) else d

/-! ### What the host calls -/

/-- Answers a callback. -/
def react (h : Hooks χ) : Callback → Act τ χ Unit
  | .debounce seq => debounced h seq
  | .result seq o => act (takeResult h seq o)
  | .keys path answer => act (answerKeys h path answer.toOption)

/-- The alarm at a position goes off. -/
def fire (h : Hooks χ) (i : Nat) : Act τ χ Unit := do
  let d ← get
  match d.alarms[i]? with
  | some seq =>
    set { d with alarms := d.alarms.eraseIdx i }
    react h (.debounce seq)
  | none => pure ()

/-- As many alarms as given go off, from the front. -/
def fireFirst (h : Hooks χ) : Nat → Act τ χ Unit
  | 0 => pure ()
  | n + 1 => do
    fire h 0
    fireFirst h n

/-- Delivers the completion at the front, and tells whether there was one. -/
def deliver (h : Hooks χ) : Act τ χ Bool := do
  let d ← get
  match d.posted with
  | [] => return false
  | c :: rest =>
    set { d with posted := rest }
    react h c
    return true

/-- Delivers as many completions as given, or all there are, and counts them. -/
def deliverFirst (h : Hooks χ) : Nat → Act τ χ Nat
  | 0 => return 0
  | n + 1 => do
    if ← deliver h then return (← deliverFirst h n) + 1 else return 0

/-- Ends the background: the run that is awaited is cancelled, and no job is taken any more. -/
def shutDown (d : Dispatcher τ χ) : Dispatcher τ χ := { d.release with shut := true }

end Dispatcher

end LiveQuery
