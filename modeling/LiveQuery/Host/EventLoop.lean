/-
LiveQuery/Host/EventLoop.lean

A message loop on the clock of `Timers`.

Callbacks wait in a queue.  A timer that fires puts its callback there; callbacks run only when
the loop is asked to run some.  The loop belongs to a larger state `σ` that its callbacks change
and may raise faults in; `Driven` says how to get at the loop in it and how to run a callback.
-/
import LiveQuery.Host.Timers
import LiveQuery.Query.Outcome

namespace LiveQuery

/-- A loop: its timers, the callbacks that wait, and whether it takes no more of them. -/
structure EventLoop (τ κ : Type) where
  timers : Timers τ κ
  queue : List κ := []
  closed : Bool := false

namespace EventLoop

variable {τ κ : Type} [Time τ]

/-- An open loop at the beginning of time. -/
def fresh : EventLoop τ κ := { timers := .atZero }

/-- The time on its clock. -/
def now (l : EventLoop τ κ) : τ := l.timers.now

/-- Puts a callback into the queue, unless the loop is closed. -/
def callSoon (c : κ) (l : EventLoop τ κ) : EventLoop τ κ :=
  if l.closed then l else { l with queue := l.queue ++ [c] }

/-- Puts a callback into the queue after a delay, which is none where it is negative. -/
def callLater (delay : τ) (c : κ) (l : EventLoop τ κ) : EventLoop τ κ :=
  { l with timers := l.timers.start (Time.later Time.zero delay) c }

/-- The timer that is due first, not after `limit`, fires. -/
def fireOne? (limit : τ) (l : EventLoop τ κ) : Option (EventLoop τ κ) :=
  (l.timers.pop? limit).map fun (c, timers) => { l with timers }.callSoon c

/-- At most `bound` timers that are due by `limit` fire. -/
def fireUpTo (limit : τ) : Nat → EventLoop τ κ → EventLoop τ κ
  | 0, l => l
  | bound + 1, l =>
    match l.fireOne? limit with
    | some l => fireUpTo limit bound l
    | none => l

/-- All timers that are due by `limit` fire. -/
def fireDue (limit : τ) (l : EventLoop τ κ) : EventLoop τ κ :=
  l.fireUpTo limit l.timers.pending.length

/-- At most `bound` timers that are due by `limit` fire, as long as the queue is empty. -/
def fireWhileEmpty (limit : τ) : Nat → EventLoop τ κ → EventLoop τ κ
  | 0, l => l
  | bound + 1, l =>
    if !l.queue.isEmpty then l
    else
      match l.fireOne? limit with
      | some l => fireWhileEmpty limit bound l
      | none => l

/-- Moves the clock on by a span; the timers due in it fire. -/
def advance (span : τ) (l : EventLoop τ κ) : EventLoop τ κ :=
  let limit := l.timers.after span
  let l := l.fireDue limit
  { l with timers := l.timers.moveTo limit }

/-- Takes the callback at the front of the queue. -/
def pop? (l : EventLoop τ κ) : Option κ × EventLoop τ κ :=
  match l.queue with
  | [] => (none, l)
  | c :: rest => (some c, { l with queue := rest })

/-- Takes a callback, waiting for one until the timeout is over.  An empty timeout does not
wait. -/
def next? (timeout : τ) (l : EventLoop τ κ) : Option κ × EventLoop τ κ :=
  if Time.isZero timeout then (l.fireDue l.now).pop?
  else
    let limit := l.timers.after timeout
    let l := l.fireDue l.now
    let l := l.fireWhileEmpty limit l.timers.pending.length
    if l.queue.isEmpty then (none, { l with timers := l.timers.moveTo limit }) else l.pop?

/-- Closes the loop: what waits on timers is given up, and no callback is taken any more. -/
def close (l : EventLoop τ κ) : EventLoop τ κ :=
  { l with closed := true, timers := { l.timers with pending := [] } }

end EventLoop

/-- How a loop sits in a state, and what its callbacks do there. -/
structure Driven (σ τ κ : Type) where
  loop : σ → EventLoop τ κ
  setLoop : EventLoop τ κ → σ → σ
  run : κ → ExceptT Fault (StateM σ) Unit

namespace Driven

variable {σ τ κ : Type} [Time τ] (d : Driven σ τ κ)

/-- Runs one callback, and tells whether one came before the timeout was over. -/
def runOnce (timeout : τ) : ExceptT Fault (StateM σ) Bool := do
  let s ← get
  let (c, l) := (d.loop s).next? timeout
  set (d.setLoop l s)
  match c with
  | some c =>
    d.run c
    return true
  | none => return false

/-- Runs callbacks as long as there are some, at most `bound` of them, and counts them. -/
def runPending : Nat → ExceptT Fault (StateM σ) Nat
  | 0 => return 0
  | bound + 1 => do
    if ← d.runOnce Time.zero then return (← runPending bound) + 1 else return 0

/-- The longest time that the loop waits at once: a twentieth of a second. -/
def slice : τ := Time.ofMillis 50

/-- Runs callbacks until the state is as wanted or the deadline has come, in at most `bound`
steps, and tells whether it is as wanted. -/
def runBefore (wanted : σ → Bool) (deadline : τ) : Nat → ExceptT Fault (StateM σ) Bool
  | 0 => return wanted (← get)
  | bound + 1 => do
    let s ← get
    if wanted s then return true
    let left := Time.sub deadline (d.loop s).now
    if Time.le left Time.zero then return false
    let _ ← d.runOnce (Time.earlier left slice)
    runBefore wanted deadline bound

/-- Runs callbacks until the state is as wanted or the timeout is over.  A step either runs a
callback, of which there are at most `callbacks`, or waits for a slice of the time. -/
def runUntil (wanted : σ → Bool) (timeout : τ) (callbacks : Nat) :
    ExceptT Fault (StateM σ) Bool := do
  let deadline := Time.add (d.loop (← get)).now timeout
  d.runBefore wanted deadline (Time.slices timeout + callbacks + 8)

end Driven

end LiveQuery
