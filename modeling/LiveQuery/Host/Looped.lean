/-
LiveQuery/Host/Looped.lean

A session on a message loop, the host of terminals and web pages.

After each command the alarms it has set become timers of the loop, and the completions that have
been posted become callbacks in its queue.  The background is either immediate, so that a job
ends as soon as the command that submitted it is over, or it is held back, and its jobs end when
they are told to.  On a loop one can wait: for the result of a filter, or until nothing is left
to do.
-/
import LiveQuery.Host.EventLoop
import LiveQuery.Session.Commands

namespace LiveQuery

/-- A session on a loop.  `debounce` is the delay after an input. -/
structure Looped (τ : Type) where
  desk : Desk τ
  loop : EventLoop τ Callback
  immediate : Bool
  debounce : τ

/-- An operation on a session on a loop, which may raise a fault. -/
abbrev Looped.Op (τ α : Type) := ExceptT Fault (StateM (Looped τ)) α

namespace Looped

variable {τ : Type} [Time τ] [Glyphs]

/-- The delay after an input by default, in thousandths of a second. -/
def defaultDebounce : Int := 30

/-- The time to wait for a result by default, in thousandths of a second. -/
def defaultTimeout : Int := 10000

/-- A session on a fresh loop. -/
def fresh (desk : Desk τ) (immediate : Bool) (debounce : τ) : Looped τ where
  desk := { desk with now := Time.zero }
  loop := .fresh
  immediate
  debounce

/-- A session on a fresh loop, with the delay given in thousandths of a second. -/
def ofDesk (desk : Desk τ) (immediate : Bool) (debounce : Int) : Looped τ :=
  fresh desk immediate (Time.ofMillis debounce)

/-- Ends all jobs, in the order of their submission. -/
def completeAll (d : Desk τ) : Desk τ :=
  (List.range d.jobs.length).foldl (fun d i => d.complete Session.hooks i) d

/-- Hands what the session has left to the loop. -/
def handOver (s : Looped τ) : Looped τ :=
  let d := if s.immediate then completeAll s.desk else s.desk
  let loop := d.alarms.foldl (fun l seq => l.callLater s.debounce (.debounce seq)) s.loop
  let loop := d.posted.foldl (fun l c => l.callSoon c) loop
  { s with desk := { d with alarms := [], posted := [] }, loop }

/-- Does a command of the session, at the time of the loop. -/
def perform {α : Type} (c : Command τ α) : Op τ α := fun s =>
  let (r, desk) := c.run { s.desk with now := s.loop.now }
  (r, handOver { s with desk })

/-- A job that was held back ends. -/
def complete (i : Nat) : Op τ Unit :=
  perform (Dispatcher.act fun d => d.complete Session.hooks i)

/-- Moves the clock on. -/
def advance (millis : Int) : Op τ Unit :=
  modify fun s => { s with loop := s.loop.advance (Time.ofMillis millis) }

/-- How the loop sits in the state: its callbacks are those of the session. -/
def driven : Driven (Looped τ) τ Callback where
  loop := loop
  setLoop l s := { s with loop := l }
  run c := perform (Dispatcher.react Session.hooks c)

/-- A number that the callbacks to come do not exceed: each timer may start a run, and each run
has one completion. -/
def backlog (s : Looped τ) : Nat :=
  2 * (s.loop.queue.length + s.loop.timers.pending.length) + s.desk.jobs.length

/-- Runs callbacks until the session is as wanted or the timeout is over. -/
def waitUntil (wanted : Desk τ → Bool) (timeout : τ) : Op τ Bool := do
  driven.runUntil (fun s => wanted s.desk) timeout (backlog (← get))

/-- Runs a filter at once and waits for its result until the timeout is over. -/
def runWithin (text : Text) (timeout : τ) : Op τ Outcome := do
  perform (Desk.runNow text)
  if ← waitUntil (fun d => !d.running) timeout then return (← get).desk.client.outcome
  else throw (.timeout (Time.secondsText timeout))

/-- Runs a filter at once and waits for its result, for some thousandths of a second. -/
def run (text : Text) (millis : Int) : Op τ Outcome := runWithin text (Time.ofMillis millis)

/-- Waits until nothing is debouncing, running or being looked up, or the timeout is over. -/
def settleWithin (timeout : τ) : Op τ Bool := waitUntil Dispatcher.idle timeout

/-- Waits until nothing is left to do, for some thousandths of a second. -/
def settle (millis : Int) : Op τ Bool := settleWithin (Time.ofMillis millis)

/-- Ends the session and closes its loop. -/
def shutDown : Op τ Unit := do
  perform (Dispatcher.act Dispatcher.shutDown)
  modify fun s => { s with loop := s.loop.close }

end Looped

end LiveQuery
