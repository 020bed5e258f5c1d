/-
LiveQuery/Host/Timers.lean

Timers on a clock that moves only when it is told to.

A timer holds what is due at its time.  Of two timers that are due at the same time the one that
was started first comes first.
-/
import LiveQuery.Session.Time

namespace LiveQuery

/-- A timer: when it is due, the number under which it can be cancelled, and what is due. -/
structure Timer (τ κ : Type) where
  due : τ
  number : Nat
  action : κ

/-- A clock with the timers on it, in the order in which they were started. -/
structure Timers (τ κ : Type) where
  now : τ
  pending : List (Timer τ κ) := []
  started : Nat := 0

namespace Timers

variable {τ κ : Type} [Time τ]

/-- No timers, at the beginning of time. -/
def atZero : Timers τ κ := { now := Time.zero }

/-- The number that the next timer gets. -/
def nextNumber (t : Timers τ κ) : Nat := t.started

/-- Starts a timer that is due after `delay`. -/
def start (delay : τ) (action : κ) (t : Timers τ κ) : Timers τ κ :=
  { t with
    pending := t.pending ++ [⟨Time.add t.now delay, t.started, action⟩]
    started := t.started + 1 }

/-- Takes a timer off the clock. -/
def cancel (number : Nat) (t : Timers τ κ) : Timers τ κ :=
  { t with pending := t.pending.filter fun p => p.number ≠ number }

/-- The timer that is due first, of those that are not due after `limit`. -/
def first? (limit : τ) : List (Timer τ κ) → Option (Timer τ κ)
  | [] => none
  | p :: rest =>
    match first? limit rest with
    | none => if Time.le p.due limit then some p else none
    | some q => if Time.le p.due q.due then some p else some q

/-- Takes the timer that is due first, of those that are not due after `limit`, off the clock,
and moves the clock on to it. -/
def pop? (limit : τ) (t : Timers τ κ) : Option (κ × Timers τ κ) :=
  match first? limit t.pending with
  | none => none
  | some p => some (p.action, { t.cancel p.number with now := Time.later t.now p.due })

/-- The end of a span from now on. -/
def after (span : τ) (t : Timers τ κ) : τ := Time.add t.now span

/-- Moves the clock to a time. -/
def moveTo (time : τ) (t : Timers τ κ) : Timers τ κ := { t with now := time }

end Timers

end LiveQuery
