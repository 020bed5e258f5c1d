/-
LiveQuery/Session/Latency.lean

Latencies of runs, sampled from the moment an input is queued over its dispatch to its result.

Each sequence number has a span while its fate is open: it begins when the number is queued, and
ends when the number is dropped by the debounce or its result arrives.  A commit gives one sample
of the whole span and one of the run.  The clock is read where it is needed, in a monad of the
caller's choice.
-/
import LiveQuery.Session.Time

namespace LiveQuery

/-- When a sequence number was queued, and when it was dispatched. -/
structure Span (τ : Type) where
  queued : τ
  dispatched : Option τ := none

/-- The samples of a session, newest last, with the spans that are open and the counts of what
gave no sample.  Nothing is recorded while it is not enabled. -/
structure Latency (τ : Type) where
  enabled : Bool
  pending : List (Int × Span τ) := []
  toFrame : List τ := []
  toStart : List τ := []
  running : List τ := []
  dropped : Nat := 0
  stale : Nat := 0
  cancelled : Nat := 0

namespace Latency

variable {τ : Type}

/-- The open span of a sequence number. -/
def span? (l : Latency τ) (seq : Int) : Option (Span τ) :=
  (l.pending.find? fun e => e.1 = seq).map Prod.snd

/-- The open spans without that of a sequence number. -/
def without (l : Latency τ) (seq : Int) : List (Int × Span τ) :=
  l.pending.filter fun e => e.1 ≠ seq

/-- Opens a span, in place of one that the number has already. -/
def openSpan (l : Latency τ) (seq : Int) (s : Span τ) : Latency τ :=
  { l with pending := l.without seq ++ [(seq, s)] }

section Hooks

variable {m : Type → Type} [Monad m] (clock : m τ)

/-- A sequence number was queued. -/
def queued (l : Latency τ) (seq : Int) : m (Latency τ) := do
  if !l.enabled then return l
  return l.openSpan seq ⟨← clock, none⟩

/-- A sequence number was dispatched; one that was not queued is taken as queued just before. -/
def dispatched [Time τ] (l : Latency τ) (seq : Int) : m (Latency τ) := do
  if !l.enabled then return l
  let queued ← match l.span? seq with
    | some s => pure s.queued
    | none => clock
  let now ← clock
  let l := l.openSpan seq ⟨queued, some now⟩
  return { l with toStart := l.toStart ++ [Time.sub now queued] }

/-- A sequence number was superseded before its dispatch. -/
def drop (l : Latency τ) (seq : Int) : Latency τ :=
  if !l.enabled || (l.span? seq).isNone then l
  else { l with pending := l.without seq, dropped := l.dropped + 1 }

/-- The result of a sequence number arrived.  It gives samples if it was accepted and had not
been cancelled. -/
def ended [Time τ] (l : Latency τ) (seq : Int) (cancelled accepted : Bool) : m (Latency τ) := do
  if !l.enabled then return l
  let span := l.span? seq
  let l := { l with
    pending := l.without seq
    cancelled := if cancelled then l.cancelled + 1 else l.cancelled
    stale := if accepted then l.stale else l.stale + 1 }
  match span with
  | some s =>
    if accepted && !cancelled then
      let now ← clock
      return { l with
        toFrame := l.toFrame ++ [Time.sub now s.queued]
        running := match s.dispatched with
          | some start => l.running ++ [Time.sub now start]
          | none => l.running }
    else return l
  | none => return l

end Hooks

/-! ### Percentiles -/

/-- The place at a percentage of the way to the last of some samples in order, of two neighbours
the lower one.  The quotient is a double, of which the whole part counts. -/
def rank (last : Nat) (p : Int) : Nat :=
  if 100 ≤ p then last else (Binary64.ofRatio false (last * p.toNat) 100).whole

/-- The sample at a percentage of the way through samples in increasing order; nothing is taken to
be the zero of time. -/
def percentile [Time τ] (ordered : List τ) (p : Int) : τ :=
  ordered.getD (rank (ordered.length - 1) p) Time.zero

/-- The samples in increasing order. -/
def ordered [Time τ] (samples : List τ) : List τ := samples.mergeSort Time.le

/-- The percentages that a report shows. -/
def shownPercentages : List Int := [50, 95, 99]

/-- The percentiles of some samples that a report shows. -/
def percentiles [Time τ] (samples : List τ) : List τ :=
  shownPercentages.map (percentile (ordered samples))

/-- The percentiles of some samples in words. -/
def percentilesText [Time τ] (samples : List τ) : Text :=
  Text.joinWith [' '] ((shownPercentages.zip (percentiles samples)).map fun (p, t) =>
    'p' :: (Text.ofInt p ++ '=' :: (Time.millisText t ++ "ms".toList)))

/-- The report of a session, `none` where nothing is recorded. -/
def summary [Time τ] (l : Latency τ) : Option Text :=
  if !l.enabled then none
  else if l.toFrame.isEmpty then some "telemetry: no completed samples yet".toList
  else some <|
    "telemetry keypress->frame samples=".toList ++ Text.ofNat l.toFrame.length ++ [' '] ++
    percentilesText l.toFrame ++ " | keypress->dispatch ".toList ++
    percentilesText l.toStart ++ " | execute ".toList ++
    percentilesText l.running ++ " | dropped(debounce)=".toList ++
    Text.ofNat l.dropped ++ " stale=".toList ++ Text.ofNat l.stale ++
    " canceled=".toList ++ Text.ofNat l.cancelled

end Latency

end LiveQuery
