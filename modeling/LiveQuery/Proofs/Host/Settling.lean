/-
LiveQuery/Proofs/Host/Settling.lean

Waiting on a loop for a session to have nothing left to do.

The background ends each job at once, times are exact numbers, and the programs answer whatever they
answer.  Then a session that is waited for longer than its debounce comes to rest.

Design.  Between two steps of the loop all that is to come is on the loop, and no timer is due
later than the debounce from now on (`Ready`).  So as long as the session is not idle a callback
waits or a timer is due before the deadline.  A step of the loop answers a callback, which leaves
less to do (`load`), or it waits for a whole slice of the time; the sum of both is the measure on
which the induction goes.

Main result: `settles`, that the session comes to rest from every state it can reach.
-/
import Mathlib.Data.NNRat.Defs
import Mathlib.Tactic.NormNum
import LiveQuery.Display.Wide
import LiveQuery.Host.Looped
import LiveQuery.Proofs.Dispatch.Chores
import LiveQuery.Proofs.Host.Jobs
import LiveQuery.Proofs.Host.Timers
import LiveQuery.Proofs.Session.Inputs

namespace LiveQuery

namespace Looped

open Dispatcher

/-! ### What is on the loop -/

/-- A number that the callbacks to come do not exceed. -/
def load (s : Looped ℚ) : Nat := s.desk.load s.loop.callbacks

/-- What the session waits for is on its way, and no timer is due later than the debounce. -/
structure Steady (s : Looped ℚ) : Prop where
  immediate : s.immediate = true
  debounce_nonneg : 0 ≤ s.debounce
  sound : s.loop.Sound
  shut : s.desk.shut = false
  due : ∀ p ∈ s.loop.timers.pending, p.due ≤ s.loop.now + s.debounce
  served : Served (s.desk.chores s.loop.callbacks) s.desk

/-- All that is on its way is on the loop. -/
structure Ready (s : Looped ℚ) : Prop extends Steady s where
  alarms : s.desk.alarms = []
  posted : s.desk.posted = []
  ended : ∀ j ∈ s.desk.jobs, j.ended = true

variable {s s' : Looped ℚ}

theorem Ready.chores_eq (hs : Ready s) :
    s.desk.chores s.loop.callbacks = s.loop.callbacks.map Callback.chore := by
  have hjobs : s.desk.jobs.filterMap Job.chore? = [] :=
    List.filterMap_eq_nil_iff.mpr fun j hj => by simp [Job.chore?, hs.ended j hj]
  rw [chores, hs.alarms, hs.posted, hjobs]
  rfl

/-- A session that is not idle has a callback on its loop. -/
theorem Ready.callbacks_ne_nil (hs : Ready s) (hidle : s.desk.idle = false) :
    s.loop.callbacks ≠ [] := by
  intro hnil
  have hserved := hs.served
  rw [hs.chores_eq, hnil] at hserved
  exact absurd hserved.idle (by simp [hidle])

theorem Ready.load_le (hs : Ready s) : s.load ≤ backlog s := by
  have htotal := Chore.total_le (s.desk.chores s.loop.callbacks)
  have hlength : (s.desk.chores s.loop.callbacks).length =
      s.loop.queue.length + s.loop.timers.pending.length := by
    rw [hs.chores_eq, EventLoop.callbacks, List.length_map, List.length_append, List.length_map]
  rw [hlength] at htotal
  exact htotal.trans (Nat.le_add_right _ _)

/-- Time that passes puts no timer off. -/
theorem Steady.due_of_le (hs : Steady s) {l : EventLoop ℚ Callback}
    (htimers : l.timers.pending ⊆ s.loop.timers.pending) (hnow : s.loop.now ≤ l.now) :
    ∀ p ∈ l.timers.pending, p.due ≤ l.now + s.debounce := by
  intro p hp
  calc p.due ≤ s.loop.now + s.debounce := hs.due p (htimers hp)
    _ ≤ l.now + s.debounce := by linarith

/-- Time that passes leaves the session ready, with as much to do. -/
theorem Ready.passes (hs : Ready s) {l : EventLoop ℚ Callback} (hl : EventLoop.Passes s.loop l) :
    Ready { s with loop := l } ∧ load { s with loop := l } = s.load := by
  have hsame : (s.desk.chores l.callbacks).Perm (s.desk.chores s.loop.callbacks) :=
    ((hl.callbacks.append_left s.desk.posted).map Callback.chore).append_left _
  have hready : Ready { s with loop := l } :=
    { hs with
      sound := hl.sound
      due := hs.due_of_le hl.timers hl.now_le
      served := hs.served.mono hsame.symm.subset }
  exact ⟨hready, Chore.total_perm hsame⟩

section

variable [Glyphs]

/-- Moves of the dispatcher leave the session steady. -/
theorem Steady.leads (hs : Steady s) {d : Desk ℚ} (hd : Desk.Leads s.desk d) :
    Steady { s with desk := d } :=
  { hs with
    shut := hd.shut hs.shut
    served := hd.keeps (P := fun d => Served (d.chores s.loop.callbacks) d)
      (fun _ m h => h.next m) hs.served }

/-! ### What is handed over -/

omit [Glyphs] in
/-- The alarms are put on the loop as timers, and what is posted as callbacks. -/
theorem gains_handed {l : EventLoop ℚ Callback} (hl : l.Sound) (debounce : ℚ)
    (alarms : List Int) (posted : List Callback) :
    EventLoop.Gains (fun t => alarms ≠ [] ∧ t = l.now + max 0 debounce)
      (alarms.map .debounce ++ posted) l
      (posted.foldl (fun l c => l.callSoon c)
        (alarms.foldl (fun l seq => l.callLater debounce (.debounce seq)) l)) := by
  have hlater := EventLoop.gains_foldl (g := Callback.debounce)
    (P := fun t => alarms ≠ [] ∧ t = l.now + max 0 debounce)
    (f := fun l seq => l.callLater debounce (.debounce seq))
    (fun seq hseq l' hl' hnow => EventLoop.gains_callLater hl' _
      ⟨List.ne_nil_of_mem hseq, by rw [hnow]⟩) hl
  have hsoon := EventLoop.gains_foldl (g := id)
    (P := fun t => alarms ≠ [] ∧ t = l.now + max 0 debounce)
    (fun c (_ : c ∈ posted) l' hl' _ => EventLoop.gains_callSoon hl' c) hlater.sound
  rw [List.map_id] at hsoon
  exact hlater.trans hsoon

/-- What handing over does: the jobs end, and all that is on its way comes to the loop. -/
structure Handed (s s' : Looped ℚ) : Prop where
  ready : Ready s'
  load : s'.load = s.load
  now : s'.loop.now = s.loop.now
  debounce : s'.debounce = s.debounce
  timers : s.desk.alarms = [] → s'.loop.timers.pending ⊆ s.loop.timers.pending

theorem Steady.handed (hs : Steady s) : Handed s (handOver s) := by
  obtain ⟨d, hd⟩ : ∃ d, d = completeAll s.desk := ⟨_, rfl⟩
  have hended : ∀ j ∈ d.jobs, j.ended = true := hd ▸ ended_completeAll s.desk
  -- the jobs that end change neither what is on its way nor the alarms
  obtain ⟨hshut, hserved, hperm, halarms⟩ : d.shut = false ∧
      Served (d.chores s.loop.callbacks) d ∧
      (d.chores s.loop.callbacks).Perm (s.desk.chores s.loop.callbacks) ∧
      d.alarms = s.desk.alarms := by
    rw [hd]
    refine completeAll_induction (P := fun d => d.shut = false ∧ Served (d.chores _) d ∧
      (d.chores _).Perm (s.desk.chores _) ∧ d.alarms = s.desk.alarms)
      ⟨hs.shut, hs.served, .refl _, rfl⟩ ?_
    rintro d i ⟨hshut, hserved, hperm, halarms⟩
    exact ⟨(complete_shut i).trans hshut, hserved.complete i,
      (chores_complete _ Session.hooks i d).trans hperm,
      (sameNumbers_complete Session.hooks d i).alarms.trans halarms⟩
  have hgains := gains_handed hs.sound s.debounce d.alarms d.posted
  rw [max_eq_right hs.debounce_nonneg] at hgains
  have he : handOver s = { s with
      desk := { d with alarms := [], posted := [] }
      loop := d.posted.foldl (fun l c => l.callSoon c)
        (d.alarms.foldl (fun l seq => l.callLater s.debounce (.debounce seq)) s.loop) } := by
    rw [handOver, if_pos hs.immediate, hd]
  rw [he]
  generalize d.posted.foldl _ _ = l at hgains
  have hsame : (({ d with alarms := [], posted := [] } : Desk ℚ).chores l.callbacks).Perm
      (d.chores s.loop.callbacks) := chores_handed hgains.callbacks
  refine ⟨⟨⟨hs.immediate, hs.debounce_nonneg, hgains.sound, hshut, fun p hp => ?_, ?_⟩,
    rfl, rfl, hended⟩, ?_, hgains.now, rfl, fun hnone p hp => ?_⟩
  · show p.due ≤ l.now + s.debounce
    rw [hgains.now]
    rcases hgains.timers p hp with hold | ⟨-, hnew⟩
    · exact hs.due p hold
    · exact hnew.le
  · have hserved := hserved.mono hsame.symm.subset
    exact ⟨hserved.newest, hserved.running, hserved.awaited⟩
  · exact Chore.total_perm (hsame.trans hperm)
  · rcases hgains.timers p hp with hold | ⟨hne, -⟩
    · exact hold
    · exact absurd (halarms.trans hnone) hne

/-- A command of the session is handed over as well. -/
theorem Ready.performed (hs : Ready s) {d : Desk ℚ} (hd : Desk.Leads s.desk d) :
    Handed { s with desk := d } (handOver { s with desk := d }) :=
  (hs.toSteady.leads hd).handed

/-! ### Steps of the loop -/

/-- What a step of the loop does: it answers a callback, or it waits. -/
structure Steps (timeout : ℚ) (s : Looped ℚ) (answered : Bool) (s' : Looped ℚ) : Prop where
  ready : Ready s'
  debounce : s'.debounce = s.debounce
  timers : s'.loop.timers.pending ⊆ s.loop.timers.pending
  now_le : s.loop.now ≤ s'.loop.now
  answers : answered = true → s'.load < s.load ∧
    (s'.loop.now = s.loop.now ∨ ∃ p ∈ s.loop.timers.pending, s'.loop.now = p.due)
  waits : answered = false → s'.desk = s.desk ∧ s'.load = s.load ∧
    (0 < timeout → s'.loop.now = s.loop.now + timeout ∧ s'.loop.queue = [] ∧
      ∀ p ∈ s'.loop.timers.pending, s'.loop.now < p.due)

theorem runOnce_of_none {timeout : ℚ} {l : EventLoop ℚ Callback}
    (h : s.loop.next? timeout = (none, l)) :
    driven.runOnce timeout s = (.ok false, { s with loop := l }) := by
  have hloop : driven.loop s = s.loop := rfl
  rw [Driven.runOnce, get_bind, hloop, h]
  rfl

theorem perform_react (hshut : s.desk.shut = false) (c : Callback) :
    perform (react Session.hooks c) s =
      (.ok (), handOver { s with
        desk := { s.desk with now := s.loop.now }.reacted Session.hooks c }) := by
  have hreact := react_eq (h := Session.hooks) (d := { s.desk with now := s.loop.now }) hshut c
  show (_, handOver { s with
    desk := (react Session.hooks c { s.desk with now := s.loop.now }).2 }) = _
  rw [hreact]
  exact congrArg (·, _) (congrArg Prod.fst hreact)

theorem runOnce_of_some {timeout : ℚ} {c : Callback} {l : EventLoop ℚ Callback}
    (h : s.loop.next? timeout = (some c, l)) (hshut : s.desk.shut = false) :
    driven.runOnce timeout s = (.ok true,
      handOver { s with
        loop := l
        desk := { s.desk with now := l.now }.reacted Session.hooks c }) := by
  have hloop : driven.loop s = s.loop := rfl
  have hrun := perform_react (s := { s with loop := l }) hshut c
  rw [Driven.runOnce, get_bind, hloop, h]
  exact (set_bind _).trans (bind_ok hrun)

/-- A callback that is taken off the loop and answered leaves the session steady, with less to
do. -/
theorem Ready.answered (hs : Ready s) {timeout : ℚ} {c : Callback} {l : EventLoop ℚ Callback}
    (hl : EventLoop.Hands timeout s.loop (some c) l) :
    let s' := { s with
      loop := l
      desk := { s.desk with now := l.now }.reacted Session.hooks c }
    Steady s' ∧ s'.load < s.load ∧ s'.desk.alarms = [] := by
  have htaken : (s.desk.chores s.loop.callbacks).Perm
      (c.chore :: s.desk.chores l.callbacks) := chores_of_pool hl.callbacks
  have hserved := hs.served.mono htaken.subset
  refine ⟨⟨hs.immediate, hs.debounce_nonneg, hl.sound, (reacted_shut c).trans hs.shut,
    hs.due_of_le hl.timers hl.now_le, ?_⟩, ?_, (reacted_alarms c).trans hs.alarms⟩
  · exact Served.reacted (d := { s.desk with now := l.now })
      ⟨hserved.newest, hserved.running, hserved.awaited⟩
  · have hload : s.load = c.chore.weight + s.desk.load l.callbacks := load_of_perm htaken
    have hless : (({ s.desk with now := l.now } : Desk ℚ).reacted Session.hooks c).load l.callbacks
        + 1 ≤ c.chore.weight + s.desk.load l.callbacks := load_reacted c
    show (({ s.desk with now := l.now } : Desk ℚ).reacted Session.hooks c).load l.callbacks < _
    omega

theorem runOnce_steps (hs : Ready s) {timeout : ℚ} (ht : 0 ≤ timeout) :
    ∃ answered s', driven.runOnce timeout s = (.ok answered, s') ∧
      Steps timeout s answered s' := by
  have hhands := EventLoop.hands_next? hs.sound ht
  rcases hnext : s.loop.next? timeout with ⟨- | c, l⟩
  · rw [hnext] at hhands
    obtain ⟨hready, hload⟩ := hs.passes hhands.passes
    exact ⟨false, _, runOnce_of_none hnext, hready, rfl, hhands.timers, hhands.now_le, by simp,
      fun _ => ⟨rfl, hload, hhands.passed rfl⟩⟩
  · rw [hnext] at hhands
    obtain ⟨hsteady, hless, halarms⟩ := hs.answered hhands
    have hhanded := hsteady.handed
    refine ⟨true, _, runOnce_of_some hnext hs.shut, hhanded.ready, hhanded.debounce,
      List.Subset.trans (hhanded.timers halarms) hhands.timers, ?_, fun _ => ⟨?_, ?_⟩, by simp⟩
    · exact hhands.now_le.trans hhanded.now.ge
    · exact hhanded.load.trans_lt hless
    · rw [hhanded.now]
      exact hhands.now_at (by simp)

/-! ### Runs of the loop -/

omit [Glyphs] in
theorem slice_eq : (Driven.slice : ℚ) = 1 / 20 := by
  rw [Driven.slice, Time.ofMillis_rat]
  norm_num

variable {wanted : Looped ℚ → Bool} {deadline : ℚ}

theorem runBefore_of_wanted (h : wanted s = true) (bound : Nat) :
    driven.runBefore wanted deadline bound s = (.ok true, s) := by
  cases bound with
  | zero => exact congrArg (fun b => (Except.ok b, s)) h
  | succ bound =>
    rw [Driven.runBefore, get_bind, if_pos h]
    rfl

theorem runBefore_of_late (h : wanted s = false) (hlate : deadline ≤ s.loop.now) (bound : Nat) :
    driven.runBefore wanted deadline bound s = (.ok false, s) := by
  cases bound with
  | zero => exact congrArg (fun b => (Except.ok b, s)) h
  | succ bound =>
    have hleft : Time.le (Time.sub deadline (driven.loop s).now) Time.zero = true := by
      rw [Time.le_rat, Time.sub_rat, Time.zero_rat]
      exact sub_nonpos.mpr hlate
    rw [Driven.runBefore, get_bind, h]
    show (if Time.le (Time.sub deadline (driven.loop s).now) Time.zero = true then
      (return false : Op ℚ Bool) else _) s = _
    rw [if_pos hleft]
    rfl

/-- The time that a step waits: what is left, but not more than a slice. -/
def wait (deadline : ℚ) (s : Looped ℚ) : ℚ := min (deadline - s.loop.now) Driven.slice

theorem runBefore_of_step (h : wanted s = false) (hnow : s.loop.now < deadline) {answered : Bool}
    (hstep : driven.runOnce (wait deadline s) s = (.ok answered, s')) (bound : Nat) :
    driven.runBefore wanted deadline (bound + 1) s = driven.runBefore wanted deadline bound s' := by
  have hleft : Time.le (Time.sub deadline (driven.loop s).now) Time.zero = false := by
    rw [Bool.eq_false_iff, ne_eq, Time.le_rat, Time.sub_rat, Time.zero_rat, not_le]
    exact sub_pos.mpr hnow
  have hwait : Time.earlier (Time.sub deadline (driven.loop s).now) Driven.slice =
      wait deadline s := by
    rw [Time.earlier_rat, Time.sub_rat]
    rfl
  rw [Driven.runBefore, get_bind, h]
  dsimp only
  rw [hleft, hwait]
  exact bind_ok hstep

omit [Glyphs] in
theorem wait_pos (hnow : s.loop.now < deadline) : 0 < wait deadline s :=
  lt_min (sub_pos.mpr hnow) (by rw [slice_eq]; norm_num)

/-- However long a loop is run, the session stays ready. -/
theorem Ready.runBefore (hs : Ready s) (wanted : Looped ℚ → Bool) (deadline : ℚ) (bound : Nat) :
    ∃ b s', driven.runBefore wanted deadline bound s = (.ok b, s') ∧ Ready s' ∧
      s'.debounce = s.debounce := by
  induction bound generalizing s with
  | zero => exact ⟨_, _, rfl, hs, rfl⟩
  | succ bound ih =>
    rcases hwanted : wanted s with - | -
    · rcases le_or_gt deadline s.loop.now with hlate | hnow
      · exact ⟨_, _, runBefore_of_late hwanted hlate _, hs, rfl⟩
      · obtain ⟨answered, s', hstep, hsteps⟩ := runOnce_steps hs (wait_pos hnow).le
        obtain ⟨b, s'', hrun, hs'', hdebounce⟩ := ih hsteps.ready
        exact ⟨b, s'', (runBefore_of_step hwanted hnow hstep bound).trans hrun, hs'',
          hdebounce.trans hsteps.debounce⟩
    · exact ⟨_, _, runBefore_of_wanted hwanted _, hs, rfl⟩

/-- What each step of a ready session keeps, a run of the loop keeps. -/
theorem Ready.runBefore_induction {P : Looped ℚ → Prop}
    (hstep : ∀ s timeout, Ready s → 0 ≤ timeout → P s → P (driven.runOnce timeout s).2)
    (hs : Ready s) (h : P s) (wanted : Looped ℚ → Bool) (deadline : ℚ) (bound : Nat) :
    P (driven.runBefore wanted deadline bound s).2 := by
  induction bound generalizing s with
  | zero => exact h
  | succ bound ih =>
    rcases hwanted : wanted s with - | -
    · rcases le_or_gt deadline s.loop.now with hlate | hnow
      · rw [runBefore_of_late hwanted hlate]
        exact h
      · obtain ⟨answered, s', hrun, hsteps⟩ := runOnce_steps hs (wait_pos hnow).le
        have hs' := hstep s _ hs (wait_pos hnow).le h
        rw [hrun] at hs'
        rw [runBefore_of_step hwanted hnow hrun]
        exact ih hsteps.ready hs'
    · rw [runBefore_of_wanted hwanted]
      exact h

omit [Glyphs] in
/-- A step that only waits, while the session is not idle, waits for a whole slice: the deadline
has not come then, since a timer is due before it. -/
theorem Steps.waited {s s' : Looped ℚ} (hs : Steps (wait deadline s) s false s')
    (hidle : s.desk.idle = false) (hnow : s.loop.now < deadline)
    (hdue : ∀ p ∈ s.loop.timers.pending, p.due < deadline) :
    s'.loop.now < deadline ∧ s'.loop.now = s.loop.now + Driven.slice := by
  obtain ⟨hdesk, -, hpassed⟩ := hs.waits rfl
  obtain ⟨hnow', hqueue, hlate⟩ := hpassed (wait_pos hnow)
  have hne : s'.loop.callbacks ≠ [] := hs.ready.callbacks_ne_nil (hdesk ▸ hidle)
  have htimers : s'.loop.timers.pending ≠ [] := by
    intro hnil
    exact hne (by rw [EventLoop.callbacks, hqueue, hnil]; rfl)
  obtain ⟨p, hp⟩ := List.exists_mem_of_ne_nil _ htimers
  have hbefore : s'.loop.now < deadline := (hlate p hp).trans (hdue p (hs.timers hp))
  refine ⟨hbefore, hnow'.trans ?_⟩
  rcases min_choice (deadline - s.loop.now) Driven.slice with hall | hslice
  · have hwait : wait deadline s = deadline - s.loop.now := hall
    exact absurd hbefore (by rw [hnow', hwait]; simp)
  · exact congrArg (s.loop.now + ·) hslice

/-- The deadline, before which every timer is due, has not come, and it is no more than so many
slices of the time away. -/
structure Awaits (deadline : ℚ) (n : Nat) (s : Looped ℚ) : Prop where
  ready : Ready s
  now_lt : s.loop.now < deadline
  due : ∀ p ∈ s.loop.timers.pending, p.due < deadline
  slices : deadline ≤ s.loop.now + n * Driven.slice

omit [Glyphs] in
theorem Awaits.pos {n : Nat} (hs : Awaits deadline n s) : 0 < n := by
  refine Nat.pos_of_ne_zero fun hn => ?_
  have hslices := hs.slices
  rw [hn, Nat.cast_zero, zero_mul, add_zero] at hslices
  exact absurd hs.now_lt hslices.not_gt

/-- A step of a session that is not idle answers a callback or takes a slice. -/
theorem Awaits.step {n : Nat} (hs : Awaits deadline n s) (hidle : s.desk.idle = false) :
    ∃ answered s' n', driven.runOnce (wait deadline s) s = (.ok answered, s') ∧
      Awaits deadline n' s' ∧ n' + s'.load < n + s.load := by
  obtain ⟨answered, s', hstep, hsteps⟩ := runOnce_steps hs.ready (wait_pos hs.now_lt).le
  have hdue : ∀ p ∈ s'.loop.timers.pending, p.due < deadline :=
    fun p hp => hs.due p (hsteps.timers hp)
  cases answered with
  | true =>
    obtain ⟨hload, hat⟩ := hsteps.answers rfl
    have hnow : s'.loop.now < deadline := by
      rcases hat with he | ⟨p, hp, he⟩
      · exact he ▸ hs.now_lt
      · exact he ▸ hs.due p hp
    have hslices : deadline ≤ s'.loop.now + n * Driven.slice := by
      linarith [hs.slices, hsteps.now_le]
    exact ⟨true, s', n, hstep, ⟨hsteps.ready, hnow, hdue, hslices⟩, by omega⟩
  | false =>
    obtain ⟨hnow, hslice⟩ := hsteps.waited hidle hs.now_lt hs.due
    have hload : s'.load = s.load := (hsteps.waits rfl).2.1
    obtain ⟨n, rfl⟩ : ∃ k, n = k + 1 := ⟨n - 1, by have := hs.pos; omega⟩
    have hslices : deadline ≤ s'.loop.now + n * Driven.slice := by
      have hbefore := hs.slices
      push_cast at hbefore
      linarith
    exact ⟨false, s', n, hstep, ⟨hsteps.ready, hnow, hdue, hslices⟩, by omega⟩

/-- **A session whose timers are due before the deadline is as wanted before it**, if an idle one
is, after no more steps than there are slices and callbacks to come. -/
theorem Awaits.wanted_before {wanted : Desk ℚ → Bool}
    (hwanted : ∀ d, d.idle = true → wanted d = true) {n m : Nat} (hs : Awaits deadline n s)
    (hm : n + s.load ≤ m) :
    ∃ s', wanted s'.desk = true ∧ ∀ bound ≥ m,
      driven.runBefore (fun s => wanted s.desk) deadline bound s = (.ok true, s') := by
  induction m generalizing s n with
  | zero => exact absurd hs.pos (by omega)
  | succ m ih =>
    rcases h : wanted s.desk with - | -
    · have hidle : s.desk.idle = false := by
        rcases hi : s.desk.idle with - | -
        · rfl
        · exact absurd (hwanted _ hi) (by simp [h])
      obtain ⟨answered, s', n', hstep, hs', hless⟩ := hs.step hidle
      obtain ⟨s'', hw, hrun⟩ := ih hs' (by omega)
      refine ⟨s'', hw, fun bound hbound => ?_⟩
      obtain ⟨bound, rfl⟩ : ∃ b, bound = b + 1 := ⟨bound - 1, by omega⟩
      exact (runBefore_of_step h hs.now_lt hstep bound).trans (hrun bound (by omega))
    · exact ⟨s, h, fun bound _ => runBefore_of_wanted h bound⟩

/-! ### What is done with a session on a loop -/

/-- What is done with a session on a loop. -/
inductive Doing
  /-- A command of the session. -/
  | input (i : Desk.Input)
  /-- A filter is run, and its result is waited for. -/
  | run (text : Text) (timeout : ℚ)
  /-- A callback is run, if one comes in time. -/
  | pump (timeout : ℚ≥0)
  /-- Callbacks are run until the session is as wanted or the time is over. -/
  | wait (wanted : Desk ℚ → Bool) (timeout : ℚ)
  /-- Time goes by. -/
  | advance (span : ℚ≥0)

/-- The state after something has been done, whatever it answers or raises. -/
def Doing.next : Doing → Looped ℚ → Looped ℚ
  | input i, s => (perform (Dispatcher.act i.next) s).2
  | run text timeout, s => (runWithin text timeout s).2
  | pump timeout, s => (driven.runOnce (timeout : ℚ) s).2
  | wait wanted timeout, s => (waitUntil wanted timeout s).2
  | advance span, s => { s with loop := s.loop.advance (span : ℚ) }

/-- The state after all that has been done. -/
def afterAll (ds : List Doing) (s : Looped ℚ) : Looped ℚ := ds.foldl (fun s d => d.next s) s

omit [Glyphs] in
theorem ready_fresh (source : Source) (name : Text) (capacity : Int) (recording : Bool)
    {debounce : ℚ} (hd : 0 ≤ debounce) :
    Ready (fresh (Desk.ofSession (Session.ofSource source name capacity) recording) true
      debounce) where
  immediate := rfl
  debounce_nonneg := hd
  sound := ⟨rfl, Timers.numbered_atZero⟩
  shut := rfl
  due := by simp [fresh, EventLoop.fresh, Timers.atZero]
  served := ⟨.inl rfl, nofun, nofun⟩
  alarms := rfl
  posted := rfl
  ended := nofun

theorem waitUntil_eq (wanted : Desk ℚ → Bool) (timeout : ℚ) :
    waitUntil wanted timeout s =
      driven.runBefore (fun s => wanted s.desk) (s.loop.now + timeout)
        (Time.slices timeout + backlog s + 8) s := by
  have hloop : driven.loop s = s.loop := rfl
  rw [waitUntil, get_bind, Driven.runUntil, get_bind, hloop, Time.add_rat]

omit [Glyphs] in
/-- A wait that is longer than the debounce is no more than so many slices of the time. -/
theorem Ready.awaits (hs : Ready s) {timeout : ℚ} (htimeout : s.debounce < timeout) :
    Awaits (s.loop.now + timeout) (Time.slices timeout) s where
  ready := hs
  now_lt := by linarith [hs.debounce_nonneg]
  due p hp := by linarith [hs.due p hp]
  slices := by
    have hceil := Time.le_slices_rat timeout
    rw [slice_eq]
    linarith

/-- What an idle session fulfils is waited for with success. -/
theorem Ready.waitUntil_ok (hs : Ready s) {timeout : ℚ} (htimeout : s.debounce < timeout)
    {wanted : Desk ℚ → Bool} (hwanted : ∀ d, d.idle = true → wanted d = true) :
    ∃ s', Looped.waitUntil wanted timeout s = (.ok true, s') ∧ wanted s'.desk = true := by
  obtain ⟨s', hw, hrun⟩ := (hs.awaits htimeout).wanted_before hwanted
    (Nat.add_le_add_left hs.load_le _)
  exact ⟨s', (waitUntil_eq wanted timeout).trans (hrun _ (Nat.le_add_right _ 8)), hw⟩

/-- What is done with a session on a loop leaves it ready, with the debounce it had. -/
structure Keeps (s s' : Looped ℚ) : Prop where
  ready : Ready s'
  debounce : s'.debounce = s.debounce

theorem Ready.waitUntil (hs : Ready s) (wanted : Desk ℚ → Bool) (timeout : ℚ) :
    ∃ b s', Looped.waitUntil wanted timeout s = (.ok b, s') ∧ Keeps s s' := by
  obtain ⟨b, s', hrun, hs', hdebounce⟩ := hs.runBefore (fun s => wanted s.desk)
    (s.loop.now + timeout) (Time.slices timeout + backlog s + 8)
  exact ⟨b, s', (waitUntil_eq wanted timeout).trans hrun, hs', hdebounce⟩

theorem Ready.input (hs : Ready s) (i : Desk.Input) : Keeps s ((Doing.input i).next s) := by
  have hleads : Desk.Leads s.desk (i.next { s.desk with now := s.loop.now }) :=
    ((Desk.Leads.refl s.desk).move (.tick s.loop.now)).input hs.shut i
  have hhanded := hs.performed hleads
  exact ⟨hhanded.ready, hhanded.debounce⟩

/-- A filter that is run at once is an input. -/
theorem perform_runNow (hshut : s.desk.shut = false) (text : Text) :
    perform (Desk.runNow text) s = (.ok (), (Doing.input (.runNow text)).next s) :=
  congrArg (·, (Doing.input (.runNow text)).next s)
    (congrArg Prod.fst (Desk.runNow_eq (d := { s.desk with now := s.loop.now }) hshut text))

/-- A filter that is run at once is an input, whose result is waited for. -/
theorem runWithin_of_wait (hshut : s.desk.shut = false) {text : Text} {timeout : ℚ} {b : Bool}
    (hwait : Looped.waitUntil (fun d => !d.running) timeout
      ((Doing.input (.runNow text)).next s) = (.ok b, s')) :
    runWithin text timeout s =
      (if b then .ok s'.desk.client.outcome else .error (.timeout (Time.secondsText timeout)),
        s') := by
  rw [runWithin, bind_ok (perform_runNow hshut text), bind_ok hwait]
  cases b <;> rfl

theorem Ready.run (hs : Ready s) (text : Text) (timeout : ℚ) :
    Keeps s (runWithin text timeout s).2 := by
  have hinput := hs.input (.runNow text)
  obtain ⟨b, s', hwait, hkeeps⟩ := hinput.ready.waitUntil (fun d => !d.running) timeout
  rw [runWithin_of_wait hs.shut hwait]
  exact ⟨hkeeps.ready, hkeeps.debounce.trans hinput.debounce⟩

theorem Ready.advance (hs : Ready s) (span : ℚ≥0) : Keeps s ((Doing.advance span).next s) := by
  have hpasses := EventLoop.passes_advance hs.sound span.cast_nonneg
  exact ⟨(hs.passes hpasses).1, rfl⟩

theorem Ready.next (hs : Ready s) (d : Doing) : Keeps s (d.next s) := by
  cases d with
  | input i => exact hs.input i
  | run text timeout => exact hs.run text timeout
  | pump timeout =>
    obtain ⟨answered, s', hstep, hsteps⟩ := runOnce_steps hs timeout.cast_nonneg
    have he : (Doing.pump timeout).next s = s' := congrArg Prod.snd hstep
    rw [he]
    exact ⟨hsteps.ready, hsteps.debounce⟩
  | wait wanted timeout =>
    obtain ⟨b, s', hwait, hkeeps⟩ := hs.waitUntil wanted timeout
    have he : (Doing.wait wanted timeout).next s = s' := congrArg Prod.snd hwait
    exact he ▸ hkeeps
  | advance span => exact hs.advance span

theorem Ready.afterAll (hs : Ready s) (ds : List Doing) : Keeps s (afterAll ds s) := by
  induction ds generalizing s with
  | nil => exact ⟨hs, rfl⟩
  | cons d rest ih =>
    have hfirst := hs.next d
    have hrest := ih hfirst.ready
    exact ⟨hrest.ready, hrest.debounce.trans hfirst.debounce⟩

/-- **A session comes to rest.**  Whatever has been done with a session on a loop whose background
ends each job at once, waiting for longer than the debounce ends with nothing left to do.  The bound
on the steps is not what ends it: every bound that is at least the twentieths of the timeout and the
callbacks to come leads to the same state. -/
theorem settles (source : Source) (name : Text) (capacity : Int) (recording : Bool)
    {debounce timeout : ℚ} (hdebounce : 0 ≤ debounce) (htimeout : debounce < timeout)
    (ds : List Doing) :
    let s := afterAll ds (fresh (Desk.ofSession (Session.ofSource source name capacity) recording)
      true debounce)
    ∃ s', settleWithin timeout s = (.ok true, s') ∧ s'.desk.idle = true ∧
      ∀ bound ≥ Time.slices timeout + backlog s,
        driven.runBefore (fun s => s.desk.idle) (s.loop.now + timeout) bound s =
          (.ok true, s') := by
  intro s
  obtain ⟨hs, hkept⟩ := (ready_fresh source name capacity recording hdebounce).afterAll ds
  have hawaits : Awaits (s.loop.now + timeout) (Time.slices timeout) s :=
    hs.awaits (hkept.trans_lt htimeout)
  obtain ⟨s', hidle, hrun⟩ := hawaits.wanted_before (fun _ h => h)
    (Nat.add_le_add_left hs.load_le _)
  refine ⟨s', ?_, hidle, hrun⟩
  exact (waitUntil_eq Dispatcher.idle timeout).trans (hrun _ (Nat.le_add_right _ 8))

end

/-- The programs break down, and a filter that was typed has waited for a part of its debounce. -/
theorem settles_broken :
    let program : Program := .onValue fun _ => [.crash (.foreign "broken".toList)]
    let source : Source := ⟨⟨fun _ => .ok program⟩, .int 7, 0⟩
    let s := afterAll
      [.input .start, .input (.setFilter ".a".toList), .pump 0, .advance ⟨1 / 100, by norm_num⟩]
      (fresh (Desk.ofSession (Session.ofSource source [] 16) true) true (3 / 100))
    s.desk.idle = false ∧ (0 : ℚ) ≤ 3 / 100 ∧ (3 / 100 : ℚ) < 1 / 20 ∧
      ∃ s', settleWithin (1 / 20) s = (.ok true, s') ∧ s'.desk.idle = true := by
  intro program source s
  obtain ⟨s', hsettles, hidle, -⟩ := settles source [] 16 true (by norm_num : (0 : ℚ) ≤ 3 / 100)
    (by norm_num : (3 / 100 : ℚ) < 1 / 20)
    [.input .start, .input (.setFilter ".a".toList), .pump 0, .advance ⟨1 / 100, by norm_num⟩]
  exact ⟨by decide +kernel, by norm_num, by norm_num, s', hsettles, hidle⟩

end Looped

end LiveQuery
