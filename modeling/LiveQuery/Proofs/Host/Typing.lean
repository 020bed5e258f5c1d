/-
LiveQuery/Proofs/Host/Typing.lean

Typing a filter on a loop and waiting for its result.

Design.  A session on a loop goes on in sync if it is ready and a desk in sync stands for it
(`Goes`).  A negative debounce is none to the loop, so that nothing it does tells the session from
the one whose debounce is not negative (`delayed`); the timers of that one are due in time.  Neither
jobs nor callbacks change the filter, the recent filters or the newest number (`noted`).  So once a
filter has been typed and waited for, the session is idle at this filter, and being in sync it shows
its outcome (`Answered`).

Main results: a filter that is typed is answered when the wait is longer than the debounce
(`Goes.typed`), and stays so under what only looks at the session (`Answered.look`).
-/
import LiveQuery.Proofs.Host.Hosted
import LiveQuery.Proofs.Session.Settled

namespace LiveQuery

namespace Desk

open Dispatcher

variable {τ : Type} [Glyphs]

/-! ### What neither jobs nor callbacks change -/

/-- The filter, the recent filters and the newest number. -/
def noted (d : Desk τ) : Text × Recent × Int := (d.client.filter, d.client.recent, d.minted)

theorem noted_fetched (d : Desk τ) : noted (fetched d) = noted d := by
  rcases fetched_cases d with ⟨-, he⟩ | ⟨-, -, he⟩
  · rw [he]
  · rw [he]
    rfl

theorem noted_complete (d : Desk τ) (i : Nat) :
    noted (d.complete Session.hooks i) = noted d ∧ (d.complete Session.hooks i).idle = d.idle := by
  obtain ⟨memo, jobs, posted, he⟩ := complete_keeps d i
  rw [he]
  exact ⟨rfl, rfl⟩

theorem noted_reacted [Time τ] (d : Desk τ) (c : Callback) :
    noted (d.reacted Session.hooks c) = noted d := by
  cases c with
  | debounce seq =>
    show noted (d.elapsed Session.hooks seq) = _
    unfold elapsed
    split <;> rfl
  | result seq o =>
    show noted (d.takeResult Session.hooks seq o) = _
    rw [takeResult_eq]
    unfold noted
    dsimp only
    split <;> rfl
  | keys path answer =>
    show noted (d.answerKeys Session.hooks path answer.toOption) = _
    rw [answerKeys_eq]
    unfold noted
    dsimp only
    split <;> rfl

end Desk

namespace Looped

open Dispatcher Desk

variable [Glyphs] {s s' : Looped ℚ}

theorem noted_handOver (s : Looped ℚ) :
    noted (handOver s).desk = noted s.desk ∧ (handOver s).desk.idle = s.desk.idle := by
  have hall : noted (completeAll s.desk) = noted s.desk ∧
      (completeAll s.desk).idle = s.desk.idle := by
    refine completeAll_induction (P := fun d => noted d = noted s.desk ∧ d.idle = s.desk.idle)
      ⟨rfl, rfl⟩ fun d i hd => ?_
    obtain ⟨hnoted, hidle⟩ := noted_complete d i
    exact ⟨hnoted.trans hd.1, hidle.trans hd.2⟩
  have hdesk : noted (if s.immediate then completeAll s.desk else s.desk) = noted s.desk ∧
      (if s.immediate then completeAll s.desk else s.desk).idle = s.desk.idle := by
    split
    · exact hall
    · exact ⟨rfl, rfl⟩
  exact hdesk

theorem noted_runOnce (hs : Ready s) (timeout : ℚ) :
    noted (driven.runOnce timeout s).2.desk = noted s.desk := by
  rcases hnext : s.loop.next? timeout with ⟨- | c, l⟩
  · rw [runOnce_of_none hnext]
  · rw [runOnce_of_some hnext hs.shut]
    exact (noted_handOver _).1.trans (noted_reacted _ c)

theorem noted_waitUntil (hs : Ready s) (wanted : Desk ℚ → Bool) (timeout : ℚ) :
    noted (waitUntil wanted timeout s).2.desk = noted s.desk := by
  rw [waitUntil_eq]
  exact hs.runBefore_induction (P := fun t => noted t.desk = noted s.desk)
    (fun t _ ht _ h => (noted_runOnce ht _).trans h) rfl _ _ _

/-! ### A debounce that is negative -/

/-- The session with a debounce that is not negative. -/
def delayed (s : Looped ℚ) : Looped ℚ := { s with debounce := max 0 s.debounce }

/-- The operation does the same with a debounce that is not negative. -/
def Delays {α : Type} (op : Op ℚ α) : Prop := ∀ s, op s.delayed = ((op s).1, (op s).2.delayed)

theorem handOver_delayed (s : Looped ℚ) : handOver s.delayed = (handOver s).delayed := by
  have hlater (c : Callback) (l : EventLoop ℚ Callback) :
      l.callLater (max 0 s.debounce) c = l.callLater s.debounce c := by
    simp [EventLoop.callLater]
  unfold handOver delayed
  simp only [hlater]

theorem delays_perform {α : Type} (c : Command ℚ α) : Delays (perform c) := fun s =>
  congrArg (Prod.mk _) (handOver_delayed
    { s with desk := (c.run { s.desk with now := s.loop.now }).2 })

omit [Glyphs] in
theorem Delays.bind {α β : Type} {x : Op ℚ α} {f : α → Op ℚ β} (hx : Delays x)
    (hf : ∀ a, Delays (f a)) : Delays (x >>= f) := by
  intro s
  have hd := hx s
  rcases hr : x s with ⟨e | a, s'⟩ <;> rw [hr] at hd
  · rw [bind_error hd, bind_error hr]
  · rw [bind_ok hd, bind_ok hr]
    exact hf a s'

omit [Glyphs] in
theorem delays_pure {α : Type} (a : α) : Delays (pure a : Op ℚ α) := fun _ => rfl

theorem delays_runOnce (timeout : ℚ) : Delays (driven.runOnce timeout) := by
  intro s
  rcases hnext : s.loop.next? timeout with ⟨- | c, l⟩
  · rw [runOnce_of_none hnext, runOnce_of_none (s := s.delayed) hnext]
    rfl
  · have htaken (t : Looped ℚ) (ht : t.loop.next? timeout = (some c, l)) :
        driven.runOnce timeout t =
          (perform (react Session.hooks c) >>= fun _ => pure true) { t with loop := l } := by
      have hloop : driven.loop t = t.loop := rfl
      rw [Driven.runOnce, get_bind, hloop, ht]
      rfl
    rw [htaken s hnext, htaken s.delayed hnext]
    exact (delays_perform _).bind (fun _ => delays_pure true) { s with loop := l }

theorem delays_runBefore (wanted : Desk ℚ → Bool) (deadline : ℚ) (bound : Nat) :
    Delays (driven.runBefore (fun s => wanted s.desk) deadline bound) := by
  induction bound with
  | zero => exact fun _ => rfl
  | succ bound ih =>
    intro s
    have hstep : Delays (if wanted s.desk = true then pure true else
        if Time.le (Time.sub deadline s.loop.now) Time.zero = true then pure false else
          driven.runOnce (Time.earlier (Time.sub deadline s.loop.now) Driven.slice) >>= fun _ =>
            driven.runBefore (fun s => wanted s.desk) deadline bound : Op ℚ Bool) := by
      split
      · exact delays_pure true
      · split
        · exact delays_pure false
        · exact (delays_runOnce _).bind fun _ => ih
    exact hstep s

theorem delays_waitUntil (wanted : Desk ℚ → Bool) (timeout : ℚ) :
    Delays (waitUntil wanted timeout) := by
  intro s
  rw [waitUntil_eq, waitUntil_eq]
  exact delays_runBefore wanted _ _ s

omit [Glyphs] in
/-- What is known of an operation with a debounce that is not negative, is known of it. -/
theorem Delays.eq {α : Type} {op : Op ℚ α} (h : Delays op) {r : Except Fault α} {t : Looped ℚ}
    (hop : op s.delayed = (r, t)) : ∃ s', op s = (r, s') ∧ s'.delayed = t := by
  obtain ⟨hr, ht⟩ := Prod.mk.inj ((h s).symm.trans hop)
  exact ⟨(op s).2, Prod.ext hr rfl, ht⟩

/-! ### Sessions that go on in sync -/

/-- A session on a loop, ready but for a debounce that may be negative, that a desk in sync stands
for. -/
structure Goes (source : Source) (debounce : ℚ) (s : Looped ℚ) : Prop where
  ready : Ready s.delayed
  synced : ∃ d, InSync source d ∧ Stands d s.delayed
  debounce : s.delayed.debounce = max 0 debounce

omit [Glyphs] in
theorem goes_fresh (source : Source) (name : Text) (capacity : Int) (recording : Bool)
    (debounce : ℚ) :
    Goes source debounce
      (fresh (ofSession (Session.ofSource source name capacity) recording) true debounce) where
  ready := ready_fresh source name capacity recording (le_max_left 0 debounce)
  synced := ⟨_, inSync_ofSession source name capacity recording, stands_fresh ..⟩
  debounce := rfl

namespace Goes

variable {source : Source} {debounce : ℚ}

/-- Where happenings lead on, the session is in sync again. -/
theorem follows (h : Goes source debounce s) (hs : source.NeverCancels)
    (hkeeps : Keeps s.delayed s'.delayed)
    (hfollows : ∀ d, Follows d s.delayed → Follows d s'.delayed) : Goes source debounce s' := by
  obtain ⟨d, hd, hstands⟩ := h.synced
  obtain ⟨es, hes⟩ := hfollows d hstands.follows
  exact ⟨hkeeps.ready, ⟨_, hd.after hs es, hes⟩, hkeeps.debounce.trans h.debounce⟩

/-- A command of the session is an input. -/
theorem input (h : Goes source debounce s) (hs : source.NeverCancels) {α : Type}
    {c : Command ℚ α} {i : Input} (hc : ∀ d, (c d).2 = i.next d) :
    Goes source debounce (perform c s).2 := by
  have he : (perform c s).2.delayed = (Doing.input i).next s.delayed := by
    have hd := congrArg Prod.snd (delays_perform c s)
    refine hd.symm.trans ?_
    show handOver { s.delayed with desk := (c { s.desk with now := s.loop.now }).2 } = _
    rw [hc]
    rfl
  refine h.follows hs (he ▸ h.ready.input i) fun d hd => ?_
  rw [he]
  exact hd.input h.ready i

/-- What an idle session fulfils is waited for with success, if the wait is longer than the
debounce. -/
theorem waitUntil (h : Goes source debounce s) (hs : source.NeverCancels) {timeout : ℚ}
    (hpos : 0 < timeout) (htimeout : debounce < timeout) (wanted : Desk ℚ → Bool)
    (hwanted : ∀ d, d.idle = true → wanted d = true) :
    ∃ s', Looped.waitUntil wanted timeout s = (.ok true, s') ∧ Goes source debounce s' ∧
      wanted s'.desk = true ∧ noted s'.desk = noted s.desk := by
  -- the wait is that of the session whose debounce is not negative
  obtain ⟨t, hwait, hw⟩ := h.ready.waitUntil_ok (h.debounce.trans_lt (max_lt hpos htimeout)) hwanted
  obtain ⟨b, t', hwait', hkeeps⟩ := h.ready.waitUntil wanted timeout
  obtain rfl : t = t' := congrArg Prod.snd (hwait.symm.trans hwait')
  have hnoted := noted_waitUntil h.ready wanted timeout
  have hfollows (d) (hd : Follows d s.delayed) := hd.waitUntil h.ready wanted timeout
  rw [hwait] at hnoted hfollows
  obtain ⟨s', hs', rfl⟩ := (delays_waitUntil wanted timeout).eq hwait
  exact ⟨s', hs', h.follows hs hkeeps hfollows, hw, hnoted⟩

omit [Glyphs] in
theorem minted_nonneg (h : Goes source debounce s) : 0 ≤ s.desk.minted := by
  obtain ⟨d, -, hsound, alarms, posted, rfl, -⟩ := h.synced
  exact hsound.active_nonneg.trans hsound.active_le

omit [Glyphs] in
/-- An idle session in which something has been run shows what its filter gives. -/
theorem outcome (h : Goes source debounce s) (hidle : s.desk.idle = true)
    (hpos : 0 < s.desk.minted) :
    s.desk.client.outcome = source.answer s.desk.client.filter := by
  obtain ⟨d, ⟨text, ht, hfilter⟩, -, alarms, posted, rfl, -⟩ := h.synced
  obtain ⟨hnewest, hrunning⟩ : s.desk.minted = s.desk.active ∧ s.desk.running = false := by
    simp only [idle, Bool.and_eq_true, beq_iff_eq, Bool.not_eq_true'] at hidle
    exact hidle.1
  have hactive : 0 < s.desk.active := hnewest ▸ hpos
  have htext : s.desk.client.filter = text := hfilter hnewest
  rw [htext]
  exact ht.shown hactive hrunning

end Goes

/-! ### Filters that are typed -/

/-- The session is idle at a filter that has been run, with the given recent filters. -/
structure Answered (source : Source) (debounce : ℚ) (text : Text) (recent : Recent)
    (s : Looped ℚ) : Prop extends Goes source debounce s where
  idle : s.desk.idle = true
  minted_pos : 0 < s.desk.minted
  filter : s.desk.client.filter = text
  recent : s.desk.client.recent = recent

theorem noted_perform {α : Type} (c : Command ℚ α) (s : Looped ℚ) :
    noted (perform c s).2.desk = noted (c { s.desk with now := s.loop.now }).2 :=
  (noted_handOver { s with desk := (c { s.desk with now := s.loop.now }).2 }).1

variable {source : Source} {debounce timeout : ℚ} {text : Text} {recent : Recent}

/-- **A filter that is typed is answered** once it has been waited for longer than the debounce. -/
theorem Goes.typed (h : Goes source debounce s) (hs : source.NeverCancels) (hpos : 0 < timeout)
    (htimeout : debounce < timeout) (text : Text) :
    ∃ s₁ s₂, perform (Desk.setFilter text) s = (.ok (), s₁) ∧
      settleWithin timeout s₁ = (.ok true, s₂) ∧
      Answered source debounce text s.desk.client.recent s₂ := by
  have hset := Desk.setFilter_eq (d := { s.desk with now := s.loop.now }) h.ready.shut text
  have hgoes : Goes source debounce (perform (Desk.setFilter text) s).2 :=
    h.input hs (i := .setFilter text) fun _ => rfl
  have hnoted : noted (perform (Desk.setFilter text) s).2.desk =
      (text, s.desk.client.recent, s.desk.minted + 1) := by
    rw [noted_perform, hset]
    exact noted_fetched _
  obtain ⟨s₂, hwait, hgoes₂, hidle, hkept⟩ := hgoes.waitUntil hs hpos htimeout
    Dispatcher.idle fun _ hd => hd
  obtain ⟨hfilter, hrest⟩ := Prod.mk.inj (hkept.trans hnoted)
  obtain ⟨hrecent, hminted⟩ := Prod.mk.inj hrest
  have hok : (perform (Desk.setFilter text) s).1 = .ok () := congrArg Prod.fst hset
  refine ⟨_, s₂, Prod.ext hok rfl, hwait, hgoes₂, hidle, ?_, hfilter, hrecent⟩
  rw [hminted]
  exact Int.lt_add_one_of_le h.minted_nonneg

/-- A filter that is run at once is waited for with success. -/
theorem Goes.run (h : Goes source debounce s) (hs : source.NeverCancels) (hpos : 0 < timeout)
    (htimeout : debounce < timeout) (text : Text) :
    ∃ o s', runWithin text timeout s = (.ok o, s') ∧ Goes source debounce s' ∧
      s'.desk.client.recent = s.desk.client.recent := by
  have hgoes : Goes source debounce ((Doing.input (.runNow text)).next s) :=
    h.input hs (i := .runNow text) fun _ => rfl
  have hnoted : (noted ((Doing.input (.runNow text)).next s).desk).2.1 =
      s.desk.client.recent := by
    have hrun := Desk.runNow_eq (d := { s.desk with now := s.loop.now }) h.ready.shut text
    refine (congrArg (fun n => n.2.1)
      (noted_perform (Dispatcher.act (Input.runNow text).next) s)).trans ?_
    show (Desk.runNow text { s.desk with now := s.loop.now }).2.client.recent = _
    rw [hrun]
    rfl
  obtain ⟨s', hwait, hgoes', -, hkept⟩ := hgoes.waitUntil hs hpos htimeout
    (fun d => !d.running) fun d hd => by
      simp only [Dispatcher.idle, Bool.and_eq_true] at hd
      exact hd.1.2
  exact ⟨_, s', runWithin_of_wait (s := s) h.ready.shut hwait, hgoes',
    (congrArg (fun n => n.2.1) hkept).trans hnoted⟩

namespace Answered

omit [Glyphs] in
theorem outcome (h : Answered source debounce text recent s) :
    s.desk.client.outcome = source.answer text := by
  rw [h.toGoes.outcome h.idle h.minted_pos, h.filter]

/-- What only looks at a session leaves the filter answered; it may change the recent filters. -/
theorem look (h : Answered source debounce text recent s) (hs : source.NeverCancels) {α : Type}
    {c : Command ℚ α} {i : Input} (hi : i.looks = true) (hc : ∀ d, (c d).2 = i.next d) :
    Answered source debounce text (i.next { s.desk with now := s.loop.now }).client.recent
      (perform c s).2 := by
  obtain ⟨client, he, hsame⟩ := looks_next (d := { s.desk with now := s.loop.now }) hi
  have hkept : client.filter = text := hsame.filter.trans h.filter
  have hnoted : noted (perform c s).2.desk = (text, client.recent, s.desk.minted) := by
    rw [noted_perform, hc, he]
    simp only [noted, hkept]
  have hidle : (perform c s).2.desk.idle = true := by
    refine (noted_handOver { s with desk := (c { s.desk with now := s.loop.now }).2 }).2.trans ?_
    rw [hc, he]
    exact h.idle
  obtain ⟨hfilter, hrest⟩ := Prod.mk.inj hnoted
  obtain ⟨hrecent, hminted⟩ := Prod.mk.inj hrest
  refine ⟨h.toGoes.input hs hc, hidle, ?_, hfilter, ?_⟩
  · rw [hminted]
    exact h.minted_pos
  · rw [he]
    exact hrecent

end Answered

end Looped

end LiveQuery
