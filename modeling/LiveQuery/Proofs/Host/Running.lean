/-
LiveQuery/Proofs/Host/Running.lean

A filter that is run on a loop and waited for gives its own outcome.

While the loop waits it answers whatever is on it: alarms that have been superseded, results of
older runs, keys.  Jobs of the background may end in between, in any order, and time goes by.

Design.  The wait is cut into turns: the loop looks for a callback, or something happens aside
(`waitAmid`); a wait of the loop alone is such turns without anything aside (`runBefore_eq_turns`).
Each turn is something that the host does (`Serving`).  The run of the filter is the one of the
newest number, and nothing that the host does dispatches another one (`Desk.Asks.hostNext`).  So the
flag that is waited for is taken back by the result of this run alone.

Main result: `run_answers`.
-/
import LiveQuery.Display.Wide
import LiveQuery.Proofs.Host.Hosted
import LiveQuery.Proofs.Session.Settled

namespace LiveQuery

namespace Desk

open Dispatcher

variable {τ : Type} [Time τ] [Glyphs] {source : Source} {text : Text} {d : Desk τ}

/-- The newest number has been dispatched, with a run of the text. -/
structure Asks (source : Source) (text : Text) (d : Desk τ) : Prop where
  tracks : Tracks source text d
  newest : d.minted = d.active
  pos : 0 < d.active

/-- A filter that is run at once is asked for. -/
theorem InSync.asks_runNow (h : InSync source d) (text : Text) :
    Asks source text ((Input.runNow text).next d) := by
  obtain ⟨_, ht, -⟩ := h
  have hnonneg : 0 ≤ d.minted := ht.sound.active_nonneg.trans ht.sound.active_le
  rw [Input.next, runNow_eq ht.shut]
  exact ⟨(ht.edit (ht.goesOn.setText text)).ran, rfl, Int.lt_add_one_of_le hnonneg⟩

/-- No alarm is set for a number that has been dispatched, so that nothing the host does runs
another filter. -/
theorem Asks.hostNext (hs : source.NeverCancels) (h : Asks source text d) (m : HostMove τ) :
    Asks source text (m.next d) := by
  obtain ⟨ht, hnewest, hpos⟩ := h
  have hkept {d' : Desk τ} (ht' : Tracks source text d') (hminted : d'.minted = d.minted)
      (hactive : d'.active = d.active) : Asks source text d' :=
    ⟨ht', by rw [hminted, hactive, hnewest], by rwa [hactive]⟩
  rw [HostMove.next, Move.act_eq ht.shut]
  cases m with
  | fire i =>
    have hsound := ht.sound.fired (h := Session.hooks) i
    show Asks source text (d.fired Session.hooks i)
    rcases fired_cases Session.hooks i d with ⟨-, he⟩ | ⟨hi, -⟩ | ⟨seq, -, -, he⟩
    · rw [he]
      exact ⟨ht, hnewest, hpos⟩
    · -- an alarm that stands has a number above the one that was dispatched last
      exact absurd hnewest (ht.sound.active_lt (List.mem_of_getElem? hi)).ne'
    · rw [he] at hsound ⊢
      exact hkept { ht with sound := hsound } rfl rfl
  | complete i =>
    have hsame := sameNumbers_complete Session.hooks d i
    exact hkept (ht.complete i) hsame.minted hsame.active
  | deliver i =>
    have hsame := sameNumbers_delivered (h := Session.hooks) ht.sound.no_debounce i
    exact hkept (ht.delivered hs i) hsame.minted hsame.active
  | tick now => exact hkept { ht with sound := { ht.sound with } } rfl rfl

theorem Asks.afterHost (hs : source.NeverCancels) (h : Asks source text d)
    (ms : List (HostMove τ)) : Asks source text (afterHost ms d) := by
  induction ms generalizing d with
  | nil => exact h
  | cons m rest ih => exact ih (h.hostNext hs m)

end Desk

namespace Looped

open Dispatcher

section

variable [Glyphs]

/-! ### Waiting while other things happen -/

/-- What may happen beside a loop. -/
inductive Aside
  /-- A job of the background ends. -/
  | ends (i : Nat)
  /-- Time goes by. -/
  | passes (span : ℚ≥0)

/-- The state after something has happened aside. -/
def Aside.next : Aside → Looped ℚ → Looped ℚ
  | ends i, s => (Looped.complete i s).2
  | passes span, s => { s with loop := s.loop.advance (span : ℚ) }

/-- A turn of a wait: the loop looks for a callback and runs it, or something happens aside. -/
inductive Turn
  | look (timeout : ℚ≥0)
  | aside (a : Aside)

/-- Takes turns until the session is as wanted or there are no more, and tells whether it is as
wanted. -/
def waitAmid (wanted : Desk ℚ → Bool) : List Turn → Op ℚ Bool
  | [] => return wanted (← get).desk
  | .look timeout :: rest => do
    if wanted (← get).desk then return true
    let _ ← driven.runOnce (timeout : ℚ)
    waitAmid wanted rest
  | .aside a :: rest => do
    modify a.next
    waitAmid wanted rest

/-- Runs a filter at once and waits for its result while turns are left; the timeout is over with
them. -/
def runAmid (text : Text) (timeout : ℚ) (turns : List Turn) : Op ℚ Outcome := do
  perform (Desk.runNow text)
  if ← waitAmid (fun d => !d.running) turns then return (← get).desk.client.outcome
  else throw (.timeout (Time.secondsText timeout))

variable {s s' s'' : Looped ℚ} {wanted : Desk ℚ → Bool}

/-- The loop and the background of the session are open. -/
structure Live (s : Looped ℚ) : Prop where
  sound : s.loop.Sound
  shut : s.desk.shut = false

/-- The session is still open, and only its host has done something. -/
structure Serving (s s' : Looped ℚ) : Prop extends Live s' where
  serves : ∀ d, Stands d s → Serves d s'

theorem Serving.refl (hs : Live s) : Serving s s := { hs with serves := fun _ h => h.serves }

theorem Serving.trans (h : Serving s s') (h' : Serving s' s'') : Serving s s'' :=
  { h' with serves := fun d hd => (h.serves d hd).trans fun d' hd' => h'.serves d' hd' }

/-- What is handed over to the loop is left to the host. -/
theorem Live.handOver (hs : Live s) : Serving s (handOver s) where
  sound := (gains_handed hs.sound s.debounce _ _).sound
  shut := by
    show (if s.immediate then completeAll s.desk else s.desk).shut = false
    split
    · exact completeAll_induction (P := fun d => d.shut = false) hs.shut
        fun d i hd => (complete_shut i).trans hd
    · exact hs.shut
  serves := fun _ h => h.handOver hs.sound

/-! ### Turns -/

theorem Live.look (hs : Live s) (timeout : ℚ≥0) :
    ∃ answered s', driven.runOnce (timeout : ℚ) s = (.ok answered, s') ∧ Serving s s' := by
  have hhands := EventLoop.hands_next? hs.sound timeout.cast_nonneg
  have hserves (d) (hd : Stands d s) := hd.runOnce hs.sound hs.shut timeout.cast_nonneg
  rcases hnext : s.loop.next? (timeout : ℚ) with ⟨- | c, l⟩
  · rw [hnext] at hhands
    rw [runOnce_of_none hnext] at hserves
    exact ⟨false, _, runOnce_of_none hnext, ⟨hhands.sound, hs.shut⟩, hserves⟩
  · rw [hnext] at hhands
    rw [runOnce_of_some hnext hs.shut] at hserves
    have hlive : Live { s with
        loop := l
        desk := { s.desk with now := l.now }.reacted Session.hooks c } :=
      ⟨hhands.sound, (reacted_shut c).trans hs.shut⟩
    exact ⟨true, _, runOnce_of_some hnext hs.shut, hlive.handOver.toLive, hserves⟩

theorem Live.aside (hs : Live s) (a : Aside) : Serving s (a.next s) := by
  cases a with
  | ends i =>
    have hlive : Live { s with
        desk := { s.desk with now := s.loop.now }.complete Session.hooks i } :=
      ⟨hs.sound, (complete_shut i).trans hs.shut⟩
    refine { hlive.handOver with serves := fun d hd => ?_ }
    have hended : Serves d { s with
        desk := { s.desk with now := s.loop.now }.complete Session.hooks i } :=
      ⟨[.tick s.loop.now, .complete i], (hd.tick s.loop.now).complete i⟩
    exact hended.trans fun d' hd' => hd'.handOver hs.sound
  | passes span =>
    have hpasses := EventLoop.passes_advance hs.sound span.cast_nonneg
    exact ⟨⟨hpasses.sound, hs.shut⟩, fun d hd => (hd.passes hpasses).serves⟩

theorem waitAmid_of_wanted (h : wanted s.desk = true) (timeout : ℚ≥0) (rest : List Turn) :
    waitAmid wanted (.look timeout :: rest) s = (.ok true, s) := by
  rw [waitAmid, get_bind, if_pos h]
  rfl

theorem waitAmid_of_look (h : wanted s.desk = false) {timeout : ℚ≥0} {answered : Bool}
    (hlook : driven.runOnce (timeout : ℚ) s = (.ok answered, s')) (rest : List Turn) :
    waitAmid wanted (.look timeout :: rest) s = waitAmid wanted rest s' := by
  rw [waitAmid, get_bind, if_neg (by simp [h])]
  exact bind_ok hlook

/-- **Waiting raises nothing**, and whatever happens meanwhile is something the host does. -/
theorem Live.waitAmid (hs : Live s) (wanted : Desk ℚ → Bool) (turns : List Turn) :
    ∃ b s', waitAmid wanted turns s = (.ok b, s') ∧ (b = true → wanted s'.desk = true) ∧
      Serving s s' := by
  induction turns generalizing s with
  | nil => exact ⟨_, s, rfl, id, .refl hs⟩
  | cons turn rest ih =>
    cases turn with
    | look timeout =>
      rcases hwanted : wanted s.desk with - | -
      · obtain ⟨answered, s₁, hlook, hfirst⟩ := hs.look timeout
        obtain ⟨b, s', hrest, hb, hserving⟩ := ih hfirst.toLive
        exact ⟨b, s', (waitAmid_of_look hwanted hlook rest).trans hrest, hb,
          hfirst.trans hserving⟩
      · exact ⟨true, s, waitAmid_of_wanted hwanted timeout rest, fun _ => hwanted, .refl hs⟩
    | aside a =>
      have hfirst := hs.aside a
      obtain ⟨b, s', hrest, hb, hserving⟩ := ih hfirst.toLive
      exact ⟨b, s', hrest, hb, hfirst.trans hserving⟩

/-- A wait of the loop alone takes turns in which nothing happens aside. -/
theorem Live.runBefore_eq_turns (hs : Live s) (wanted : Desk ℚ → Bool) (deadline : ℚ)
    (bound : Nat) :
    ∃ turns, driven.runBefore (fun s => wanted s.desk) deadline bound s =
      Looped.waitAmid wanted turns s := by
  induction bound generalizing s with
  | zero => exact ⟨[], rfl⟩
  | succ bound ih =>
    have hover {b : Bool} (h : wanted s.desk = b) : Looped.waitAmid wanted [] s = (.ok b, s) :=
      congrArg (fun b => (Except.ok b, s)) h
    rcases hwanted : wanted s.desk with - | -
    · rcases le_or_gt deadline s.loop.now with hlate | hnow
      · exact ⟨[], (runBefore_of_late hwanted hlate _).trans (hover hwanted).symm⟩
      · obtain ⟨answered, s', hlook, hserving⟩ := hs.look ⟨wait deadline s, (wait_pos hnow).le⟩
        obtain ⟨turns, hrest⟩ := ih hserving.toLive
        refine ⟨.look ⟨wait deadline s, (wait_pos hnow).le⟩ :: turns, ?_⟩
        rw [waitAmid_of_look hwanted hlook, ← hrest]
        exact runBefore_of_step hwanted hnow hlook bound
    · exact ⟨[], (runBefore_of_wanted hwanted _).trans (hover hwanted).symm⟩

theorem Live.waitUntil_eq_turns (hs : Live s) (wanted : Desk ℚ → Bool) (timeout : ℚ) :
    ∃ turns, waitUntil wanted timeout s = Looped.waitAmid wanted turns s := by
  rw [waitUntil_eq]
  exact hs.runBefore_eq_turns wanted _ _

/-! ### Runs -/

theorem runAmid_of_wait (hshut : s.desk.shut = false) {text : Text} {timeout : ℚ}
    {turns : List Turn} {b : Bool}
    (hwait : Looped.waitAmid (fun d => !d.running) turns
      ((Doing.input (.runNow text)).next s) = (.ok b, s')) :
    runAmid text timeout turns s =
      (if b then .ok s'.desk.client.outcome else .error (.timeout (Time.secondsText timeout)),
        s') := by
  rw [runAmid, bind_ok (perform_runNow hshut text), bind_ok hwait]
  cases b <;> rfl

/-- The session is still open, and happenings lead to what it has become. -/
structure Carries (s s' : Looped ℚ) : Prop extends Live s' where
  follows : ∀ d, Stands d s → Follows d s'

theorem Serving.carries (h : Serving s s') : Carries s s' :=
  { h with follows := fun d hd => (h.serves d hd).follows }

theorem Carries.trans (h : Carries s s') (h' : Carries s' s'') : Carries s s'' :=
  { h' with follows := fun d hd => (h.follows d hd).trans fun d' hd' => h'.follows d' hd' }

/-- An input is given to a desk that stands for the session, and the rest is left to the host. -/
theorem Live.input (hs : Live s) (i : Desk.Input) :
    Live ((Doing.input i).next s) ∧ ∀ d, Stands d s →
      Serves (i.next { d with now := s.loop.now }) ((Doing.input i).next s) := by
  have hleads : Desk.Leads s.desk (i.next { s.desk with now := s.loop.now }) :=
    ((Desk.Leads.refl s.desk).move (.tick s.loop.now)).input hs.shut i
  have hlive : Live { s with desk := i.next { s.desk with now := s.loop.now } } :=
    ⟨hs.sound, hleads.shut hs.shut⟩
  exact ⟨hlive.handOver.toLive, fun d hd =>
    hlive.handOver.serves _ ((hd.tick s.loop.now).input hs.shut i)⟩

theorem Live.carries_input (hs : Live s) (i : Desk.Input) :
    Carries s ((Doing.input i).next s) := by
  obtain ⟨hlive, hserves⟩ := hs.input i
  refine { hlive with follows := fun d hd => ?_ }
  obtain ⟨ms, hms⟩ := hserves d hd
  refine ⟨[.host (.tick s.loop.now), .input i] ++ ms.map .host, ?_⟩
  rw [Desk.after_append, Desk.after_host]
  exact hms

theorem Live.runAmid (hs : Live s) (text : Text) (timeout : ℚ) (turns : List Turn) :
    Carries s (runAmid text timeout turns s).2 := by
  have hinput := hs.carries_input (.runNow text)
  obtain ⟨b, s', hwait, -, hserving⟩ := hinput.toLive.waitAmid (fun d => !d.running) turns
  rw [runAmid_of_wait hs.shut hwait]
  exact hinput.trans hserving.carries

/-- A run on the loop alone is one while which nothing happens aside. -/
theorem Live.runWithin_eq_turns (hs : Live s) (text : Text) (timeout : ℚ) :
    ∃ turns, runWithin text timeout s = Looped.runAmid text timeout turns s := by
  have hinput := (hs.carries_input (.runNow text)).toLive
  obtain ⟨turns, hturns⟩ := hinput.waitUntil_eq_turns (fun d => !d.running) timeout
  obtain ⟨b, s', hwait, -⟩ := hinput.waitAmid (fun d => !d.running) turns
  refine ⟨turns, ?_⟩
  rw [runWithin_of_wait hs.shut (hturns.trans hwait), runAmid_of_wait hs.shut hwait]

/-- What is done with a session on a loop, and what happens aside. -/
inductive Deed
  /-- Something is done, and nothing happens aside meanwhile. -/
  | does (d : Doing)
  | aside (a : Aside)
  /-- The session is waited for while turns are taken. -/
  | waitAmid (wanted : Desk ℚ → Bool) (turns : List Turn)
  /-- A filter is run while turns are taken. -/
  | runAmid (text : Text) (timeout : ℚ) (turns : List Turn)

/-- The state after a deed, whatever it answers or raises. -/
def Deed.next : Deed → Looped ℚ → Looped ℚ
  | does d, s => d.next s
  | aside a, s => a.next s
  | waitAmid wanted turns, s => (Looped.waitAmid wanted turns s).2
  | runAmid text timeout turns, s => (Looped.runAmid text timeout turns s).2

/-- The state after some deeds. -/
def afterDeeds (ds : List Deed) (s : Looped ℚ) : Looped ℚ := ds.foldl (fun s d => d.next s) s

theorem Live.carries_waitAmid (hs : Live s) (wanted : Desk ℚ → Bool) (turns : List Turn) :
    Carries s (Looped.waitAmid wanted turns s).2 := by
  obtain ⟨b, s', hwait, -, hserving⟩ := hs.waitAmid wanted turns
  rw [hwait]
  exact hserving.carries

/-- **Every deed leaves the session open**, and is happenings of a desk that stands for it. -/
theorem Live.next (hs : Live s) (d : Deed) : Carries s (d.next s) := by
  cases d with
  | aside a => exact (hs.aside a).carries
  | waitAmid wanted turns => exact hs.carries_waitAmid wanted turns
  | runAmid text timeout turns => exact hs.runAmid text timeout turns
  | does d =>
    cases d with
    | input i => exact hs.carries_input i
    | advance span => exact (hs.aside (.passes span)).carries
    | pump timeout =>
      obtain ⟨answered, s', hlook, hserving⟩ := hs.look timeout
      have he : (Deed.does (.pump timeout)).next s = s' := congrArg Prod.snd hlook
      rw [he]
      exact hserving.carries
    | wait wanted timeout =>
      obtain ⟨turns, hturns⟩ := hs.waitUntil_eq_turns wanted timeout
      show Carries s (waitUntil wanted timeout s).2
      rw [hturns]
      exact hs.carries_waitAmid wanted turns
    | run text timeout =>
      obtain ⟨turns, hturns⟩ := hs.runWithin_eq_turns text timeout
      show Carries s (runWithin text timeout s).2
      rw [hturns]
      exact hs.runAmid text timeout turns

theorem Live.afterDeeds (hs : Live s) (ds : List Deed) : Carries s (afterDeeds ds s) := by
  induction ds generalizing s with
  | nil => exact (Serving.refl hs).carries
  | cons d rest ih =>
    have hfirst := hs.next d
    exact hfirst.trans (ih hfirst.toLive)

/-- How a run ends that is waited for: the time is over, or the outcome is answered and shown. -/
inductive RunEnds (answer : Outcome) (timeout : ℚ) : Except Fault Outcome × Looped ℚ → Prop
  | late (s : Looped ℚ) : RunEnds answer timeout (.error (.timeout (Time.secondsText timeout)), s)
  | answered (s : Looped ℚ) (hs : s.desk.client.outcome = answer) :
    RunEnds answer timeout (.ok answer, s)

/-- Where a desk in sync stands for the session, a filter that is run gives its own outcome. -/
theorem Live.runAmid_ends {source : Source} (hs : Live s) (hnever : source.NeverCancels)
    {d : Desk ℚ} (hd : Desk.InSync source d) (hstands : Stands d s) (text : Text) (timeout : ℚ)
    (turns : List Turn) :
    RunEnds (source.answer text) timeout (Looped.runAmid text timeout turns s) := by
  obtain ⟨hlive, hserves⟩ := hs.input (.runNow text)
  obtain ⟨b, s', hwait, hb, hserving⟩ := hlive.waitAmid (fun d => !d.running) turns
  rw [runAmid_of_wait hs.shut hwait]
  cases b with
  | false => exact .late s'
  | true =>
    -- the host leads from the desk that has been asked to the one that stands in the end
    have hnow : Desk.InSync source { d with now := s.loop.now } :=
      hd.hostNext hnever (.tick s.loop.now)
    obtain ⟨ms, hms⟩ := (hserves d hstands).trans hserving.serves
    have hasks := (hnow.asks_runNow text).afterHost hnever ms
    obtain ⟨-, alarms, posted, he, -⟩ := hms
    rw [he] at hasks
    have hrunning : s'.desk.running = false := by simpa using hb rfl
    have hshown : s'.desk.client.outcome = source.answer text :=
      hasks.tracks.shown hasks.pos hrunning
    rw [hshown]
    exact .answered s' hshown

/-- **A filter that is run gives its own outcome.**  Whatever has been done with a session on a loop
and has happened aside, whether its background ends jobs at once or holds them back, and whatever
happens while a filter is run and waited for: either the time is over, or the outcome of this filter
is answered and shown, as a run on empty tables gives it. -/
theorem run_answers (source : Source) (name : Text) (capacity : Int) (recording immediate : Bool)
    (debounce : ℚ) (hs : source.NeverCancels) (ds : List Deed) (text : Text) (timeout : ℚ) :
    let s := afterDeeds ds (fresh (Desk.ofSession (Session.ofSource source name capacity) recording)
      immediate debounce)
    let answer := Outcome.ofRun (source.execute text .none {}).1.1
    RunEnds answer timeout (runWithin text timeout s) ∧
      ∀ turns, RunEnds answer timeout (Looped.runAmid text timeout turns s) := by
  intro s answer
  have hfresh : Live (fresh (Desk.ofSession (Session.ofSource source name capacity) recording)
      immediate debounce) := ⟨⟨rfl, Timers.numbered_atZero⟩, rfl⟩
  have hcarries := hfresh.afterDeeds ds
  obtain ⟨es, hstands⟩ := hcarries.follows _
    (stands_fresh source name capacity recording immediate debounce)
  have hsynced := (Desk.inSync_ofSession source name capacity recording).after hs es
  have hends (turns : List Turn) :
      RunEnds answer timeout (Looped.runAmid text timeout turns s) := by
    have hanswer : answer = source.answer text := (source.answer_eq_execute text).symm
    rw [hanswer]
    exact hcarries.toLive.runAmid_ends hs hsynced hstands text timeout turns
  obtain ⟨turns, hturns⟩ := hcarries.toLive.runWithin_eq_turns text timeout
  exact ⟨hturns ▸ hends turns, hends⟩

end

/-- The run of `.b` has been given up, and the alarm of `.a` is set.  Where the background ends jobs
at once, `.c` is run and answered.  Where it holds them back, that alarm goes off while `.c` is run,
and the older jobs end before and after its own. -/
theorem run_answers_overtaking :
    let evaluator : Evaluator := ⟨fun text => .ok (.onValue fun _ => [.value (.string text)])⟩
    let source : Source := ⟨evaluator, .int 7, 0⟩
    let s (immediate : Bool) := afterDeeds
      [.does (.input .start), .does (.input (.setFilter ".a".toList)), .runAmid ".b".toList 1 []]
      (fresh (Desk.ofSession (Session.ofSource source [] 16) true) immediate (3 / 100))
    let answer := Outcome.ofRun (source.execute ".c".toList .none {}).1.1
    let once := runWithin ".c".toList 1 (s true)
    let turns : List Turn :=
      [.aside (.ends 2), .aside (.passes 1), .look 1, .look 1, .aside (.ends 3), .aside (.ends 0),
        .look 1, .look 1]
    let amid := runAmid ".c".toList 1 turns (s false)
    source.NeverCancels ∧ (once.1 = .ok answer ∧ once.2.desk.client.outcome = answer) ∧
      (s false).desk.running = true ∧ (s false).loop.timers.pending.length = 1 ∧
      amid.1 = .ok answer ∧ amid.2.desk.client.outcome = answer := by
  intro evaluator source s answer once turns amid
  have hs : source.NeverCancels := by
    rintro text program h e he
    cases h
    rw [List.mem_singleton.mp he]
    rfl
  have hends (immediate : Bool) := run_answers source [] 16 true immediate (3 / 100) hs
    [.does (.input .start), .does (.input (.setFilter ".a".toList)), .runAmid ".b".toList 1 []]
    ".c".toList 1
  -- in time, a run that has ended has been answered
  have hanswered {r : Except Fault Outcome × Looped ℚ} (hend : RunEnds answer 1 r)
      (hok : r.1.isOk = true) : r.1 = .ok answer ∧ r.2.desk.client.outcome = answer := by
    cases hend with
    | late s' => cases hok
    | answered s' hshown => exact ⟨rfl, hshown⟩
  exact ⟨hs, hanswered (hends true).1 (by decide +kernel), by decide +kernel, by decide +kernel,
    hanswered ((hends false).2 turns) (by decide +kernel)⟩

end Looped

end LiveQuery
