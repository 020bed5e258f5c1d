/-
LiveQuery/Proofs/Desktop/Runs.lean

What becomes of the window in a run.

A redraw that goes off is followed by the next one, and every document that is opened begins redraws
of its own, while those of the documents before go on: so there are as many chains of redraws as
documents have been opened.  Only the redraw that was started last is taken off the clock when the
window is closed.

A load that fails leaves an alarm, and then lets go of the reason.  An alarm that goes off before
warns the user; one that still waits then misses the reason it is to tell.

Design.  `Window.Sound` is what holds of the window in every run, and `Ran` says what a run does:
the documents it opens, what it tells, and the accounts of redraws and of failed loads, which
balance over each alarm that goes off and each action.

Main results: the accounts balance over a run (`ran_after`); the number of redraws that are still to
come (`redraws_of_run`).
-/
import LiveQuery.Display.Wide
import LiveQuery.Proofs.Desktop.Accounts

namespace LiveQuery

namespace Desktop

variable {τ : Type}

/-- A failure that has no place among the reasons. -/
abbrev Alarm.isUnknown (reasons : List (Option LoadError)) : Alarm → Bool :=
  isFailure fun n => reasons.length ≤ n

/-- What holds of the window in every run: the timers have different numbers, the redraw started
last is to come until the window is closed, the failures that wait are known, and a reason is held
until the loading lets go of it. -/
structure Window.Sound (w : Window τ) : Prop where
  numbered : w.clock.Numbered
  armed : w.destroyed = false → w.Armed
  known : w.waiting (Alarm.isUnknown w.reasons) = 0
  held : w.Held

/-- What a run does: it opens documents, each of which begins redraws, and tells the user some
things.  Of the loads that fail some miss their reason when it is let go of.  These wait for their
alarm or have broken it down; the others wait for it or have been warned of. -/
structure Ran (failures missed opens : Nat) (told : List Notice) (w w' : Window τ) : Prop
    extends Tells opens told w w' where
  sound : w.Sound → w'.Sound
  redraws : w'.redraws = w.redraws + opens
  warnings : told.countP Notice.isWarning + missed + w'.waiting (Alarm.isHeld w'.reasons) =
    w.waiting (Alarm.isHeld w.reasons) + failures
  losses : told.count lostNotice + w'.waiting (Alarm.isLost w'.reasons) =
    w.waiting (Alarm.isLost w.reasons) + missed

variable {w w' w'' : Window τ} {failures failures' missed missed' opens opens' : Nat}
  {told told' : List Notice}

theorem Ran.refl (w : Window τ) : Ran 0 0 0 [] w w :=
  { Tells.refl w with
    sound := id, redraws := rfl, warnings := Nat.zero_add _, losses := Nat.zero_add _ }

theorem Ran.trans (h : Ran failures missed opens told w w')
    (h' : Ran failures' missed' opens' told' w' w'') :
    Ran (failures + failures') (missed + missed') (opens + opens') (told ++ told') w w'' :=
  { h.toTells.trans h'.toTells with
    sound := fun hw => h'.sound (h.sound hw)
    redraws := by rw [h'.redraws, h.redraws, Nat.add_assoc]
    warnings := by
      have hfirst := h.warnings
      have hrest := h'.warnings
      rw [List.countP_append]
      omega
    losses := by
      have hfirst := h.losses
      have hrest := h'.losses
      rw [List.count_append]
      omega }

/-- No failure waits but those that have waited before. -/
theorem Does.waiting_failure {starts : List Alarm} (h : Does starts opens told w w')
    (hstarts : ∀ p, starts.countP (Alarm.isFailure p) = 0) (p : Nat → Bool) :
    w'.waiting (Alarm.isFailure p) = w.waiting (Alarm.isFailure p) := by
  rw [h.waiting _ fun _ _ => rfl, hstarts, Nat.add_zero]

/-- Where no redraw and no failure is started and nothing is amiss, the accounts stay as they
are. -/
theorem Does.ran {starts : List Alarm} (h : Does starts 0 told w w') (harmed : w.Armed → w'.Armed)
    (hredraws : starts.countP Alarm.isRedraw = 0)
    (hstarts : ∀ p, starts.countP (Alarm.isFailure p) = 0) (hmild : Mild told) :
    Ran 0 0 0 told w w' where
  toTells := h.toTells
  sound hw :=
    { numbered := h.numbered hw.numbered
      armed := fun hd => harmed (hw.armed (h.destroyed ▸ hd))
      known := by rw [h.reasons, h.waiting_failure hstarts, hw.known]
      held := h.held hw.held }
  redraws := by
    rw [redraws_eq_waiting, redraws_eq_waiting, h.waiting _ fun _ _ => rfl, hredraws]
  warnings := by
    rw [hmild.countP_warning, h.reasons, h.waiting_failure hstarts]
    exact Nat.zero_add _
  losses := by
    rw [hmild.count_lost, h.reasons, h.waiting_failure hstarts]
    exact Nat.zero_add _

/-- What starts nothing keeps the accounts. -/
theorem Does.ran_of_mild (h : Does [] 0 told w w') (harmed : w.Armed → w'.Armed)
    (hmild : Mild told) : Ran 0 0 0 told w w' :=
  h.ran harmed rfl (fun _ => rfl) hmild

/-! ### Alarms that go off -/

section

variable [Time τ] [Glyphs]

omit [Glyphs] in
/-- An alarm that goes off is taken off the clock, and no other. -/
theorem waiting_pop {limit : τ} {a : Alarm} {clock : Timers τ Alarm} (hw : w.clock.Numbered)
    (hpop : w.clock.pop? limit = some (a, clock)) :
    clock.Numbered ∧
      (∀ f : Alarm → Bool,
        w.waiting f = ({ w with clock } : Window τ).waiting f + if f a then 1 else 0) ∧
      (a.isRedraw = false → w.Armed → ({ w with clock } : Window τ).Armed) := by
  obtain ⟨p, -, rfl, hperm, -, hnumbered⟩ := hw.pop? hpop
  refine ⟨hnumbered, fun f => ?_, fun hother harmed hdesks => ?_⟩
  · rw [Window.waiting, hperm.countP_eq, List.countP_cons]
    rfl
  · obtain ⟨t, ht, hlast, hredraw⟩ := harmed hdesks
    rcases List.mem_cons.mp (hperm.subset ht) with rfl | ht
    · rw [hother] at hredraw
      cases hredraw
    · exact ⟨t, ht, hlast, hredraw⟩

/-- **The accounts balance over an alarm that goes off.** -/
theorem ran_alarm {limit : τ} {a : Alarm} {clock : Timers τ Alarm} (hw : w.Sound)
    (hopen : w.destroyed = false) (hpop : w.clock.pop? limit = some (a, clock)) :
    ∃ opens told, Ran 0 0 opens told w (Window.guarded a.answer { w with clock }).2 := by
  obtain ⟨hnumbered, hbefore, harmed⟩ := waiting_pop hw.numbered hpop
  obtain ⟨told, hdoes, hwarnings, hlosses, hredraw⟩ := answer_does a { w with clock }
  have hreasons : (Window.guarded a.answer { w with clock }).2.reasons = w.reasons := hdoes.reasons
  have hrestarts : a.restarts.countP Alarm.isRedraw =
      (if a.isRedraw then 1 else 0) + a.opening := by
    cases a <;> rfl
  have hfailures (p : Nat → Bool) : w.waiting (Alarm.isFailure p) =
      (Window.guarded a.answer { w with clock }).2.waiting (Alarm.isFailure p) +
        if a.isFailure p then 1 else 0 := by
    rw [hdoes.waiting_failure (fun p => by cases a <;> rfl)]
    exact hbefore _
  have hheld := hfailures fun n => w.reasons[n]?.join.isSome
  have hlost := hfailures fun n => w.reasons[n]?.join.isNone
  refine ⟨a.opening, told, { hdoes with
    numbered := fun _ => hdoes.numbered hnumbered
    sound := fun _ =>
      { numbered := hdoes.numbered hnumbered
        armed := fun _ => hredraw fun hnone => harmed ?_ (hw.armed hopen)
        known := ?_
        held := hdoes.held hw.held }
    redraws := ?_, warnings := ?_, losses := ?_ }⟩
  · cases a with
    | redraw => cases hnone
    | _ => rfl
  · rw [hreasons]
    exact Nat.eq_zero_of_add_eq_zero_right ((hfailures _).symm.trans hw.known)
  · have hpopped := hbefore Alarm.isRedraw
    have hkept := hdoes.waiting Alarm.isRedraw fun _ _ => rfl
    rw [redraws_eq_waiting, redraws_eq_waiting]
    omega
  · rw [hreasons, hwarnings, hheld, Nat.add_zero, Nat.add_zero, Nat.add_comm]
  · rw [hreasons, hlosses, hlost, Nat.add_zero, Nat.add_comm]

theorem ran_fireUpTo (limit : τ) (bound : Nat) (hw : w.Sound) (hopen : w.destroyed = false) :
    ∃ opens told, Ran 0 0 opens told w (w.fireUpTo limit bound) := by
  induction bound generalizing w with
  | zero => exact ⟨0, [], .refl w⟩
  | succ bound ih =>
    rcases hpop : w.clock.pop? limit with - | ⟨a, clock⟩
    · rw [Window.fireUpTo, hpop]
      exact ⟨0, [], .refl w⟩
    · obtain ⟨opens, told, hran⟩ := ran_alarm hw hopen hpop
      obtain ⟨opens', told', hran'⟩ := ih (hran.sound hw) (hran.destroyed.trans hopen)
      rw [Window.fireUpTo, hpop]
      exact ⟨_, _, hran.trans hran'⟩

omit [Time τ] [Glyphs] in
/-- The clock is moved on without an alarm. -/
theorem ran_moveTo (w : Window τ) (time : τ) :
    Ran 0 0 0 [] w { w with clock := w.clock.moveTo time } :=
  { Ran.refl w with
    numbered := fun hw => { hw with }
    sound := fun hw => { hw with numbered := { hw.numbered with } } }

/-- Time goes by, which opens nothing when the window has been closed. -/
theorem ran_advance (millis : Int) (hw : w.Sound) :
    ∃ opens told, Ran 0 0 opens told w (w.advance millis) ∧ (w.destroyed = true → opens = 0) := by
  rcases hd : w.destroyed with - | -
  · obtain ⟨opens, told, hran⟩ := ran_fireUpTo (w.clock.after (Time.ofMillis millis))
      (w.alarmsWithin (Time.ofMillis millis)) hw hd
    refine ⟨opens, told ++ [], ?_, nofun⟩
    have hmoved := hran.trans (ran_moveTo _ (w.clock.after (Time.ofMillis millis)))
    rw [Window.advance, hd]
    exact hmoved
  · refine ⟨0, [], ?_, fun _ => rfl⟩
    rw [Window.advance, hd]
    exact ran_moveTo w _

/-! ### Loads -/

omit [Time τ] [Glyphs] in
/-- No reason is held before a loading has failed, nor by one that has ended. -/
theorem Window.Held.of_loader (hw : w.Held) (hreasons : w'.reasons = w.reasons)
    (hbefore : ∀ n, w.loader ≠ .ends (some n)) (hafter : ∀ n, w'.loader ≠ .ends (some n)) :
    w'.Held := by
  intro n
  rw [Window.reason?, hreasons]
  exact (hw n).trans (iff_of_false (hbefore n) (hafter n))

/-- The loads that fail with the next step of the loading. -/
def Window.failing (w : Window τ) : Nat :=
  match w.loader with
  | .begins path =>
    match Document.load w.folder .terminal (some path) with
    | .ok _ => 0
    | .error _ => 1
  | _ => 0

/-- The failures whose alarm waits when the next step of the loading lets go of their reason. -/
def Window.missing (w : Window τ) : Nat :=
  match w.loader with
  | .ends (some n) => w.waiting (Alarm.isFailure (· = n))
  | _ => 0

omit [Time τ] [Glyphs] in
/-- The reason that is held is that of the loading which is about to let go of it. -/
theorem Window.Held.isSome (hw : w.Held) (n : Nat) :
    w.reasons[n]?.join.isSome = decide (w.loader = .ends (some n)) :=
  Bool.eq_iff_iff.mpr ((hw n).trans decide_eq_true_iff.symm)

omit [Glyphs] in
/-- A timer that is started takes none off the clock. -/
theorem Window.Armed.after (hw : w.Armed) (millis : Int) (a : Alarm) :
    (w.after millis a).Armed := by
  intro hdesks
  obtain ⟨t, ht, hlast, hredraw⟩ := hw hdesks
  exact ⟨t, List.mem_append_left _ ht, hlast, hredraw⟩

omit [Glyphs] in
/-- When a load has failed, the failures that wait are the new one and those that have waited
before; the number of the new one is known to none of these. -/
theorem waiting_failed (hknown : w.waiting (Alarm.isUnknown w.reasons) = 0) (e : LoadError)
    {p q : Nat → Bool} (h : ∀ n < w.reasons.length, p n = q n) :
    (w.loadEnds (.error e)).waiting (Alarm.isFailure p) =
      w.waiting (Alarm.isFailure q) + if p w.reasons.length then 1 else 0 := by
  have hold : w.waiting (Alarm.isFailure p) = w.waiting (Alarm.isFailure q) := by
    refine List.countP_congr fun t ht => ?_
    have hless := List.countP_eq_zero.mp hknown t ht
    rcases ha : t.action with - | ⟨doc, name⟩ | n | ⟨i, c⟩
    case notLoaded =>
      rw [ha] at hless
      have hn := h n (Nat.not_le.mp fun hle => hless (decide_eq_true hle))
      rw [Alarm.isFailure_notLoaded, Alarm.isFailure_notLoaded, hn]
    all_goals exact Iff.rfl
  rw [← hold]
  show (w.clock.pending ++ [_]).countP _ = _
  rw [List.countP_append, List.countP_singleton]
  rfl

omit [Glyphs] in
/-- A load fails: its alarm waits, and its reason is held. -/
theorem ran_failed {path : Text} (hloader : w.loader = .begins path) (hw : w.Sound)
    (e : LoadError) : Ran 1 0 0 [] w (w.loadEnds (.error e)) := by
  have hnone (n : Nat) : w.reasons[n]?.join.isSome = false := by
    rw [hw.held.isSome, hloader]
    rfl
  have hbefore {n : Nat} (h : n < w.reasons.length) : (w.reasons ++ [some e])[n]? = w.reasons[n]? :=
    List.getElem?_append_left h
  have hlast : (w.reasons ++ [some e])[w.reasons.length]? = some (some e) := by simp
  refine
    { (does_after { w with
        loader := .ends (some w.reasons.length)
        reasons := w.reasons ++ [some e] } 0 (.notLoaded w.reasons.length)).toTells with
      sound := fun _ =>
        { numbered := hw.numbered.start _ _
          armed := fun hopen => (hw.armed hopen).after 0 _
          known := ?_
          held := fun n => ?_ }
      redraws := ?_, warnings := ?_, losses := ?_ }
  · show (w.loadEnds (.error e)).waiting
      (Alarm.isFailure fun n => (w.reasons ++ [some e]).length ≤ n) = 0
    rw [waiting_failed hw.known e (q := fun n => w.reasons.length ≤ n) fun n hn => by simp; omega,
      hw.known]
    simp
  · show (w.reasons ++ [some e])[n]?.join.isSome = true ↔
      Loader.ends (some w.reasons.length) = .ends (some n)
    rcases Nat.lt_trichotomy n w.reasons.length with hless | rfl | hmore
    · rw [hbefore hless, hnone]
      exact iff_of_false Bool.false_ne_true fun he => by cases he; omega
    · rw [hlast]
      exact iff_of_true rfl rfl
    · rw [List.getElem?_eq_none (by simp; omega)]
      exact iff_of_false Bool.false_ne_true fun he => by cases he; omega
  · show (w.clock.pending ++ [_]).countP _ = _
    rw [List.countP_append]
    rfl
  · show 0 + 0 + (w.loadEnds (.error e)).waiting
      (Alarm.isFailure fun n => (w.reasons ++ [some e])[n]?.join.isSome) = _
    rw [waiting_failed hw.known e (q := fun n => w.reasons[n]?.join.isSome)
      fun n hn => by rw [hbefore hn], hlast]
    exact Nat.zero_add _
  · show 0 + (w.loadEnds (.error e)).waiting
      (Alarm.isFailure fun n => (w.reasons ++ [some e])[n]?.join.isNone) = _
    rw [waiting_failed hw.known e (q := fun n => w.reasons[n]?.join.isNone)
      fun n hn => by rw [hbefore hn], hlast]
    exact Nat.zero_add _

omit [Time τ] [Glyphs] in
/-- The reason of a failure is let go of: the alarms of it that wait have missed it. -/
theorem ran_letGo {n : Nat} (hloader : w.loader = .ends (some n)) (hw : w.Sound) :
    Ran 0 (w.waiting (Alarm.isFailure (· = n))) 0 [] w (w.letGo n) := by
  have hheld (m : Nat) : w.reasons[m]?.join.isSome = decide (m = n) := by
    rw [hw.held.isSome, hloader]
    simp [eq_comm]
  have hnone (m : Nat) : (w.reasons.set n none)[m]?.join.isSome = false := by
    by_cases hm : m = n
    · subst hm
      rw [List.getElem?_set]
      split <;> [split <;> rfl; contradiction]
    · rw [List.getElem?_set_ne (Ne.symm hm), hheld, decide_eq_false hm]
  -- what was held is lost, and nothing is held any more
  have hbefore := waiting_held_add_lost w.reasons w
  have hafter := waiting_held_add_lost (w.reasons.set n none) w
  simp only [Alarm.isHeld, hheld] at hbefore
  simp only [Alarm.isHeld, hnone] at hafter
  have hzero : w.waiting (Alarm.isFailure fun _ => false) = 0 :=
    List.countP_eq_zero.mpr fun t _ => by cases t.action <;> exact Bool.false_ne_true
  refine
    { Tells.refl w with
      sound := fun _ =>
        { numbered := hw.numbered, armed := hw.armed, known := ?_, held := fun m => ?_ }
      redraws := rfl, warnings := ?_, losses := ?_ }
  · show w.waiting (Alarm.isFailure fun m => (w.reasons.set n none).length ≤ m) = 0
    rw [List.length_set]
    exact hw.known
  · show (w.reasons.set n none)[m]?.join.isSome = true ↔ Loader.ends none = .ends (some m)
    rw [hnone]
    simp
  · show 0 + _ + w.waiting (Alarm.isFailure fun m => (w.reasons.set n none)[m]?.join.isSome) =
      w.waiting (Alarm.isFailure fun m => w.reasons[m]?.join.isSome) + 0
    simp only [hnone, hheld]
    omega
  · show 0 + w.waiting (Alarm.isLost (w.reasons.set n none)) = _
    omega

omit [Glyphs] in
/-- **The accounts balance over a step of the loading.** -/
theorem ran_work (hw : w.Sound) : Ran w.failing w.missing 0 [] w w.work := by
  unfold Window.work Window.failing Window.missing
  rcases hloader : w.loader with - | path | - | n
  · exact .refl w
  · dsimp only
    rcases Document.load w.folder .terminal (some path) with e | ⟨doc, name⟩
    · exact ran_failed hloader hw e
    · have hstarted := does_after { w with loader := .ends none } 0 (.loaded doc name)
      have hdoes : Does [.loaded doc name] 0 [] w (w.loadEnds (.ok (doc, name))) :=
        { hstarted with
          held := fun hheld => hheld.of_loader rfl (by simp [hloader])
            (by simp [Window.loadEnds, Window.after]) }
      exact hdoes.ran (fun harmed => harmed.after 0 _) rfl (fun _ => rfl) nofun
  · have hdoes : Does [] 0 [] w { w with loader := .idle } :=
      { Does.refl w with
        held := fun hheld => hheld.of_loader rfl (by simp [hloader]) (by simp) }
    exact hdoes.ran_of_mild id nofun
  · exact ran_letGo hloader hw

/-! ### Actions -/

/-- The notice that a document is being loaded. -/
def alreadyLoading : Notice :=
  .informed "Loading".toList "A document is already loading. Please wait.".toList

/-- The state after a file has been chosen. -/
def Window.chosen (path : Text) (w : Window τ) : Window τ :=
  if path.isEmpty then w.notice (.asked fileQuestion)
  else if w.loader ≠ .idle then (w.notice (.asked fileQuestion)).notice alreadyLoading
  else
    { w.notice (.asked fileQuestion) with
      source := path.shortened maxSource
      status := statusLine loadingState
      busy := true
      loader := .begins path }

omit [Time τ] [Glyphs] in
theorem choose_eq (path : Text) (w : Window τ) : choose path w = (.ok (), w.chosen path) := by
  unfold choose Window.chosen
  refine (bind_ok (x := modify _) rfl).trans ?_
  split
  · rfl
  · rw [get_bind]
    have hloader : (w.notice (.asked fileQuestion)).loader = w.loader := rfl
    rw [hloader]
    split <;> rfl

omit [Time τ] [Glyphs] in
theorem ran_chosen (path : Text) (w : Window τ) : ∃ told, Ran 0 0 0 told w (w.chosen path) := by
  have hasked : Does [] 0 [.asked fileQuestion] w _ := (Does.refl w).notice (.asked fileQuestion)
  have hmild : Mild [.asked fileQuestion] := by simp [Mild, Notice.isWarning, lostNotice]
  unfold Window.chosen
  split
  · exact ⟨_, hasked.ran_of_mild id hmild⟩
  · split
    · have hboth := hasked.trans ((Does.refl _).notice alreadyLoading)
      exact ⟨_, hboth.ran_of_mild id
        (by simp [Mild, Notice.isWarning, lostNotice, alreadyLoading])⟩
    · next hidle =>
      have hdoes : Does [] 0 [.asked fileQuestion] w
          { w.notice (.asked fileQuestion) with
            source := path.shortened maxSource
            status := statusLine loadingState
            busy := true
            loader := .begins path } :=
        { hasked with
          status := fun _ _ hs => absurd (statusLine_inj hs) (by decide)
          busy := fun _ _ => .inl rfl
          held := fun hheld => hheld.of_loader rfl (by simp [not_not.mp hidle]) (by simp) }
      exact ⟨_, hdoes.ran_of_mild id hmild⟩

omit [Time τ] [Glyphs] in
/-- A gesture or the end of a job keeps the accounts. -/
theorem ran_guarded {op : Op τ Unit} (hop : Op.Quiet op) (w : Window τ) :
    ∃ told, Ran 0 0 0 told w (Window.guarded op w).2 := by
  obtain ⟨told, hdoes, hmild⟩ := does_guarded hop w
  exact ⟨told, hdoes.ran_of_mild (armed_guarded hop) hmild⟩

/-- The loads that fail with an action, and the failures of whose reason it lets go too early. -/
def Action.failing : Action → Window τ → Nat
  | .work, w => w.failing
  | _, _ => 0

def Action.missing : Action → Window τ → Nat
  | .work, w => w.missing
  | _, _ => 0

/-- **The accounts balance over an action**, unless it closes the window.  Nothing is opened in a
window that has been closed. -/
theorem ran_perform {a : Action} (ha : a ≠ .close) (hw : w.Sound) :
    ∃ opens told, Ran (a.failing w) (a.missing w) opens told w (a.perform w).2 ∧
      (w.destroyed = true → opens = 0) := by
  have hnothing {w' : Window τ} (h : ∃ told, Ran 0 0 0 told w w') :
      ∃ opens told, Ran 0 0 opens told w w' ∧ (w.destroyed = true → opens = 0) := by
    obtain ⟨told, hran⟩ := h
    exact ⟨0, told, hran, fun _ => rfl⟩
  have hshown {w' : Window τ} (h : Does [] 0 [] w w') (harmed : w.Armed → w'.Armed) :
      ∃ opens told, Ran 0 0 opens told w w' ∧ (w.destroyed = true → opens = 0) :=
    hnothing ⟨[], h.ran_of_mild harmed nofun⟩
  cases a with
  | choose path =>
    have hr : (Action.perform (.choose path) w).2 = w.chosen path :=
      congrArg Prod.snd (guarded_ok (choose_eq path w))
    rw [hr]
    exact hnothing (ran_chosen path w)
  | work => exact ⟨0, [], ran_work hw, fun _ => rfl⟩
  | edit place text =>
    cases place with
    | entry => exact hshown { Does.refl w with } id
    | output => exact hshown { Does.refl w with } id
  | press p => exact hnothing (ran_guarded (quiet_answer p) w)
  | advance millis => exact ran_advance millis hw
  | complete index job => exact hnothing (ran_guarded (quiet_complete index job) w)
  | resize paneWidth => exact hshown { Does.refl w with } id
  | close => exact absurd rfl ha

/-! ### Runs -/

/-- The state after some actions. -/
def afterAll (as : List Action) (w : Window τ) : Window τ :=
  as.foldl (fun w a => (a.perform w).2) w

theorem afterAll_append (as bs : List Action) (w : Window τ) :
    afterAll (as ++ bs) w = afterAll bs (afterAll as w) := List.foldl_append

/-- What the actions of a run count up to, each in the window that it meets. -/
def sumOver (f : Action → Window τ → Nat) : List Action → Window τ → Nat
  | [], _ => 0
  | a :: rest, w => f a w + sumOver f rest (a.perform w).2

/-- The loads that fail in a run. -/
def failuresOf (as : List Action) (w : Window τ) : Nat := sumOver Action.failing as w

/-- The failures of a run whose loading ends while their alarm waits. -/
def missesOf (as : List Action) (w : Window τ) : Nat := sumOver Action.missing as w

/-- **The accounts balance over a run** in which the window is not closed. -/
theorem ran_after {as : List Action} (has : .close ∉ as) (hw : w.Sound) :
    ∃ opens told, Ran (failuresOf as w) (missesOf as w) opens told w (afterAll as w) ∧
      (w.destroyed = true → opens = 0) := by
  induction as generalizing w with
  | nil => exact ⟨0, [], .refl w, fun _ => rfl⟩
  | cons a rest ih =>
    have hfirst : a ≠ .close := fun he => has (he ▸ List.mem_cons_self)
    have hrest : .close ∉ rest := fun hm => has (List.mem_cons_of_mem a hm)
    obtain ⟨opens, told, hran, hclosed⟩ := ran_perform hfirst hw
    obtain ⟨opens', told', hran', hclosed'⟩ := ih hrest (hran.sound hw)
    refine ⟨_, _, hran.trans hran', fun hd => ?_⟩
    rw [hclosed hd, hclosed' (hran.destroyed.trans hd)]

/-- The window as it is when the program starts. -/
def Window.started (evaluator : Evaluator) (folder : Folder) (immediate recording : Bool)
    (paneWidth charWidth : Int) : Window τ :=
  { evaluator, folder, immediate, recording, clock := .atZero, paneWidth, charWidth }

omit [Glyphs] in
theorem Window.sound_started (evaluator : Evaluator) (folder : Folder) (immediate recording : Bool)
    (paneWidth charWidth : Int) :
    (started (τ := τ) evaluator folder immediate recording paneWidth charWidth).Sound where
  numbered := Timers.numbered_atZero
  armed _ hdesks := absurd rfl hdesks
  known := rfl
  held _ := by simp [Window.reason?, started]

/-! ### Closing -/

/-- Ending the session that is shown is quiet, and does not break down. -/
theorem endShown_eq (w : Window τ) :
    ∃ w', (endShown : Op τ Unit) w = (.ok (), w') ∧ Quiet w w' := by
  have hended (w : Window τ) : ∃ w', (do
      let _ ← onShown (Dispatcher.act Dispatcher.shutDown) : Op τ Unit) w = (.ok (), w') ∧
        Quiet w w' := by
    obtain ⟨_, hr⟩ := sure_shutDown.result w
    exact ⟨_, bind_ok hr, (quiet_onShown _).quiet w⟩
  unfold endShown
  rw [get_bind]
  rcases w.shown? with - | d
  · exact ⟨w, rfl, .refl w⟩
  · dsimp only
    rcases d.latency.summary with - | t
    · exact hended w
    · obtain ⟨w', hr, hquiet⟩ := hended { w with printed := w.printed ++ t ++ [Text.newline] }
      exact ⟨w', hr, { hquiet with }⟩

/-- **Closing** takes one timer off the clock and ends the session, and never breaks down. -/
theorem close_perform (w : Window τ) :
    ∃ w', (Action.close.perform w).2 = { w' with destroyed := true } ∧ Quiet w.disarm w' := by
  obtain ⟨w', hr, hquiet⟩ := endShown_eq w.disarm
  have hclose : (close : Op τ Unit) w = (.ok (), { w' with destroyed := true }) := by
    unfold close
    exact (bind_ok (x := modify _) rfl).trans (bind_ok hr)
  exact ⟨w', congrArg Prod.snd (guarded_ok hclose), hquiet⟩

omit [Time τ] [Glyphs] in
/-- Only the clock is changed, and no timer is started on it. -/
theorem disarm_eq (w : Window τ) : ∃ clock, w.disarm = { w with clock } ∧
    clock.pending.Sublist w.clock.pending ∧ (w.clock.Numbered → clock.Numbered) := by
  unfold Window.disarm
  split
  · next n _ => exact ⟨w.clock.cancel n, rfl, List.filter_sublist, fun hw => hw.cancel n⟩
  · exact ⟨w.clock, rfl, List.Sublist.refl _, id⟩

omit [Time τ] [Glyphs] in
theorem waiting_disarm_le (f : Alarm → Bool) (w : Window τ) : w.disarm.waiting f ≤ w.waiting f := by
  obtain ⟨clock, he, hsub, -⟩ := disarm_eq w
  rw [he]
  exact hsub.countP_le

omit [Time τ] [Glyphs] in
/-- As soon as a document has been opened, one redraw less is to come. -/
theorem redraws_disarm (hw : w.clock.Numbered) (harmed : w.Armed) (hdesks : w.desks ≠ []) :
    w.redraws = w.disarm.redraws + 1 := by
  obtain ⟨t, ht, hlast, hredraw⟩ := harmed hdesks
  unfold Window.disarm
  rw [hlast, redraws_eq_waiting, redraws_eq_waiting, Window.waiting,
    (Timers.perm_cons_filter hw.nodup ht).countP_eq]
  exact List.countP_cons_of_pos hredraw

/-- What holds of the window holds when it has been closed, and only the redraw that was started
last is not to come any more. -/
theorem sound_close (hw : w.Sound) :
    (Action.close.perform w).2.Sound ∧ (Action.close.perform w).2.destroyed = true ∧
      (Action.close.perform w).2.redraws = w.disarm.redraws := by
  obtain ⟨w', hr, hquiet⟩ := close_perform w
  obtain ⟨clock, he, -, hnumbered⟩ := disarm_eq w
  have hdoes := hquiet.does
  have hreasons : w'.reasons = w.reasons := by rw [hdoes.reasons, he]
  rw [hr]
  refine ⟨⟨hdoes.numbered ?_, nofun, ?_, hdoes.held ?_⟩, rfl,
    hdoes.waiting Alarm.isRedraw fun _ _ => rfl⟩
  · rw [he]
    exact hnumbered hw.numbered
  · show w'.waiting (Alarm.isUnknown w'.reasons) = 0
    rw [hreasons, hdoes.waiting_failure fun _ => rfl]
    exact Nat.eq_zero_of_le_zero (hw.known ▸ waiting_disarm_le _ w)
  · rw [he]
    exact hw.held

/-- **There are as many chains of redraws as documents have been opened.**  One of them is ended
when the window is closed, and no other. -/
theorem redraws_of_run (evaluator : Evaluator) (folder : Folder) (immediate recording : Bool)
    (paneWidth charWidth : Int) {as bs : List Action} (hopen : .close ∉ as)
    (hclosed : .close ∉ bs) :
    let start : Window τ := .started evaluator folder immediate recording paneWidth charWidth
    let w := afterAll as start
    w.redraws = w.desks.length ∧
      (afterAll (as ++ .close :: bs) start).redraws = w.desks.length - 1 := by
  intro start w
  have hstart : start.Sound := Window.sound_started _ _ _ _ _ _
  obtain ⟨opens, told, hran, -⟩ := ran_after hopen hstart
  have hsound : w.Sound := hran.sound hstart
  have hredraws : w.redraws = w.desks.length := hran.redraws.trans hran.opened.symm
  obtain ⟨hsound', hdestroyed, hclose⟩ := sound_close hsound
  obtain ⟨opens', told', hran', hnone⟩ := ran_after hclosed hsound'
  have hrest : (afterAll (as ++ .close :: bs) start).redraws = w.disarm.redraws := by
    rw [afterAll_append]
    refine hran'.redraws.trans ?_
    rw [hnone hdestroyed, hclose, Nat.add_zero]
  refine ⟨hredraws, hrest.trans ?_⟩
  by_cases hdesks : w.desks = []
  · have hle : w.disarm.redraws ≤ w.redraws := waiting_disarm_le Alarm.isRedraw w
    rw [hredraws, hdesks] at hle
    rw [hdesks]
    exact Nat.le_zero.mp hle
  · rw [← hredraws, redraws_disarm hsound.numbered (hsound.armed hran.destroyed) hdesks]
    rfl

end

/-- A load that fails, a document, and a filter that is typed: a single chain of redraws, and none
when the window has been closed. -/
theorem redraws_of_one_document :
    let folder : Folder := .ofNames [("a.json".toList, [49])] []
    let w : Window ℚ :=
      .started ⟨fun _ => .ok (.onValue fun v => [.value v])⟩ folder true false 400 10
    let as : List Action :=
      [.choose "b.json".toList, .work, .work, .advance 0, .work, .choose "a.json".toList, .work,
       .work, .advance 60, .edit .entry ".a".toList, .press ⟨.typed, "a".toList, 0⟩, .advance 120]
    .close ∉ as ∧ .close ∉ [Action.advance 100] ∧ (afterAll as w).redraws = 1 ∧
      (afterAll (as ++ [.close, .advance 100]) w).redraws = 0 := by
  intro folder w as
  have hopen : .close ∉ as := by simp [as]
  have hclosed : .close ∉ [Action.advance 100] := by simp
  obtain ⟨hredraws, hrest⟩ := redraws_of_run (τ := ℚ)
    ⟨fun _ => .ok (.onValue fun v => [.value v])⟩ folder true false 400 10 hopen hclosed
  have hdesks : (afterAll as w).desks.length = 1 := by decide +kernel
  exact ⟨hopen, hclosed, hredraws.trans hdesks, hrest.trans (congrArg (· - 1) hdesks)⟩

/-- The redraws of a document go on when another one is opened, and are left on the clock when the
window is closed. -/
theorem redraws_of_two_documents :
    let folder : Folder := .ofNames [("a.json".toList, [49]), ("b.json".toList, [50])] []
    let w : Window ℚ :=
      .started ⟨fun _ => .ok (.onValue fun v => [.value v])⟩ folder true false 400 10
    let as : List Action :=
      [.choose "a.json".toList, .work, .work, .advance 0, .advance 100, .choose "b.json".toList,
       .work, .work, .advance 0, .advance 100]
    .close ∉ as ∧ ¬ (afterAll as w).redraws ≤ 1 ∧ ¬ (afterAll (as ++ [.close]) w).redraws = 0 := by
  intro folder w as
  have htwo : (afterAll as w).redraws = 2 := by decide +kernel
  have hone : (afterAll (as ++ [.close]) w).redraws = 1 := by decide +kernel
  refine ⟨by simp [as], ?_, ?_⟩
  · rw [htwo]
    decide
  · rw [hone]
    decide

end Desktop

end LiveQuery
