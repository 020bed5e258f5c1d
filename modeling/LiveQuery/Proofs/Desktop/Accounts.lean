/-
LiveQuery/Proofs/Desktop/Accounts.lean

What becomes of the timers, the documents and the notices of the window.

Every operation starts some timers of the window's own, opens some documents and tells the user some
things (`Does`).  A redraw starts the next one, and a document that is opened starts another; no
other alarm starts a redraw.  The alarm of a failure warns the user as long as its reason is held,
and breaks down when that has been let go of.

Design.  An operation that cannot break down is followed by what stands behind it (`Op.Sure`); so a
redraw never fails to start the next one, and a document is opened whatever its session does.

Main result: all that an alarm does (`answer_does`).
-/
import LiveQuery.Proofs.Desktop.Quiet
import LiveQuery.Proofs.Host.Jobs
import LiveQuery.Proofs.Session.Inputs

namespace LiveQuery

namespace Desktop

variable {τ : Type}

/-! ### Accounts of timers -/

/-- The number of alarms of a kind that have not gone off. -/
def Window.waiting (f : Alarm → Bool) (w : Window τ) : Nat :=
  w.clock.pending.countP fun t => f t.action

/-- A redraw. -/
def Alarm.isRedraw : Alarm → Bool
  | redraw => true
  | _ => false

/-- A failure whose number is of a kind. -/
def Alarm.isFailure (p : Nat → Bool) : Alarm → Bool
  | notLoaded n => p n
  | _ => false

@[simp] theorem Alarm.isFailure_notLoaded (p : Nat → Bool) (n : Nat) :
    (notLoaded n).isFailure p = p n := rfl

/-- A failure whose reason is held. -/
abbrev Alarm.isHeld (reasons : List (Option LoadError)) : Alarm → Bool :=
  isFailure fun n => reasons[n]?.join.isSome

/-- A failure whose reason has been let go of. -/
abbrev Alarm.isLost (reasons : List (Option LoadError)) : Alarm → Bool :=
  isFailure fun n => reasons[n]?.join.isNone

theorem redraws_eq_waiting (w : Window τ) : w.redraws = w.waiting Alarm.isRedraw := rfl

/-- The reason of a failure is held or has been let go of. -/
theorem waiting_held_add_lost (reasons : List (Option LoadError)) (w : Window τ) :
    w.waiting (Alarm.isHeld reasons) + w.waiting (Alarm.isLost reasons) =
      w.waiting (Alarm.isFailure fun _ => true) := by
  have hone (a : Alarm) : ((if a.isHeld reasons then 1 else 0) +
      if a.isLost reasons then 1 else 0) = if a.isFailure fun _ => true then 1 else 0 := by
    cases a with
    | notLoaded n => rcases h : reasons[n]?.join with - | e <;> simp [h]
    | _ => rfl
  unfold Window.waiting
  induction w.clock.pending with
  | nil => rfl
  | cons t rest ih =>
    have ht := hone t.action
    rw [List.countP_cons, List.countP_cons, List.countP_cons]
    omega

/-- A warning. -/
def Notice.isWarning : Notice → Bool
  | warned _ _ => true
  | _ => false

/-- The reason of a failure is held exactly as long as its loading has not let go of it. -/
def Window.Held (w : Window τ) : Prop :=
  ∀ n, (w.reason? n).isSome ↔ w.loader = .ends (some n)

/-- As soon as a document has been opened, the redraw that was started last is still to come. -/
def Window.Armed (w : Window τ) : Prop :=
  w.desks ≠ [] → ∃ t ∈ w.clock.pending, w.redrawTimer = some t.number ∧ t.action.isRedraw = true

/-- What becomes of a window but for its timers: the number of documents that are opened, and what
is told.  As long as nobody is warned, the state is not that of a failure to load, and the loading
is shown until a document is opened. -/
structure Tells (opens : Nat) (told : List Notice) (w w' : Window τ) : Prop where
  numbered : w.clock.Numbered → w'.clock.Numbered
  opened : w'.desks.length = w.desks.length + opens
  notices : w'.notices = w.notices ++ told
  destroyed : w'.destroyed = w.destroyed
  status : (∀ n ∈ told, n.isWarning = false) → w.status ≠ statusLine notLoadedState →
    w'.status ≠ statusLine notLoadedState
  busy : (∀ n ∈ told, n.isWarning = false) → w.busy = true → w'.busy = true ∨ 0 < opens

/-- What an operation does to a window, with the timers of the window's own that are started.  It
comes upon no reason and lets go of none. -/
structure Does (starts : List Alarm) (opens : Nat) (told : List Notice) (w w' : Window τ) :
    Prop extends Tells opens told w w' where
  reasons : w'.reasons = w.reasons
  held : w.Held → w'.Held
  waiting : ∀ f : Alarm → Bool, (∀ i c, f (.session i c) = false) →
    w'.waiting f = w.waiting f + starts.countP f

variable {w w' w'' : Window τ} {opens opens' : Nat} {told told' : List Notice}

theorem Tells.refl (w : Window τ) : Tells 0 [] w w :=
  ⟨id, rfl, (List.append_nil _).symm, rfl, fun _ h => h, fun _ h => .inl h⟩

theorem Tells.trans (h : Tells opens told w w') (h' : Tells opens' told' w' w'') :
    Tells (opens + opens') (told ++ told') w w'' where
  numbered hw := h'.numbered (h.numbered hw)
  opened := by rw [h'.opened, h.opened, Nat.add_assoc]
  notices := by rw [h'.notices, h.notices, List.append_assoc]
  destroyed := h'.destroyed.trans h.destroyed
  status hn hw := h'.status (fun n hm => hn n (List.mem_append_right _ hm))
    (h.status (fun n hm => hn n (List.mem_append_left _ hm)) hw)
  busy hn hw := by
    rcases h.busy (fun n hm => hn n (List.mem_append_left _ hm)) hw with hbusy | hopened
    · exact (h'.busy (fun n hm => hn n (List.mem_append_right _ hm)) hbusy).imp_right (by omega)
    · exact .inr (by omega)

theorem Does.refl (w : Window τ) : Does [] 0 [] w w :=
  { Tells.refl w with reasons := rfl, held := id, waiting := fun _ _ => rfl }

theorem Does.trans {starts starts' : List Alarm} (h : Does starts opens told w w')
    (h' : Does starts' opens' told' w' w'') :
    Does (starts ++ starts') (opens + opens') (told ++ told') w w'' :=
  { h.toTells.trans h'.toTells with
    reasons := h'.reasons.trans h.reasons
    held := fun hw => h'.held (h.held hw)
    waiting := fun f hf => by
      rw [h'.waiting f hf, h.waiting f hf, List.countP_append, Nat.add_assoc] }

/-- A notice is added. -/
theorem Does.notice (h : Does [] 0 [] w w') (n : Notice) : Does [] 0 [n] w (w'.notice n) :=
  { h with
    notices := by rw [Window.notice, h.notices, List.append_nil]
    status := fun _ => h.status (by simp)
    busy := fun _ => h.busy (by simp) }

/-- The state of a session is not that of a document that could not be loaded. -/
theorem stateOf_ne (d : Desk τ) : stateOf d ≠ notLoadedState := by
  intro he
  have hlast := congrArg List.getLast? he
  have hdot : notLoadedState.getLast? = some '.' := rfl
  unfold stateOf at hlast
  rw [hdot] at hlast
  split at hlast
  · have hend : " error".toList.getLast? = some 'r' := rfl
    rw [List.getLast?_append, hend] at hlast
    simp at hlast
  · split at hlast
    · exact absurd hlast (by decide)
    · have hend : " lines".toList.getLast? = some 's' := rfl
      rw [List.getLast?_append, hend] at hlast
      simp at hlast

theorem statusLine_inj {s t : Text} (h : statusLine s = statusLine t) : s = t :=
  List.append_cancel_left h

theorem Quiet.armed (h : Quiet w w') (hw : w.Armed) : w'.Armed := by
  intro hdesks
  obtain ⟨new, he, -⟩ := h.clock
  have hbefore : w.desks ≠ [] := fun hnil => hdesks <| List.eq_nil_of_length_eq_zero (by
    rw [h.opened, hnil]
    rfl)
  obtain ⟨t, ht, hlast, hredraw⟩ := hw hbefore
  refine ⟨t, ?_, h.redrawTimer.trans hlast, hredraw⟩
  rw [he]
  exact List.mem_append_left _ ht

theorem Quiet.does (h : Quiet w w') : Does [] 0 [] w w' where
  numbered := h.numbered
  waiting f hf := by
    obtain ⟨new, he, hnew⟩ := h.clock
    have hnone : new.countP (fun t => f t.action) = 0 := by
      refine List.countP_eq_zero.mpr fun t ht => ?_
      have ht := hnew t ht
      rcases ha : t.action with - | ⟨doc, name⟩ | n | ⟨i, c⟩ <;> rw [ha] at ht
      · cases ht
      · cases ht
      · cases ht
      · simp [hf]
    rw [Window.waiting, he, List.countP_append, hnone]
    rfl
  opened := h.opened
  notices := h.notices.trans (List.append_nil _).symm
  destroyed := h.destroyed
  reasons := h.reasons
  held hw n := by
    rw [Window.reason?, h.reasons, h.loader]
    exact hw n
  status _ hw := by
    rcases h.status with he | ⟨d, he⟩
    · rwa [he]
    · rw [he]
      exact fun hs => stateOf_ne d (statusLine_inj hs)
  busy _ hw := .inl (h.busy.trans hw)

/-! ### Operations that do not break down -/

/-- An operation that cannot break down. -/
def Op.Sure {α : Type} (op : Op τ α) : Prop := ∀ w, ∃ a, (op w).1 = .ok a

namespace Op.Sure

variable {α β : Type}

theorem result {op : Op τ α} (h : Op.Sure op) (w : Window τ) : ∃ a, op w = (.ok a, (op w).2) := by
  obtain ⟨a, ha⟩ := h w
  exact ⟨a, Prod.ext ha rfl⟩

theorem pure (a : α) : Op.Sure (Pure.pure a : Op τ α) := fun _ => ⟨a, rfl⟩

theorem bind {x : Op τ α} {f : α → Op τ β} (hx : Op.Sure x) (hf : ∀ a, Op.Sure (f a)) :
    Op.Sure (x >>= f) := by
  intro w
  obtain ⟨a, ha⟩ := hx.result w
  rw [bind_ok ha]
  exact hf a _

theorem get : Op.Sure (get : Op τ (Window τ)) := fun w => ⟨w, rfl⟩

theorem modify (f : Window τ → Window τ) : Op.Sure (modify f : Op τ Unit) := fun _ => ⟨(), rfl⟩

end Op.Sure

section

variable [Time τ] [Glyphs]

/-- A command that raises nothing does not break the window down. -/
theorem sure_onDesk {α : Type} (index : Nat) {c : Command τ α} (hc : ∀ d, ∃ a, (c d).1 = .ok a) :
    Op.Sure (onDesk index c) := by
  intro w
  unfold onDesk
  rcases w.desks[index]? with - | d
  · exact ⟨none, rfl⟩
  · obtain ⟨a, ha⟩ := hc { d with now := w.clock.now }
    have hr : c.run { d with now := w.clock.now } = (.ok a, (c { d with now := w.clock.now }).2) :=
      Prod.ext ha rfl
    dsimp only
    rw [hr]
    exact ⟨some a, rfl⟩

theorem sure_onShown {α : Type} {c : Command τ α} (hc : ∀ d, ∃ a, (c d).1 = .ok a) :
    Op.Sure (onShown c) :=
  Op.Sure.get.bind fun _ => sure_onDesk _ hc

theorem sure_shutDown : Op.Sure (onShown (Dispatcher.act Dispatcher.shutDown) : Op τ _) :=
  sure_onShown fun _ => ⟨(), rfl⟩

omit [Time τ] in
theorem visibleRows_ok (width : Option Int) (height : Int) (d : Desk τ) :
    ∃ rows, (Desk.visibleRows width height d).1 = .ok rows := by
  rcases width with - | w
  · exact ⟨_, rfl⟩
  · simp only [Desk.visibleRows, Desk.session_bind]
    split <;> exact ⟨_, rfl⟩

theorem sure_refreshOutput : Op.Sure (refreshOutput : Op τ Unit) := by
  unfold refreshOutput
  refine Op.Sure.get.bind fun w => (sure_onShown (visibleRows_ok _ _)).bind fun rows => ?_
  cases rows with
  | none => exact .pure _
  | some rows =>
    refine Op.Sure.get.bind fun w => ?_
    rcases w.shown? with - | d
    · exact .modify _
    · exact (Op.Sure.modify _).bind fun _ => .modify _

omit [Time τ] [Glyphs] in
theorem sure_refreshKeys : Op.Sure (refreshKeys : Op τ Unit) := by
  unfold refreshKeys
  refine Op.Sure.get.bind fun w => ?_
  rcases w.shown? with - | d
  · exact .pure _
  · dsimp only
    split <;> exact .modify _

omit [Glyphs] in
theorem does_after (w : Window τ) (millis : Int) (a : Alarm) :
    Does [a] 0 [] w (w.after millis a) :=
  { Does.refl w with
    numbered := fun hw => hw.start _ _
    waiting := fun f _ => by
      show (w.clock.pending ++ [_]).countP _ = _
      rw [List.countP_append]
      rfl }

/-- **A redraw starts the next one**, and this is the one started last. -/
theorem does_redraw (w : Window τ) :
    ∃ w', (redraw : Op τ Unit) w = (.ok (), w') ∧ Does [.redraw] 0 [] w w' ∧ w'.Armed := by
  obtain ⟨_, houtput⟩ := sure_refreshOutput.result w
  obtain ⟨_, hkeys⟩ := sure_refreshKeys.result ((refreshOutput : Op τ Unit) w).2
  have hquiet := (quiet_refreshOutput.quiet w).trans (quiet_refreshKeys.quiet _)
  generalize ((refreshKeys : Op τ Unit) ((refreshOutput : Op τ Unit) w).2).2 = w' at hkeys hquiet
  have hnext : Does [.redraw] 0 [] w'
      { w'.after redrawPeriod .redraw with redrawTimer := some w'.clock.nextNumber } :=
    { does_after w' redrawPeriod .redraw with }
  exact ⟨_, (bind_ok houtput).trans (bind_ok hkeys), hquiet.does.trans hnext,
    fun _ => ⟨_, List.mem_append_right _ List.mem_cons_self, rfl, rfl⟩⟩

/-! ### Documents that are opened -/

/-- The session that is shown takes jobs. -/
def Window.Live (w : Window τ) : Prop := ∃ d, w.shown? = some d ∧ d.shut = false

/-- What a session has left is handed to the clock, and nothing else of the window changes. -/
theorem handOver_eq (w : Window τ) (index : Nat) (d : Desk τ) :
    ∃ clock, w.handOver index d = { w with
      clock
      desks := w.desks.set index
        { (if w.immediate then Looped.completeAll d else d) with
          alarms := [], posted := [] } } := by
  have hafter {ι : Type} (f : ι → Int × Alarm) (is : List ι) (w : Window τ) :
      ∃ clock, is.foldl (fun w i => w.after (f i).1 (f i).2) w = { w with clock } := by
    induction is generalizing w with
    | nil => exact ⟨_, rfl⟩
    | cons i rest ih => exact ih _
  unfold Window.handOver
  dsimp only
  generalize (if w.immediate then Looped.completeAll d else d) = d'
  obtain ⟨clock, halarms⟩ := hafter
    (fun seq => (Looped.defaultDebounce, .session index (.debounce seq))) d'.alarms w
  obtain ⟨clock', hposted⟩ := hafter (fun c => (0, .session index c)) d'.posted { w with clock }
  rw [halarms, hposted]
  exact ⟨clock', rfl⟩

theorem handOver_desks (w : Window τ) (index : Nat) (d : Desk τ) :
    (w.handOver index d).desks = w.desks.set index
      { (if w.immediate then Looped.completeAll d else d) with alarms := [], posted := [] } := by
  obtain ⟨clock, he⟩ := handOver_eq w index d
  rw [he]

/-- A command that raises nothing, as long as the background takes jobs, is done. -/
theorem Window.Live.onShown {α : Type} {c : Command τ α} (hw : w.Live)
    (hc : ∀ d : Desk τ, d.shut = false → ∃ a d', c d = (.ok a, d') ∧ d'.shut = false) :
    ∃ a w', Desktop.onShown c w = (.ok a, w') ∧ Quiet w w' ∧ w'.Live := by
  obtain ⟨d, hd, hshut⟩ := hw
  have hlast : w.desks[w.desks.length - 1]? = some d := by
    rw [← List.getLast?_eq_getElem?]
    exact hd
  obtain ⟨a, d', hr, hshut'⟩ := hc { d with now := w.clock.now } hshut
  have he : Desktop.onShown c w = (.ok (some a), w.handOver (w.desks.length - 1) d') := by
    rw [Desktop.onShown, get_bind]
    unfold onDesk
    rw [hlast]
    dsimp only
    rw [show c.run { d with now := w.clock.now } = (.ok a, d') from hr]
  refine ⟨some a, _, he, .handOver w _ d', ?_⟩
  have hcompleted : (if w.immediate then Looped.completeAll d' else d').shut = false := by
    split
    · exact Looped.completeAll_induction (P := fun d => d.shut = false) hshut'
        fun d i h => (Dispatcher.complete_shut i).trans h
    · exact hshut'
  refine ⟨{ (if w.immediate then Looped.completeAll d' else d') with alarms := [], posted := [] },
    ?_, hcompleted⟩
  obtain ⟨hlt, -⟩ := List.getElem?_eq_some_iff.mp hlast
  rw [Window.shown?, handOver_desks, List.getLast?_eq_getElem?, List.length_set,
    List.getElem?_set_self hlt]

omit [Glyphs] in
theorem does_openDesk (doc : Value) (name : Text) (w : Window τ) :
    Does [] 1 [] w (w.openDesk doc name) :=
  { Does.refl w with
    opened := List.length_append
    busy := fun _ _ => .inr Nat.one_pos }

omit [Glyphs] in
theorem live_openDesk (doc : Value) (name : Text) (w : Window τ) : (w.openDesk doc name).Live :=
  ⟨_, List.getLast?_concat, rfl⟩

/-- What the window shows when a document has been opened. -/
def Window.announced (name : Text) (w : Window τ) : Window τ :=
  { w with
    status := statusLine ("Loaded ".toList ++ name)
    log := w.log ++ ("Document ready: ".toList ++ name) ++ [Text.newline]
    focused := true }

omit [Time τ] [Glyphs] in
theorem does_announced (name : Text) (w : Window τ) : Does [] 0 [] w (w.announced name) :=
  { Does.refl w with
    status := fun _ _ hs => by
      have hhead := congrArg List.head? (statusLine_inj hs)
      exact absurd (Option.some.inj hhead) (by decide) }

/-- **A document is opened**, and its redraws begin, whatever becomes of the session before. -/
theorem does_takeDocument (doc : Value) (name : Text) (w : Window τ) :
    ∃ w', takeDocument doc name w = (.ok (), w') ∧ Does [.redraw] 1 [] w w' ∧ w'.Armed := by
  have hfilter (text : Text) (d : Desk τ) (hd : d.shut = false) :
      ∃ a d', Desk.setFilter text d = (.ok a, d') ∧ d'.shut = false :=
    ⟨(), _, Desk.setFilter_eq hd text, (Desk.Leads.refl d |>.edit _ |>.queue |>.fetched).shut hd⟩
  have hstart (d : Desk τ) (hd : d.shut = false) :
      ∃ a d', Desk.start d = (.ok a, d') ∧ d'.shut = false :=
    ⟨(), _, Desk.start_eq hd, (Desk.Leads.refl d |>.ran |>.fetched).shut hd⟩
  -- the session before is ended, and the new one has the filter of the entry and is started
  obtain ⟨_, hended⟩ := sure_shutDown.result { w with busy := false }
  have hquiet := (quiet_onShown (Dispatcher.act Dispatcher.shutDown)).quiet { w with busy := false }
  generalize (onShown (Dispatcher.act Dispatcher.shutDown) { w with busy := false }).2 = w₂
    at hended hquiet
  obtain ⟨text, htext⟩ : ∃ text, text =
    if (w₂.openDesk doc name).entry.isEmpty then ['.'] else (w₂.openDesk doc name).entry := ⟨_, rfl⟩
  obtain ⟨_, w₃, hset, hquiet₃, hlive₃⟩ := (live_openDesk doc name w₂).onShown (hfilter text)
  obtain ⟨_, w₄, hstarted, hquiet₄, -⟩ := hlive₃.onShown hstart
  obtain ⟨w₅, hredraw, hdoes, harmed⟩ := does_redraw (w₄.announced name)
  refine ⟨w₅, ?_, ?_, harmed⟩
  · rw [takeDocument]
    refine (bind_ok (x := modify _) rfl).trans ?_
    refine (bind_ok hended).trans ?_
    refine (bind_ok (x := modify _) rfl).trans ?_
    rw [get_bind, ← htext]
    exact (bind_ok hset).trans ((bind_ok hstarted).trans hredraw)
  · have hall := hquiet.does.trans ((does_openDesk doc name w₂).trans
      (hquiet₃.does.trans (hquiet₄.does.trans ((does_announced name w₄).trans hdoes))))
    exact { hall with busy := fun _ _ => .inr Nat.one_pos }

/-! ### Alarms -/

omit [Time τ] [Glyphs] in
theorem guarded_ok {α : Type} {op : Op τ α} {a : α} (h : op w = (.ok a, w')) :
    Window.guarded op w = (some a, w') := by
  unfold Window.guarded
  rw [show op.run w = (.ok a, w') from h]

omit [Time τ] [Glyphs] in
theorem guarded_error {α : Type} {op : Op τ α} {b : Breakdown} (h : op w = (.error b, w')) :
    Window.guarded op w = (none, w'.notice (.brokeDown b)) := by
  unfold Window.guarded
  rw [show op.run w = (.error b, w') from h]

/-- The notice of a document that could not be loaded, whose reason has been let go of. -/
def lostNotice : Notice := .brokeDown .lostReason

/-- What is told when nobody is warned, and no reason is missed. -/
def Mild (told : List Notice) : Prop := ∀ n ∈ told, n.isWarning = false ∧ n ≠ lostNotice

omit [Time τ] [Glyphs] in
theorem Mild.countP_warning (h : Mild told) : told.countP Notice.isWarning = 0 :=
  List.countP_eq_zero.mpr fun n hn => Bool.eq_false_iff.mp (h n hn).1

omit [Time τ] [Glyphs] in
theorem Mild.count_lost (h : Mild told) : told.count lostNotice = 0 :=
  List.count_eq_zero.mpr fun hm => (h lostNotice hm).2 rfl

/-- The window when the user has been warned of a failure. -/
def Window.warned (e : LoadError) (w : Window τ) : Window τ :=
  { w with
    busy := false
    status := statusLine notLoadedState
    log := w.log ++ ("ERROR: ".toList ++ e.shown) ++ [Text.newline]
    notices := w.notices ++
      [.warned "Load error".toList ("Failed to load document:\n".toList ++ e.message)] }

omit [Time τ] [Glyphs] in
/-- A quiet operation may break down, and then a fault of the session is told. -/
theorem does_guarded {α : Type} {op : Op τ α} (hop : Op.Quiet op) (w : Window τ) :
    ∃ told, Does [] 0 told w (Window.guarded op w).2 ∧ Mild told := by
  have hquiet := hop.quiet w
  rcases hr : op w with ⟨b | a, w'⟩
  · rw [hr] at hquiet
    obtain ⟨f, rfl⟩ := hop.fault w b (by rw [hr])
    rw [guarded_error hr]
    exact ⟨_, hquiet.does.notice _, by simp [Mild, Notice.isWarning, lostNotice]⟩
  · rw [hr] at hquiet
    rw [guarded_ok hr]
    exact ⟨[], hquiet.does, by simp [Mild]⟩

omit [Time τ] [Glyphs] in
theorem armed_guarded {α : Type} {op : Op τ α} (hop : Op.Quiet op) (hw : w.Armed) :
    (Window.guarded op w).2.Armed := by
  have hquiet := (hop.quiet w).armed hw
  rcases hr : op w with ⟨b | a, w'⟩ <;> rw [hr] at hquiet
  · rw [guarded_error hr]
    exact hquiet
  · rw [guarded_ok hr]
    exact hquiet

/-- **The alarm of a failure**: the user is warned as long as the reason is held, and after that
the alarm breaks down. -/
theorem guarded_notLoaded (n : Nat) (w : Window τ) :
    Window.guarded (Alarm.notLoaded n).answer w =
      match w.reason? n with
      | some e => (some (), w.warned e)
      | none => (none, w.notice lostNotice) := by
  dsimp only [Alarm.answer]
  rcases hr : w.reason? n with - | e
  · refine guarded_error ?_
    rw [get_bind, hr]
    rfl
  · refine guarded_ok ?_
    rw [get_bind, hr]
    rfl

omit [Time τ] [Glyphs] in
theorem does_warned (e : LoadError) (w : Window τ) :
    ∃ n, n.isWarning = true ∧ n ≠ lostNotice ∧ Does [] 0 [n] w (w.warned e) := by
  refine ⟨.warned "Load error".toList ("Failed to load document:\n".toList ++ e.message), rfl,
    by simp [lostNotice], { Does.refl w with notices := rfl, status := ?_, busy := ?_ }⟩
  all_goals
    intro hn
    exact absurd (hn _ List.mem_cons_self) (by simp [Notice.isWarning])

/-- The alarms of the window's own that an alarm starts when it goes off. -/
def Alarm.restarts : Alarm → List Alarm
  | redraw => [.redraw]
  | loaded _ _ => [.redraw]
  | notLoaded _ => []
  | session _ _ => []

/-- The documents that an alarm opens. -/
def Alarm.opening : Alarm → Nat
  | loaded _ _ => 1
  | _ => 0

/-- **All that an alarm does.** -/
theorem answer_does (a : Alarm) (w : Window τ) :
    ∃ told, Does a.restarts a.opening told w (Window.guarded a.answer w).2 ∧
      (told.countP Notice.isWarning = if a.isHeld w.reasons then 1 else 0) ∧
      (told.count lostNotice = if a.isLost w.reasons then 1 else 0) ∧
      ((a.restarts = [] → w.Armed) → (Window.guarded a.answer w).2.Armed) := by
  cases a with
  | redraw =>
    obtain ⟨w', hr, hdoes, harmed⟩ := does_redraw w
    rw [show Window.guarded (Alarm.answer .redraw) w = (some (), w') from guarded_ok hr]
    exact ⟨[], hdoes, rfl, rfl, fun _ => harmed⟩
  | loaded doc name =>
    obtain ⟨w', hr, hdoes, harmed⟩ := does_takeDocument doc name w
    rw [show Window.guarded (Alarm.answer (.loaded doc name)) w = (some (), w') from guarded_ok hr]
    exact ⟨[], hdoes, rfl, rfl, fun _ => harmed⟩
  | notLoaded n =>
    have hheld : Alarm.isHeld w.reasons (.notLoaded n) = (w.reason? n).isSome := rfl
    have hlost : Alarm.isLost w.reasons (.notLoaded n) = (w.reason? n).isNone := rfl
    rw [guarded_notLoaded, hheld, hlost]
    rcases w.reason? n with - | e
    · exact ⟨_, (Does.refl w).notice _, rfl, rfl, fun harmed => harmed rfl⟩
    · obtain ⟨m, hwarning, hlost, hdoes⟩ := does_warned e w
      refine ⟨[m], hdoes, ?_, ?_, fun harmed => harmed rfl⟩
      · rw [List.countP_singleton, hwarning]
        rfl
      · exact List.count_eq_zero.mpr (by simpa using Ne.symm hlost)
  | session index c =>
    obtain ⟨told, hdoes, hmild⟩ := does_guarded (quiet_session index c) w
    refine ⟨told, hdoes, hmild.countP_warning, hmild.count_lost, fun harmed => ?_⟩
    exact armed_guarded (quiet_session index c) (harmed rfl)

end

end Desktop

end LiveQuery
