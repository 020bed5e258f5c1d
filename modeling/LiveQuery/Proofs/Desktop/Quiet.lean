/-
LiveQuery/Proofs/Desktop/Quiet.lean

What most operations of the window leave alone.

Answering a gesture, a callback of a session or the end of a job may change the sessions and what
is shown of them.  It opens and loads nothing, tells the user nothing, and the only timers it starts
are those of sessions (`Quiet`).

Design.  The operations are put together from a few by sequencing, so that the frame is proved for
these and for the sequence (`Op.Quiet.bind`); the other proofs follow the text of the operations.

Main results: gestures and the ends of jobs are quiet (`quiet_answer`, `quiet_complete`), and so are
the callbacks of sessions (`quiet_session`) and what is drawn (`quiet_refresh`).
-/
import LiveQuery.Desktop.Actions
import LiveQuery.Proofs.Dispatch.Moves
import LiveQuery.Proofs.Host.Timers

namespace LiveQuery

namespace Desktop

variable {τ : Type}

/-- An alarm of a session. -/
def Alarm.isSession : Alarm → Bool
  | session _ _ => true
  | _ => false

/-- What is the same in both windows: all but the sessions and what is shown of them. -/
structure Quiet (w w' : Window τ) : Prop where
  clock : ∃ new, w'.clock.pending = w.clock.pending ++ new ∧
    ∀ t ∈ new, t.action.isSession = true
  numbered : w.clock.Numbered → w'.clock.Numbered
  opened : w'.desks.length = w.desks.length
  loader : w'.loader = w.loader
  reasons : w'.reasons = w.reasons
  redrawTimer : w'.redrawTimer = w.redrawTimer
  destroyed : w'.destroyed = w.destroyed
  busy : w'.busy = w.busy
  notices : w'.notices = w.notices
  status : w'.status = w.status ∨ ∃ d : Desk τ, w'.status = statusLine (stateOf d)

namespace Quiet

variable {w w' w'' : Window τ}

theorem refl (w : Window τ) : Quiet w w :=
  ⟨⟨[], (List.append_nil _).symm, by simp⟩, id, rfl, rfl, rfl, rfl, rfl, rfl, rfl, .inl rfl⟩

theorem trans (h : Quiet w w') (h' : Quiet w' w'') : Quiet w w'' where
  clock := by
    obtain ⟨new, he, hnew⟩ := h.clock
    obtain ⟨new', he', hnew'⟩ := h'.clock
    refine ⟨new ++ new', by rw [he', he, List.append_assoc], fun t ht => ?_⟩
    exact (List.mem_append.mp ht).elim (hnew t) (hnew' t)
  numbered hw := h'.numbered (h.numbered hw)
  opened := h'.opened.trans h.opened
  loader := h'.loader.trans h.loader
  reasons := h'.reasons.trans h.reasons
  redrawTimer := h'.redrawTimer.trans h.redrawTimer
  destroyed := h'.destroyed.trans h.destroyed
  busy := h'.busy.trans h.busy
  notices := h'.notices.trans h.notices
  status := h'.status.elim (fun he => he ▸ h.status) .inr

theorem foldl {ι : Type} {f : Window τ → ι → Window τ} (hf : ∀ w' i, Quiet w w' → Quiet w (f w' i))
    (h : Quiet w w') (is : List ι) : Quiet w (is.foldl f w') := by
  induction is generalizing w' with
  | nil => exact h
  | cons i rest ih => exact ih (hf w' i h)

variable [Time τ] [Glyphs]

omit [Glyphs] in
/-- Timers of sessions are started. -/
theorem after (h : Quiet w w') (millis : Int) {a : Alarm} (ha : a.isSession = true) :
    Quiet w (w'.after millis a) :=
  h.trans
    { refl w' with
      clock := ⟨_, rfl, by simpa using ha⟩
      numbered := fun hw => hw.start _ _ }

/-- What a session has left is handed to the clock. -/
theorem handOver (w : Window τ) (index : Nat) (d : Desk τ) : Quiet w (w.handOver index d) := by
  unfold Window.handOver
  dsimp only
  generalize (if w.immediate then Looped.completeAll d else d) = d'
  have halarms : Quiet w (d'.alarms.foldl
      (fun w seq => w.after Looped.defaultDebounce (.session index (.debounce seq))) w) :=
    foldl (fun _ _ h => h.after _ rfl) (refl w) d'.alarms
  have hposted := foldl (f := fun w c => w.after 0 (.session index c))
    (fun _ _ h => h.after _ rfl) halarms d'.posted
  exact { hposted with opened := List.length_set.trans hposted.opened }

end Quiet

/-! ### Quiet operations -/

/-- An operation that is quiet, and breaks down only where a session does. -/
structure Op.Quiet {α : Type} (op : Op τ α) : Prop where
  quiet : ∀ w, Desktop.Quiet w (op w).2
  fault : ∀ w b, (op w).1 = .error b → ∃ f, b = .fault f

namespace Op.Quiet

variable {α β : Type}

theorem pure (a : α) : Op.Quiet (Pure.pure a : Op τ α) :=
  ⟨.refl, fun _ _ h => by cases h⟩

theorem bind {x : Op τ α} {f : α → Op τ β} (hx : Op.Quiet x) (hf : ∀ a, Op.Quiet (f a)) :
    Op.Quiet (x >>= f) := by
  have hboth : ∀ w, Desktop.Quiet w ((x >>= f) w).2 ∧
      ∀ b, ((x >>= f) w).1 = .error b → ∃ e, b = .fault e := by
    intro w
    have hquiet := hx.quiet w
    rcases hr : x w with ⟨b | a, w'⟩
    · rw [hr] at hquiet
      rw [bind_error hr]
      refine ⟨hquiet, fun b' hb => ?_⟩
      cases hb
      exact hx.fault w b (by rw [hr])
    · rw [hr] at hquiet
      rw [bind_ok hr]
      exact ⟨hquiet.trans ((hf a).quiet w'), fun b hb => (hf a).fault w' b hb⟩
  exact ⟨fun w => (hboth w).1, fun w => (hboth w).2⟩

theorem get : Op.Quiet (get : Op τ (Window τ)) := ⟨.refl, fun _ _ h => by cases h⟩

theorem modify {f : Window τ → Window τ} (hf : ∀ w, Desktop.Quiet w (f w)) :
    Op.Quiet (modify f : Op τ Unit) := ⟨hf, fun _ _ h => by cases h⟩

end Op.Quiet

/-! ### Sessions and what is shown of them -/

section

variable [Time τ] [Glyphs]

theorem quiet_onDesk {α : Type} (index : Nat) (c : Command τ α) : Op.Quiet (onDesk index c) := by
  have hboth : ∀ w, Quiet w (onDesk index c w).2 ∧
      ∀ b, (onDesk index c w).1 = .error b → ∃ e, b = .fault e := by
    intro w
    unfold onDesk
    rcases w.desks[index]? with - | d
    · exact ⟨.refl w, fun _ hb => by cases hb⟩
    · dsimp only
      rcases c.run { d with now := w.clock.now } with ⟨f | a, d'⟩
      · refine ⟨.handOver w index d', fun b hb => ?_⟩
        cases hb
        exact ⟨f, rfl⟩
      · exact ⟨.handOver w index d', fun _ hb => by cases hb⟩
  exact ⟨fun w => (hboth w).1, fun w => (hboth w).2⟩

theorem quiet_onShown {α : Type} (c : Command τ α) : Op.Quiet (onShown c) :=
  Op.Quiet.get.bind fun _ => quiet_onDesk _ c

theorem quiet_session (index : Nat) (c : Callback) :
    Op.Quiet (Alarm.session index c).answer (τ := τ) :=
  (quiet_onDesk index _).bind fun _ => .pure _

theorem quiet_complete (index : Option Nat) (job : Nat) : Op.Quiet (complete index job (τ := τ)) :=
  Op.Quiet.get.bind fun _ => (quiet_onDesk _ _).bind fun _ => .pure _

omit [Time τ] [Glyphs] in
/-- The state of a session is shown. -/
theorem quiet_setStatus (d : Desk τ) : Op.Quiet (setStatus (stateOf d) : Op τ Unit) :=
  .modify fun w => { Quiet.refl w with status := .inr ⟨d, rfl⟩ }

theorem quiet_refreshOutput : Op.Quiet (refreshOutput : Op τ Unit) := by
  unfold refreshOutput
  refine Op.Quiet.get.bind fun w => (quiet_onShown _).bind fun rows => ?_
  cases rows with
  | none => exact .pure _
  | some rows =>
    have hshow : Op.Quiet (modify fun w => { w with output := outputText rows } : Op τ Unit) :=
      .modify fun w => { Quiet.refl w with }
    refine Op.Quiet.get.bind fun w => ?_
    rcases w.shown? with - | d
    · exact hshow
    · exact (quiet_setStatus d).bind fun _ => hshow

omit [Time τ] [Glyphs] in
theorem quiet_refreshKeys : Op.Quiet (refreshKeys : Op τ Unit) := by
  unfold refreshKeys
  refine Op.Quiet.get.bind fun w => ?_
  have hshow (title : Text) (lines : List Text) :
      Op.Quiet (modify fun w => { w with
        keysLabel := title, keys := Text.joinWith [Text.newline] lines } : Op τ Unit) :=
    .modify fun w => { Quiet.refl w with }
  rcases w.shown? with - | d
  · exact .pure _
  · dsimp only
    split <;> exact hshow _ _

omit [Time τ] [Glyphs] in
theorem quiet_replaceEntry (t : Text) : Op.Quiet (replaceEntry t : Op τ Unit) :=
  .modify fun w => { Quiet.refl w with }

omit [Time τ] [Glyphs] in
theorem quiet_report (t : Text) : Op.Quiet (report t : Op τ Unit) :=
  .modify fun w => { Quiet.refl w with }

/-! ### Gestures -/

theorem quiet_typed (key : Text) : Op.Quiet (typed key : Op τ Unit) := by
  unfold typed
  refine Op.Quiet.get.bind fun w => ?_
  split
  · exact (quiet_onShown _).bind fun _ => (quiet_onShown _).bind fun _ => quiet_refreshKeys
  · exact .pure _

theorem quiet_cycle (step : Int) : Op.Quiet (cycle step : Op τ Unit) := by
  unfold cycle
  refine Op.Quiet.get.bind fun w => ?_
  split
  · exact (quiet_onShown _).bind fun _ => quiet_refreshKeys
  · exact .pure _

theorem quiet_tab : Op.Quiet (tab : Op τ Unit) := by
  unfold tab
  refine Op.Quiet.get.bind fun w => ?_
  split
  · exact quiet_cycle 1
  · split
    · exact (quiet_onShown _).bind fun _ => Op.Quiet.get.bind fun _ =>
        (quiet_replaceEntry _).bind fun _ => quiet_refreshKeys
    · exact .pure _

theorem quiet_enter : Op.Quiet (enter : Op τ Unit) := by
  have hreport (word : Text) : Op.Quiet (do
      report (word ++ shownFilter (← get))
      refreshKeys : Op τ Unit) :=
    Op.Quiet.get.bind fun _ => (quiet_report _).bind fun _ => quiet_refreshKeys
  unfold enter
  refine Op.Quiet.get.bind fun w => ?_
  split
  · refine (quiet_onShown _).bind fun text => ?_
    cases text with
    | none => exact hreport _
    | some text => exact (quiet_replaceEntry text).bind fun _ => hreport _
  · refine (quiet_onShown _).bind fun kept => ?_
    split
    · exact hreport _
    · exact quiet_refreshKeys

theorem quiet_escape : Op.Quiet (escape : Op τ Unit) :=
  (quiet_onShown _).bind fun _ => quiet_refreshKeys

theorem quiet_scrollAcross (dx : Int) : Op.Quiet (scrollAcross dx : Op τ Unit) :=
  (quiet_onShown _).bind fun _ => quiet_refreshOutput

theorem quiet_scroll (dy : Int) : Op.Quiet (scroll dy : Op τ Unit) :=
  (quiet_onShown _).bind fun _ => quiet_refreshOutput

/-- **The answer to a gesture is quiet.** -/
theorem quiet_answer (p : Press) : Op.Quiet (p.answer : Op τ Unit) := by
  unfold Press.answer
  cases p.gesture with
  | typed => exact quiet_typed p.key
  | tab => exact quiet_tab
  | enter => exact quiet_enter
  | escape => exact quiet_escape
  | up => exact quiet_cycle (-1)
  | down => exact quiet_cycle 1
  | left => exact quiet_scrollAcross _
  | right => exact quiet_scrollAcross _
  | wheel => exact quiet_scroll _
  | wheelUp => exact quiet_scroll _
  | wheelDown => exact quiet_scroll _

end

end Desktop

end LiveQuery
