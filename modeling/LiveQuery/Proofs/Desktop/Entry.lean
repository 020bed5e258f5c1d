/-
LiveQuery/Proofs/Desktop/Entry.lean

The entry and the filter: two copies of one text.

What is typed stands in the entry at once, and becomes the filter of the session when the key is let
go.  Completing reads the filter alone and writes the entry, so that it gives back what was typed
only where the filter has been told of it.

Design.  Of the window only the two copies matter (`Window.copies`).  Most operations leave both
alone (`Op.Leaves`), and this goes through sequences.  Four do not: a key that is let go,
completing, accepting, and a document that is opened; each makes the copies agree (`Agrees`).
Whether the filter has been told of all that was typed is no part of the window, so it is read off
the actions (`untoldAfter`).

Main results: the copies agree unless an edit is untold (`agrees_after`), and what the entry holds
when the filter has been completed (`entry_after_tab`).
-/
import LiveQuery.Display.Wide
import LiveQuery.Proofs.Desktop.Runs
import LiveQuery.Proofs.Dispatch.Ended
import LiveQuery.Proofs.Session.Completing
import LiveQuery.Proofs.Session.Upkeep

namespace LiveQuery

namespace Desktop

variable {τ : Type}

/-! ### The two copies -/

/-- What a session has of the text: its filter, and whether its background takes no more jobs. -/
def copyOf (d : Desk τ) : Text × Bool := (d.client.filter, d.shut)

/-- The entry, and what the session that is shown has of it. -/
def Window.copies (w : Window τ) : Text × Option (Text × Bool) :=
  (w.entry, (w.desks.map copyOf).getLast?)

/-- The copies agree: the session that is shown takes jobs, and its filter is the text of the entry,
unless that is empty or an edit of it is untold. -/
def Agrees (untold : Bool) (copies : Text × Option (Text × Bool)) : Prop :=
  ∀ c ∈ copies.2, c.2 = false ∧ (untold = false → copies.1 = [] ∨ c.1 = copies.1)

theorem agrees_of_eq (untold : Bool) (t : Text) : Agrees untold (t, some (t, false)) := by
  intro c hc
  obtain rfl := Option.some.inj hc
  exact ⟨rfl, fun _ => .inr rfl⟩

/-- Where an edit is untold, nothing is said of the text. -/
theorem Agrees.weaken {untold : Bool} {t t' : Text} {c : Option (Text × Bool)}
    (h : Agrees untold (t, c)) : Agrees true (t', c) :=
  fun c hc => ⟨(h c hc).1, fun he => by cases he⟩

variable {w w' : Window τ} {d : Desk τ}

theorem copies_of_shown (hd : w.shown? = some d) : w.copies = (w.entry, some (copyOf d)) := by
  rw [Window.copies, List.getLast?_map, show w.desks.getLast? = some d from hd]
  rfl

/-- Without a session there is one copy. -/
theorem agrees_of_none (untold : Bool) (hd : w.shown? = none) : Agrees untold w.copies := by
  have hnone : w.copies.2 = none := by
    rw [Window.copies, List.getLast?_map, show w.desks.getLast? = none from hd]
    rfl
  rintro c hc
  rw [hnone] at hc
  cases hc

theorem suggesting_of_shown (hd : w.shown? = some d) :
    suggesting w = !d.client.suggestions.isEmpty := by
  rw [suggesting, hd]

theorem shown_of_copies {t : Text} {c : Text × Bool} (h : w.copies = (t, some c)) :
    w.entry = t ∧ ∃ d, w.shown? = some d ∧ copyOf d = c := by
  obtain ⟨hentry, hlast⟩ := Prod.mk.inj h
  rw [List.getLast?_map, Option.map_eq_some_iff] at hlast
  exact ⟨hentry, hlast⟩

/-! ### Operations that leave the copies alone -/

/-- An operation that leaves the entry and the filters alone, also where it breaks down. -/
def Op.Leaves {α : Type} (op : Op τ α) : Prop := ∀ w, (op w).2.copies = w.copies

namespace Op.Leaves

variable {α β : Type}

theorem pure (a : α) : Op.Leaves (Pure.pure a : Op τ α) := fun _ => rfl

theorem bind {x : Op τ α} {f : α → Op τ β} (hx : Op.Leaves x) (hf : ∀ a, Op.Leaves (f a)) :
    Op.Leaves (x >>= f) := by
  intro w
  have hfirst := hx w
  rcases hr : x w with ⟨b | a, w'⟩ <;> rw [hr] at hfirst
  · rw [bind_error hr]
    exact hfirst
  · rw [bind_ok hr]
    exact (hf a w').trans hfirst

theorem get : Op.Leaves (get : Op τ (Window τ)) := fun _ => rfl

theorem modify {f : Window τ → Window τ} (hf : ∀ w, (f w).copies = w.copies) :
    Op.Leaves (modify f : Op τ Unit) := hf

theorem agrees {op : Op τ α} (h : Op.Leaves op) {untold : Bool} (hw : Agrees untold w.copies) :
    Agrees untold (op w).2.copies := by
  rwa [h w]

end Op.Leaves

/-- A breakdown is noticed, which leaves the copies alone. -/
theorem copies_guarded {α : Type} (op : Op τ α) (w : Window τ) :
    (Window.guarded op w).2.copies = (op w).2.copies := by
  rcases hr : op w with ⟨b | a, w'⟩
  · rw [guarded_error hr]
    rfl
  · rw [guarded_ok hr]

/-! ### Sessions -/

section

variable [Time τ] [Glyphs]

theorem entry_handOver (w : Window τ) (index : Nat) (d : Desk τ) :
    (w.handOver index d).entry = w.entry := by
  obtain ⟨clock, he⟩ := handOver_eq w index d
  rw [he]

/-- What a session has left is handed to the clock, and its filter stays as it is. -/
theorem copies_handOver (w : Window τ) (index : Nat) (d : Desk τ) :
    (w.handOver index d).copies =
      (w.entry, ((w.desks.map copyOf).set index (copyOf d)).getLast?) := by
  have hended : copyOf (if w.immediate then Looped.completeAll d else d) = copyOf d := by
    split
    · refine Looped.completeAll_induction (P := fun d' => copyOf d' = copyOf d) rfl fun d' i h => ?_
      obtain ⟨memo, jobs, posted, he⟩ := Desk.complete_keeps d' i
      rw [he]
      exact h
    · rfl
  rw [Window.copies, entry_handOver, handOver_desks, List.map_set]
  exact congrArg (fun c => (w.entry, ((w.desks.map copyOf).set index c).getLast?)) hended

theorem entry_onDesk {α : Type} (index : Nat) (c : Command τ α) (w : Window τ) :
    (onDesk index c w).2.entry = w.entry := by
  unfold onDesk
  rcases w.desks[index]? with - | d
  · rfl
  · dsimp only
    rcases c.run { d with now := w.clock.now } with ⟨f | a, d'⟩ <;> exact entry_handOver w index d'

theorem entry_onShown {α : Type} (c : Command τ α) (w : Window τ) :
    (onShown c w).2.entry = w.entry :=
  entry_onDesk _ c w

/-- A command that leaves the filter of its session leaves both copies. -/
theorem leaves_onDesk {α : Type} (index : Nat) {c : Command τ α}
    (hc : ∀ d, copyOf (c d).2 = copyOf d) : Op.Leaves (onDesk index c) := by
  intro w
  have hset {d d' : Desk τ} (hd : w.desks[index]? = some d) (hcopy : copyOf d' = copyOf d) :
      (w.handOver index d').copies = w.copies := by
    obtain ⟨hlt, rfl⟩ := List.getElem?_eq_some_iff.mp hd
    rw [copies_handOver, hcopy, ← List.map_set, List.set_getElem_self]
    rfl
  unfold onDesk
  rcases hd : w.desks[index]? with - | d
  · rfl
  · dsimp only
    have hcopy := hc { d with now := w.clock.now }
    rcases hr : c.run { d with now := w.clock.now } with ⟨f | a, d'⟩ <;>
      rw [show c { d with now := w.clock.now } = _ from hr] at hcopy <;> exact hset hd hcopy

theorem leaves_onShown {α : Type} {c : Command τ α} (hc : ∀ d, copyOf (c d).2 = copyOf d) :
    Op.Leaves (onShown c) :=
  Op.Leaves.get.bind fun _ => leaves_onDesk _ hc

omit [Time τ] [Glyphs] in
theorem getElem?_shown (hd : w.shown? = some d) : w.desks[w.desks.length - 1]? = some d := by
  rw [← List.getLast?_eq_getElem?]
  exact hd

theorem copies_handOver_shown (hd : w.shown? = some d) (d' : Desk τ) :
    (w.handOver (w.desks.length - 1) d').copies = (w.entry, some (copyOf d')) := by
  obtain ⟨hlt, -⟩ := List.getElem?_eq_some_iff.mp (getElem?_shown hd)
  rw [copies_handOver, List.getLast?_eq_getElem?, List.length_set, List.length_map,
    List.getElem?_set_self (by rwa [List.length_map])]

/-- A command of the session that is shown, and what it makes of the copies. -/
theorem onShown_ok {α : Type} {c : Command τ α} {a : α} {d' : Desk τ} (hd : w.shown? = some d)
    (hr : c { d with now := w.clock.now } = (.ok a, d')) :
    ∃ w', onShown c w = (.ok (some a), w') ∧ w'.copies = (w.entry, some (copyOf d')) := by
  refine ⟨_, ?_, copies_handOver_shown hd d'⟩
  rw [onShown, get_bind]
  unfold onDesk
  rw [getElem?_shown hd]
  dsimp only
  rw [show c.run { d with now := w.clock.now } = (.ok a, d') from hr]

/-- A command of the session that is shown may raise a fault. -/
theorem onShown_error {α : Type} {c : Command τ α} {f : Fault} {d' : Desk τ}
    (hd : w.shown? = some d) (hr : c { d with now := w.clock.now } = (.error f, d')) :
    ∃ w', onShown c w = (.error (.fault f), w') ∧ w'.copies = (w.entry, some (copyOf d')) := by
  refine ⟨_, ?_, copies_handOver_shown hd d'⟩
  rw [onShown, get_bind]
  unfold onDesk
  rw [getElem?_shown hd]
  dsimp only
  rw [show c.run { d with now := w.clock.now } = (.error f, d') from hr]

/-! ### Commands that leave the filter alone -/

/-- What only looks at a session leaves its filter. -/
theorem copyOf_looks {i : Desk.Input} (hi : i.looks = true) (d : Desk τ) :
    copyOf (i.next d) = copyOf d := by
  obtain ⟨s, he, hs⟩ := Desk.looks_next (d := d) hi
  rw [he]
  exact congrArg (·, d.shut) hs.filter

/-- A callback leaves the filter, also where the background takes no more jobs. -/
theorem copyOf_react (c : Callback) (d : Desk τ) :
    copyOf (Dispatcher.react Session.hooks c d).2 = copyOf d := by
  cases c with
  | debounce seq =>
    show copyOf (Dispatcher.debounced Session.hooks seq d).2 = _
    rcases hd : d.shut with - | -
    · rw [Dispatcher.debounced_eq hd]
      unfold Dispatcher.elapsed
      split <;> rfl
    · rw [Dispatcher.debounced_ended hd]
      split <;> rfl
  | result seq o =>
    show copyOf (d.takeResult Session.hooks seq o) = _
    rw [Dispatcher.takeResult_eq]
    dsimp only [copyOf]
    split <;> rfl
  | keys path answer =>
    show copyOf (d.answerKeys Session.hooks path answer.toOption) = _
    rw [Dispatcher.answerKeys_eq]
    dsimp only [copyOf]
    split <;> rfl

omit [Time τ] in
theorem copyOf_complete (job : Nat) (d : Desk τ) :
    copyOf (d.complete Session.hooks job) = copyOf d := by
  obtain ⟨memo, jobs, posted, he⟩ := Desk.complete_keeps d job
  rw [he]
  rfl

/-! ### Operations that leave the copies alone -/

omit [Time τ] [Glyphs] in
theorem leaves_setStatus (t : Text) : Op.Leaves (setStatus t : Op τ Unit) := .modify fun _ => rfl

omit [Time τ] [Glyphs] in
theorem leaves_report (t : Text) : Op.Leaves (report t : Op τ Unit) := .modify fun _ => rfl

theorem leaves_refreshOutput : Op.Leaves (refreshOutput : Op τ Unit) := by
  unfold refreshOutput
  refine Op.Leaves.get.bind fun w =>
    (leaves_onShown (copyOf_looks (i := .visibleRows _ _) rfl)).bind fun rows => ?_
  rcases rows with - | rows
  · exact .pure _
  · refine Op.Leaves.get.bind fun w => ?_
    rcases w.shown? with - | d
    · exact .modify fun _ => rfl
    · exact (leaves_setStatus _).bind fun _ => .modify fun _ => rfl

omit [Time τ] [Glyphs] in
theorem leaves_refreshKeys : Op.Leaves (refreshKeys : Op τ Unit) := by
  unfold refreshKeys
  refine Op.Leaves.get.bind fun w => ?_
  rcases w.shown? with - | d
  · exact .pure _
  · dsimp only
    split <;> exact .modify fun _ => rfl

theorem leaves_redraw : Op.Leaves (redraw : Op τ Unit) :=
  leaves_refreshOutput.bind fun _ => leaves_refreshKeys.bind fun _ => .modify fun _ => rfl

theorem leaves_cycle (step : Int) : Op.Leaves (cycle step : Op τ Unit) := by
  unfold cycle
  refine Op.Leaves.get.bind fun w => ?_
  split
  · exact (leaves_onShown (copyOf_looks (i := .cycle step) rfl)).bind fun _ => leaves_refreshKeys
  · exact .pure _

theorem leaves_escape : Op.Leaves (escape : Op τ Unit) :=
  (leaves_onShown (copyOf_looks (i := .cancel) rfl)).bind fun _ => leaves_refreshKeys

theorem leaves_scrollAcross (dx : Int) : Op.Leaves (scrollAcross dx : Op τ Unit) :=
  (leaves_onShown (copyOf_looks (i := .scrollAcross dx) rfl)).bind fun _ => leaves_refreshOutput

theorem leaves_scroll (dy : Int) : Op.Leaves (scroll dy : Op τ Unit) :=
  (leaves_onShown (copyOf_looks (i := .scroll dy) rfl)).bind fun _ => leaves_refreshOutput

theorem leaves_session (index : Nat) (c : Callback) :
    Op.Leaves (Alarm.session index c).answer (τ := τ) :=
  (leaves_onDesk index (copyOf_react c)).bind fun _ => .pure _

theorem leaves_complete (index : Option Nat) (job : Nat) :
    Op.Leaves (complete index job : Op τ Unit) :=
  Op.Leaves.get.bind fun _ => (leaves_onDesk _ (copyOf_complete job)).bind fun _ => .pure _

omit [Time τ] [Glyphs] in
theorem leaves_choose (path : Text) : Op.Leaves (choose path : Op τ Unit) := by
  intro w
  rw [choose_eq]
  unfold Window.chosen
  split
  · rfl
  · split <;> rfl

omit [Glyphs] in
theorem copies_work (w : Window τ) : w.work.copies = w.copies := by
  unfold Window.work
  rcases w.loader with - | path | - | failure
  · rfl
  · dsimp only
    rcases Document.load w.folder .terminal (some path) with e | ⟨doc, name⟩ <;> rfl
  · rfl
  · rfl

/-! ### Operations that make the copies agree -/

omit [Time τ] in
theorem copyOf_fetched (d : Desk τ) : copyOf (Desk.fetched d) = copyOf d := by
  rcases Desk.fetched_cases d with ⟨-, he⟩ | ⟨-, -, he⟩
  · rw [he]
  · rw [he]
    rfl

/-- The filter of the session that is shown becomes another. -/
theorem copies_setFilter {t : Text} {c : Text × Bool} (hw : w.copies = (t, some c))
    (hc : c.2 = false) (text : Text) :
    ∃ w', onShown (Desk.setFilter text) w = (.ok (some ()), w') ∧
      w'.copies = (t, some (text, false)) := by
  obtain ⟨rfl, d, hd, rfl⟩ := shown_of_copies hw
  obtain ⟨w', hr, hw'⟩ :=
    onShown_ok hd (Desk.setFilter_eq (d := { d with now := w.clock.now }) hc text)
  refine ⟨w', hr, hw'.trans ?_⟩
  rw [copyOf_fetched, ← show d.shut = false from hc]
  rfl

/-- A key that is let go tells the filter of the entry, unless it edits nothing. -/
theorem copies_typed {key t : Text} {c : Text × Bool} (hw : w.copies = (t, some c))
    (hc : c.2 = false) (hkey : silentKeys.contains key = false) :
    (typed key w).2.copies = (t, some (t, false)) := by
  obtain ⟨rfl, d, hd, rfl⟩ := shown_of_copies hw
  have hfilter : shownFilter w = d.client.filter := by rw [shownFilter, hd]
  unfold typed
  rw [get_bind, hd, hkey, hfilter]
  by_cases he : w.entry = d.client.filter
  · rw [if_neg (by simp [he]), he, ← show d.shut = false from hc]
    exact (copies_of_shown hd).trans (by rw [he]; rfl)
  · obtain ⟨w₁, hcancel, hw₁⟩ := onShown_ok (c := Desk.cancelSuggestions) hd rfl
    obtain ⟨w₂, hset, hw₂⟩ := copies_setFilter hw₁ hc w.entry
    rw [if_pos (by simp [he]), bind_ok hcancel, bind_ok hset]
    exact (leaves_refreshKeys w₂).trans hw₂

omit [Time τ] [Glyphs] in
theorem copies_replaceEntry (t : Text) (w : Window τ) :
    ∃ w', replaceEntry t w = (.ok (), w') ∧ w'.copies = (t, w.copies.2) :=
  ⟨_, rfl, rfl⟩

omit [Time τ] in
theorem copyOf_tab (hd : d.shut = false) :
    copyOf (Desk.tab d).2 = ((Desk.tabbed d.client).filter, false) := by
  rw [Desk.tab_eq hd, ← hd]
  split
  · exact copyOf_fetched _
  · rfl

/-- Completing reads the filter alone: the entry becomes the filter that has been completed,
whatever it was before. -/
theorem copies_tab (hd : w.shown? = some d) (hshut : d.shut = false)
    (hnone : d.client.suggestions = []) :
    ∃ w', (tab : Op τ Unit) w = (.ok (), w') ∧
      w'.copies = ((Desk.tabbed d.client).filter, some ((Desk.tabbed d.client).filter, false)) := by
  obtain ⟨suggestions, htab⟩ := Desk.tab_ok (d := { d with now := w.clock.now }) hshut
  obtain ⟨w₁, hcompleted, hw₁⟩ := onShown_ok hd htab
  rw [copyOf_tab (d := { d with now := w.clock.now }) hshut] at hw₁
  obtain ⟨-, d₁, hd₁, hcopy⟩ := shown_of_copies hw₁
  have hfilter : shownFilter w₁ = (Desk.tabbed d.client).filter := by
    rw [shownFilter, hd₁]
    exact congrArg Prod.fst hcopy
  obtain ⟨w₂, hreplaced, hw₂⟩ := copies_replaceEntry (shownFilter w₁) w₁
  obtain ⟨_, hkeys⟩ := sure_refreshKeys.result w₂
  refine ⟨_, ?_, (leaves_refreshKeys w₂).trans (hw₂.trans ?_)⟩
  · unfold tab
    rw [get_bind, suggesting_of_shown hd, hnone, hd]
    exact (bind_ok hcompleted).trans ((get_bind _).trans ((bind_ok hreplaced).trans hkeys))
  · rw [hfilter, hw₁]

/-- What is accepted becomes the filter; a fault leaves the copies alone. -/
theorem accept_shown (hd : w.shown? = some d) (hshut : d.shut = false) :
    (∃ b w', onShown Desk.accept w = (.error b, w') ∧ w'.copies = w.copies) ∨
      ∃ text w', onShown Desk.accept w = (.ok (some text), w') ∧
        w'.copies = (w.entry, some (text, false)) := by
  have hrun := Desk.accept_run (d := { d with now := w.clock.now }) hshut
  dsimp only at hrun
  rcases ht : Desk.accepted? d.client with - | text <;> rw [ht] at hrun
  · obtain ⟨w', hr, hw'⟩ := onShown_error hd hrun
    exact .inl ⟨_, w', hr, hw'.trans (copies_of_shown hd).symm⟩
  · obtain ⟨w', hr, hw'⟩ := onShown_ok hd hrun
    refine .inr ⟨text, w', hr, hw'.trans ?_⟩
    rw [copyOf_fetched, ← hshut]
    rfl

/-- A document is opened with the text of the entry for its filter, and with that of the whole
document where the entry is empty. -/
theorem copies_takeDocument (doc : Value) (name : Text) (w : Window τ) :
    (takeDocument doc name w).2.copies =
      (w.entry, some (if w.entry.isEmpty then ['.'] else w.entry, false)) := by
  obtain ⟨_, hended⟩ := sure_shutDown.result { w with busy := false }
  have hentry := entry_onShown (Dispatcher.act Dispatcher.shutDown) { w with busy := false }
  generalize (onShown (Dispatcher.act Dispatcher.shutDown) { w with busy := false }).2 = w₁
    at hended hentry
  have hopened : (w₁.openDesk doc name).copies = (w.entry, some (['.'], false)) := by
    rw [copies_of_shown (w := w₁.openDesk doc name) List.getLast?_concat]
    exact congrArg (·, some (['.'], false)) hentry
  obtain ⟨w₂, hset, hw₂⟩ :=
    copies_setFilter hopened rfl (if w.entry.isEmpty then ['.'] else w.entry)
  obtain ⟨hentry₂, d, hd, hcopy⟩ := shown_of_copies hw₂
  have hshut : d.shut = false := congrArg Prod.snd hcopy
  obtain ⟨w₃, hstarted, hw₃⟩ :=
    onShown_ok hd (Desk.start_eq (d := { d with now := w₂.clock.now }) hshut)
  have htake : takeDocument doc name w = (redraw : Op τ Unit) (w₃.announced name) := by
    rw [takeDocument]
    refine (bind_ok (x := modify _) rfl).trans ?_
    refine (bind_ok hended).trans ?_
    refine (bind_ok (x := modify _) rfl).trans ?_
    rw [get_bind, show (w₁.openDesk doc name).entry = w.entry from hentry]
    exact (bind_ok hset).trans (bind_ok hstarted)
  rw [htake, leaves_redraw]
  refine hw₃.trans ?_
  rw [copyOf_fetched, hentry₂]
  exact congrArg (fun c => (w.entry, some c)) hcopy

/-! ### What each gesture keeps -/

theorem agrees_typed {untold : Bool} (key : Text) (h : Agrees untold w.copies) :
    Agrees (untold && silentKeys.contains key) (typed key w).2.copies := by
  rcases hkey : silentKeys.contains key with - | -
  · rcases hd : w.shown? with - | d
    · have hleaves : (typed key w).2 = w := by
        unfold typed
        rw [get_bind, hd]
        rfl
      rw [hleaves]
      exact agrees_of_none _ hd
    · have hw := copies_of_shown hd
      rw [copies_typed hw (h _ (by rw [hw]; rfl)).1 hkey]
      exact agrees_of_eq _ _
  · have hleaves : (typed key w).2 = w := by
      unfold typed
      rw [get_bind, hkey]
      simp only [Bool.not_true, Bool.and_false, Bool.false_and]
      rfl
    rwa [hleaves, Bool.and_true]

theorem agrees_tab {untold : Bool} (h : Agrees untold w.copies) :
    Agrees untold (tab w).2.copies := by
  rcases hd : w.shown? with - | d
  · have hleaves : (tab w).2 = w := by
      unfold tab suggesting
      rw [get_bind]
      simp only [hd]
      rfl
    rw [hleaves]
    exact agrees_of_none untold hd
  · have hw := copies_of_shown hd
    rcases hs : d.client.suggestions with - | ⟨first, rest⟩
    · obtain ⟨w', hr, hw'⟩ := copies_tab hd (h _ (by rw [hw]; rfl)).1 hs
      rw [hr, hw']
      exact agrees_of_eq _ _
    · have hcycle : tab w = cycle 1 w := by
        unfold tab
        rw [get_bind, suggesting_of_shown hd, hs]
        rfl
      rw [hcycle]
      exact (leaves_cycle 1).agrees h

theorem agrees_enter {untold : Bool} (h : Agrees untold w.copies) :
    Agrees untold (enter w).2.copies := by
  have hreport (word : Text) : Op.Leaves (do
      report (word ++ shownFilter (← get))
      refreshKeys : Op τ Unit) :=
    Op.Leaves.get.bind fun _ => (leaves_report _).bind fun _ => leaves_refreshKeys
  unfold enter
  rw [get_bind]
  split
  · next hs =>
    rcases hd : w.shown? with - | d
    · rw [suggesting, hd] at hs
      cases hs
    · have hshut : d.shut = false := (h _ (by rw [copies_of_shown hd]; rfl)).1
      rcases accept_shown hd hshut with ⟨b, w₁, hr, hw₁⟩ | ⟨text, w₁, hr, hw₁⟩
      · rw [bind_error hr, hw₁]
        exact h
      · obtain ⟨w₂, hreplaced, hw₂⟩ := copies_replaceEntry text w₁
        rw [bind_ok hr]
        dsimp only
        rw [bind_ok hreplaced]
        refine (hreport _).agrees ?_
        rw [hw₂, hw₁]
        exact agrees_of_eq untold text
  · refine Op.Leaves.agrees (Op.Leaves.bind (leaves_onShown (copyOf_looks (i := .commit) rfl))
      fun kept => ?_) h
    split
    · exact hreport _
    · exact leaves_refreshKeys

theorem agrees_answer {untold : Bool} (p : Press) (h : Agrees untold w.copies) :
    Agrees (if p.gesture = .typed then untold && silentKeys.contains p.key else untold)
      (p.answer w).2.copies := by
  unfold Press.answer
  rcases hg : p.gesture with - | - | - | - | - | - | - | - | - | - | -
  case typed => exact agrees_typed p.key h
  case tab => exact agrees_tab h
  case enter => exact agrees_enter h
  case escape => exact leaves_escape.agrees h
  case up => exact (leaves_cycle (-1)).agrees h
  case down => exact (leaves_cycle 1).agrees h
  case left => exact (leaves_scrollAcross (-acrossStep)).agrees h
  case right => exact (leaves_scrollAcross acrossStep).agrees h
  case wheel => exact (leaves_scroll _).agrees h
  case wheelUp => exact (leaves_scroll (-wheelStep)).agrees h
  case wheelDown => exact (leaves_scroll wheelStep).agrees h

/-! ### What time and actions keep -/

theorem agrees_alarm {untold : Bool} (a : Alarm) (h : Agrees untold w.copies) :
    Agrees untold (a.answer w).2.copies := by
  cases a with
  | redraw => exact leaves_redraw.agrees h
  | loaded doc name =>
    show Agrees untold (takeDocument doc name w).2.copies
    rw [copies_takeDocument]
    intro c hc
    obtain rfl := Option.some.inj hc
    refine ⟨rfl, fun _ => ?_⟩
    by_cases he : w.entry = []
    · exact .inl he
    · exact .inr (if_neg fun hempty => he (List.isEmpty_iff.mp hempty))
  | notLoaded n =>
    rw [← copies_guarded, guarded_notLoaded]
    rcases w.reason? n with - | e <;> exact h
  | session index c => exact (leaves_session index c).agrees h

theorem agrees_fireUpTo {untold : Bool} (limit : τ) (bound : Nat) (h : Agrees untold w.copies) :
    Agrees untold (w.fireUpTo limit bound).copies := by
  induction bound generalizing w with
  | zero => exact h
  | succ bound ih =>
    rw [Window.fireUpTo]
    rcases w.clock.pop? limit with - | ⟨a, clock⟩
    · exact h
    · refine ih ?_
      rw [copies_guarded]
      exact agrees_alarm (w := { w with clock }) a h

theorem agrees_advance {untold : Bool} (millis : Int) (h : Agrees untold w.copies) :
    Agrees untold (w.advance millis).copies := by
  show Agrees untold (if w.destroyed then w
    else w.fireUpTo _ (w.alarmsWithin (Time.ofMillis millis))).copies
  split
  · exact h
  · exact agrees_fireUpTo _ _ h

/-- Whether an edit of the entry is untold after an action: it is until a key is let go that edits
something. -/
def Action.untold (untold : Bool) : Action → Bool
  | .edit .entry _ => true
  | .press p => if p.gesture = .typed then untold && silentKeys.contains p.key else untold
  | _ => untold

/-- **What each action keeps of the two copies**, unless it closes the window. -/
theorem agrees_perform {untold : Bool} {a : Action} (ha : a ≠ .close)
    (h : Agrees untold w.copies) : Agrees (a.untold untold) (a.perform w).2.copies := by
  cases a with
  | choose path =>
    show Agrees untold (Window.guarded (choose path) w).2.copies
    rw [copies_guarded]
    exact (leaves_choose path).agrees h
  | work =>
    show Agrees untold w.work.copies
    rwa [copies_work]
  | edit place text =>
    cases place with
    | entry => exact h.weaken
    | output => exact h
  | press p =>
    show Agrees _ (Window.guarded p.answer w).2.copies
    rw [copies_guarded]
    exact agrees_answer p h
  | advance millis => exact agrees_advance millis h
  | complete index job =>
    show Agrees untold (Window.guarded (complete index job) w).2.copies
    rw [copies_guarded]
    exact (leaves_complete index job).agrees h
  | resize paneWidth => exact h
  | close => exact absurd rfl ha

/-! ### Runs -/

/-- Whether an edit of the entry is untold after some actions. -/
def untoldAfter (as : List Action) (untold : Bool) : Bool :=
  as.foldl (fun untold a => a.untold untold) untold

/-- **What a run keeps of the two copies**, as long as the window is not closed. -/
theorem agrees_after {untold : Bool} {as : List Action} (has : .close ∉ as)
    (h : Agrees untold w.copies) : Agrees (untoldAfter as untold) (afterAll as w).copies := by
  induction as generalizing w untold with
  | nil => exact h
  | cons a rest ih =>
    have hfirst : a ≠ .close := fun he => has (he ▸ List.mem_cons_self)
    exact ih (fun hm => has (List.mem_cons_of_mem a hm)) (agrees_perform hfirst h)

/-- **What completing makes of the entry**, whatever has happened before: it becomes the filter with
at most two dots behind it.  The text that was in the entry is kept if the filter has been told of
it; what stands in the entry does not count, so that an untold edit is lost. -/
theorem entry_after_tab (evaluator : Evaluator) (folder : Folder) (immediate recording : Bool)
    (paneWidth charWidth : Int) {as : List Action} (has : .close ∉ as) (key : Text) (turn : Int)
    {d : Desk τ} :
    let w : Window τ :=
      afterAll as (.started evaluator folder immediate recording paneWidth charWidth)
    w.shown? = some d → d.client.suggestions = [] →
      ∃ dots ∈ [[], ['.'], ['.', '.']], ∃ w',
        (Action.press ⟨.tab, key, turn⟩).perform w = (true, w') ∧
          w'.entry = d.client.filter ++ dots ∧
          (untoldAfter as false = false → w.entry <+: w'.entry) := by
  intro w hd hnone
  have hstart : Agrees false
      (Window.started (τ := τ) evaluator folder immediate recording paneWidth charWidth).copies :=
    agrees_of_none false rfl
  have hagrees : Agrees (untoldAfter as false) w.copies := agrees_after has hstart
  obtain ⟨hshut, htold⟩ := hagrees (copyOf d) (by rw [copies_of_shown hd]; rfl)
  obtain ⟨w', hr, hw'⟩ := copies_tab hd hshut hnone
  obtain ⟨dots, hdots, hfilter⟩ := Desk.tabbed_filter d.client
  have hentry : w'.entry = d.client.filter ++ dots := (congrArg Prod.fst hw').trans hfilter
  refine ⟨dots, hdots, w', ?_, hentry, fun hall => ?_⟩
  · have hg : Window.guarded (Press.answer ⟨.tab, key, turn⟩) w = (some (), w') := guarded_ok hr
    unfold Action.perform
    dsimp only
    rw [hg]
    rfl
  · rw [hentry]
    rcases htold hall with hempty | hsame
    · rw [show w.entry = [] from hempty]
      exact List.nil_prefix
    · rw [show w.entry = d.client.filter from hsame.symm]
      exact List.prefix_append _ _

end

/-- A key has been let go before the filter is completed. -/
theorem entry_after_tab_of_typed :
    let folder : Folder := .ofNames [("a.json".toList, [49])] []
    let start : Window ℚ :=
      .started ⟨fun _ => .ok (.onValue fun v => [.value v])⟩ folder true false 400 10
    let as : List Action :=
      [.choose "a.json".toList, .work, .work, .advance 0, .edit .entry ".a".toList,
       .press ⟨.typed, "a".toList, 0⟩]
    .close ∉ as ∧ untoldAfter as false = false ∧
      ∃ w', (Action.press ⟨.tab, "Tab".toList, 0⟩).perform (afterAll as start) = (true, w') ∧
        ".a".toList <+: w'.entry := by
  intro folder start as
  have has : .close ∉ as := by simp [as]
  have htold : untoldAfter as false = false := by decide
  have hshown : (afterAll as start).shown?.map (fun d => d.client.suggestions) = some [] := by
    decide +kernel
  have hentry : (afterAll as start).entry = ".a".toList := by decide +kernel
  obtain ⟨d, hd, hnone⟩ := Option.map_eq_some_iff.mp hshown
  obtain ⟨dots, -, w', hr, -, hkept⟩ := entry_after_tab (τ := ℚ)
    ⟨fun _ => .ok (.onValue fun v => [.value v])⟩ folder true false 400 10 has "Tab".toList 0 hd
    hnone
  exact ⟨has, htold, w', hr, hentry ▸ hkept htold⟩

/-- The filter is completed before the key is let go: what was typed is gone. -/
theorem untold_edit_lost :
    let folder : Folder := .ofNames [("a.json".toList, [49])] []
    let start : Window ℚ :=
      .started ⟨fun _ => .ok (.onValue fun v => [.value v])⟩ folder true false 400 10
    ¬ ∀ as : List Action, .close ∉ as →
      (afterAll as start).shown?.map (fun d => d.client.suggestions) = some [] →
        (afterAll as start).entry <+:
          ((Action.press ⟨.tab, "Tab".toList, 0⟩).perform (afterAll as start)).2.entry := by
  intro folder start hall
  have hlost := hall [.choose "a.json".toList, .work, .work, .advance 0,
    .edit .entry ".ab".toList] (by simp) (by decide +kernel)
  revert hlost
  decide +kernel

end Desktop

end LiveQuery
