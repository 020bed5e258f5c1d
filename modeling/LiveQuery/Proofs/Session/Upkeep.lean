/-
LiveQuery/Proofs/Session/Upkeep.lean

What every happening keeps up in a session, whatever filters it runs.

The context is the one of the filter as it stands, the tables are coherent, and an answer to a
lookup that waits to be delivered is the one its path has.  `InOrder s d` collects this.  Theorems
about what a session offers and lists take it along, and add a memory of their own: what a run has
last done about the panel or the suggestions is no part of the state, so it is kept beside it
(`remembered`).

Main results: every happening keeps a session in order (`InOrder.next`); and what each happening
keeps of a state and a memory, a run keeps (`remembered_after`).
-/
import LiveQuery.Proofs.Memo.Answers
import LiveQuery.Proofs.Session.Inputs

namespace LiveQuery

/-! ### Sessions whose context is that of their filter -/

/-- A session over the source, with coherent tables and the context of its filter. -/
structure Session.Fits (s : Source) (c : Session) : Prop where
  source : c.source = s
  memo : c.memo.Coherent s
  context : c.context = s.contextOf c.filter

namespace Session.Fits

variable {s : Source} {c : Session}

theorem ofSource (s : Source) (name : Text) (capacity : Int) :
    Fits s (Session.ofSource s name capacity) := by
  obtain ⟨hcontext, hmemo, -⟩ := s.context_answers ['.'] {} (Memo.coherent_empty s)
  exact ⟨rfl, hmemo, hcontext⟩

theorem setText (h : Fits s c) (text : Text) : Fits s (Session.setText text c) := by
  obtain ⟨rfl, hmemo, -⟩ := h
  obtain ⟨hcontext, hmemo', -⟩ := c.source.context_answers text c.memo hmemo
  exact ⟨rfl, hmemo', hcontext⟩

/-- What is offered for a text is what is suggested for it. -/
theorem offer_suggestions (h : Fits s c) (text : Text) :
    (Desk.Session.offer text c).suggestions = (s.suggestionsFor text).1 := by
  obtain ⟨rfl, hmemo, -⟩ := h
  exact congrArg Prod.fst (c.source.suggest_answers text c.memo hmemo).1

theorem offer (h : Fits s c) (text : Text) : Fits s (Desk.Session.offer text c) := by
  obtain ⟨rfl, hmemo, -⟩ := h
  obtain ⟨hanswer, hmemo', -⟩ := c.source.suggest_answers text c.memo hmemo
  refine ⟨rfl, hmemo', ?_⟩
  exact (congrArg Prod.snd hanswer).trans (c.source.suggestionsFor_context text)

theorem offered (h : Fits s c) : Fits s (Desk.offered c) :=
  { h.offer (Desk.drilled c.filter) with }

theorem tabbed (h : Fits s c) : Fits s (Desk.tabbed c) := by
  unfold Desk.tabbed
  split
  · exact h.offered.offer _
  · exact h.offered

/-- After completing, what is offered is what is suggested for the filter as it stands then. -/
theorem tabbed_suggestions (h : Fits s c) :
    (Desk.tabbed c).suggestions = (s.suggestionsFor (Desk.tabbed c).filter).1 := by
  unfold Desk.tabbed
  split
  · exact h.offered.offer_suggestions _
  · exact h.offer_suggestions (Desk.drilled c.filter)

theorem settled (h : Fits s c) (text : Text) : Fits s (Desk.settled text c) :=
  setText (c := { c with mode := .normal, suggestions := [], selected := 0 }) { h with } text

/-- A filter that is run through the tables ends as it does without them. -/
theorem execute (h : Fits s c) (text : Text) (cancelled : Bool) :
    (Session.execute text cancelled c).1 =
        s.ending text (if cancelled then .cancelled else .live) ∧
      Fits s (Session.execute text cancelled c).2 := by
  obtain ⟨rfl, hmemo, hcontext⟩ := h
  obtain ⟨hanswer, hmemo', -⟩ := c.source.execute_answers text
    (if cancelled then .cancelled else .live) c.memo hmemo
  exact ⟨hanswer, rfl, hmemo', hcontext⟩

/-- The keys that are looked up through the tables are those of the path. -/
theorem keysAt (h : Fits s c) (path : Text) :
    (Session.keysAt path c).1 = s.keysOf path ∧ Fits s (Session.keysAt path c).2 := by
  obtain ⟨rfl, hmemo, hcontext⟩ := h
  obtain ⟨hanswer, hmemo', -⟩ := c.source.keysAt_answers path c.memo hmemo
  exact ⟨hanswer, rfl, hmemo', hcontext⟩

end Session.Fits

namespace Desk

open Dispatcher

variable {τ : Type}

/-! ### Sessions in order -/

/-- The background takes jobs, the session fits the source, and the answers that wait are those of
their paths. -/
structure InOrder (s : Source) (d : Desk τ) : Prop where
  shut : d.shut = false
  fits : d.client.Fits s
  answered : ∀ path answer, .keys path answer ∈ d.posted → answer = answerOf (s.keysOf path)

namespace InOrder

variable {s : Source} {d : Desk τ}

theorem ofSession [Time τ] (source : Source) (name : Text) (capacity : Int) (recording : Bool) :
    InOrder source (ofSession (Session.ofSource source name capacity) recording : Desk τ) where
  shut := rfl
  fits := .ofSource source name capacity
  answered := by simp [Desk.ofSession]

theorem edit (h : InOrder s d) {c : Session} (hc : c.Fits s) :
    InOrder s { d with client := c } :=
  { h with fits := hc }

theorem queue (h : InOrder s d) : InOrder s d.queue := { h with }

theorem fetched [Glyphs] (h : InOrder s d) : InOrder s (fetched d) := by
  rcases fetched_cases d with ⟨-, he⟩ | ⟨-, -, he⟩
  · rw [he]
    exact h
  · rw [he]
    exact { h with fits := { h.fits with } }

theorem complete [Glyphs] (h : InOrder s d) (i : Nat) : InOrder s (d.complete Session.hooks i) := by
  rcases complete_cases Session.hooks i d with
    ⟨-, he⟩ | ⟨job, seq, text, -, -, -, he⟩ | ⟨job, path, f, -, -, -, hf, he⟩
  · rw [he]
    exact h
  · obtain ⟨-, hfits⟩ := h.fits.execute text job.cancelled
    rw [he]
    refine { shut := h.shut, fits := hfits, answered := ?_ }
    intro p answer hp
    exact h.answered p answer (by simpa using hp)
  · obtain rfl := Option.some.inj hf
    obtain ⟨hanswer, hfits⟩ := h.fits.keysAt path
    rw [he]
    refine { shut := h.shut, fits := hfits, answered := ?_ }
    intro p answer hp
    rcases List.mem_append.mp hp with hp | hp
    · exact h.answered p answer hp
    · -- the answer that waits now is the one that has just been found
      obtain ⟨rfl, rfl⟩ := Callback.keys.inj (List.mem_singleton.mp hp)
      exact congrArg answerOf hanswer

variable [Time τ] [Glyphs]

theorem ran (h : InOrder s d) : InOrder s (ran d) := { h with }

theorem elapsed (h : InOrder s d) (seq : Int) : InOrder s (d.elapsed Session.hooks seq) := by
  unfold Dispatcher.elapsed
  split <;> exact { h with }

theorem fired (h : InOrder s d) (i : Nat) : InOrder s (d.fired Session.hooks i) := by
  unfold Dispatcher.fired
  split
  · exact elapsed (d := { d with alarms := d.alarms.eraseIdx i }) { h with } _
  · exact h

theorem delivered (h : InOrder s d) (i : Nat) : InOrder s (d.delivered Session.hooks i) := by
  have hrest : InOrder s { d with posted := d.posted.eraseIdx i } :=
    { h with
      answered := fun path answer hp => h.answered path answer (List.mem_of_mem_eraseIdx hp) }
  rcases delivered_cases Session.hooks i d with
    ⟨-, he⟩ | ⟨seq, -, he⟩ | ⟨seq, o, -, he⟩ | ⟨path, answer, -, he⟩
  · rw [he]
    exact h
  · rw [he]
    exact hrest.elapsed seq
  · rw [he]
    refine { shut := h.shut, fits := ?_, answered := hrest.answered }
    show (if d.commits seq o then Session.present o d.client else d.client).Fits s
    split
    · exact { h.fits with }
    · exact h.fits
  · rw [he]
    -- an answer for another path changes nothing
    refine { shut := h.shut, fits := ?_, answered := hrest.answered }
    show (if d.wants Session.hooks path then Session.takeKeys path answer.toOption d.client
      else d.client).Fits s
    split
    · exact { h.fits with }
    · exact h.fits

theorem hostNext (h : InOrder s d) (m : HostMove τ) : InOrder s (m.next d) := by
  rw [HostMove.next, Move.act_eq h.shut]
  cases m with
  | fire i => exact h.fired i
  | complete i => exact h.complete i
  | deliver i => exact h.delivered i
  | tick now => exact { h with }

theorem inputNext (h : InOrder s d) (i : Input) : InOrder s (i.next d) := by
  rcases hi : i.looks with - | -
  · cases i with
    | start =>
      rw [Input.next, start_eq h.shut]
      exact h.ran.fetched
    | setFilter text =>
      rw [Input.next, setFilter_eq h.shut]
      exact (h.edit (h.fits.setText text)).queue.fetched
    | tab =>
      rw [Input.next, tab_eq h.shut]
      split
      · exact (h.edit h.fits.tabbed).queue.fetched
      · exact h.edit h.fits.tabbed
    | accept =>
      rw [Input.next, accept_eq h.shut]
      split
      · exact (h.edit (h.fits.settled _)).ran.fetched
      · exact h
    | pickRecent text =>
      rw [Input.next, pickRecent_eq h.shut]
      exact (h.edit (c := { Session.setText text d.client with mode := .normal })
        { h.fits.setText text with }).ran.fetched
    | runNow text =>
      rw [Input.next, runNow_eq h.shut]
      exact (h.edit (h.fits.setText text)).ran
    | _ => cases hi
  · obtain ⟨mode, suggestions, selected, recent, x, y, width, store, -, he⟩ :=
      looks_frame (d := d) hi
    rw [he]
    exact h.edit { h.fits with }

/-- **Every happening keeps a session in order.** -/
theorem next (h : InOrder s d) (e : Happening τ) : InOrder s (e.next d) := by
  cases e with
  | input i => exact h.inputNext i
  | host m => exact h.hostNext m

end InOrder

/-- What a host may change in a session: the tables, the keys it lists, and the outcome it shows. -/
theorem hostNext_frame [Time τ] [Glyphs] {d : Desk τ} (hd : d.shut = false) (m : HostMove τ) :
    ∃ memo available keysPath outcome lines maxWidth x y,
      (m.next d).client =
        { d.client with memo, available, keysPath, outcome, lines, maxWidth, x, y } := by
  rw [HostMove.next, Move.act_eq hd]
  cases m with
  | fire i =>
    dsimp only [HostMove.move, Move.next]
    rcases fired_cases Session.hooks i d with ⟨-, he⟩ | ⟨-, he⟩ | ⟨seq, -, -, he⟩
    all_goals
      rw [he]
      exact ⟨_, _, _, _, _, _, _, _, rfl⟩
  | complete i =>
    obtain ⟨memo, jobs, posted, he⟩ := complete_keeps d i
    dsimp only [HostMove.move, Move.next]
    rw [he]
    exact ⟨_, _, _, _, _, _, _, _, rfl⟩
  | deliver i =>
    dsimp only [HostMove.move, Move.next]
    rcases delivered_cases Session.hooks i d with
      ⟨-, he⟩ | ⟨seq, -, he⟩ | ⟨seq, o, -, he⟩ | ⟨path, answer, -, he⟩
    · rw [he]
      exact ⟨_, _, _, _, _, _, _, _, rfl⟩
    · rw [he, Dispatcher.elapsed]
      split <;> exact ⟨_, _, _, _, _, _, _, _, rfl⟩
    · rw [he]
      cases d.commits seq o <;> exact ⟨_, _, _, _, _, _, _, _, rfl⟩
    · rw [he]
      cases d.wants Session.hooks path <;> exact ⟨_, _, _, _, _, _, _, _, rfl⟩
  | tick now => exact ⟨_, _, _, _, _, _, _, _, rfl⟩

/-! ### Runs with a memory -/

variable [Time τ] [Glyphs] {α : Type}

/-- What is remembered of a run, where `step` says what each happening makes of the memory. -/
def remembered (step : Happening τ → Desk τ → α → α) : List (Happening τ) → Desk τ → α → α
  | [], _, a => a
  | e :: rest, d, a => remembered step rest (e.next d) (step e d a)

/-- What each happening of a run keeps, the state together with the memory, the run keeps. -/
theorem remembered_after {step : Happening τ → Desk τ → α → α} {P : α → Desk τ → Prop}
    {es : List (Happening τ)}
    (hstep : ∀ e ∈ es, ∀ a d, P a d → P (step e d a) (e.next d)) {a : α} {d : Desk τ}
    (h : P a d) : P (remembered step es d a) (after es d) := by
  induction es generalizing a d with
  | nil => exact h
  | cons e rest ih =>
    have hfirst := hstep e List.mem_cons_self a d h
    exact ih (fun e' he' => hstep e' (List.mem_cons_of_mem e he')) hfirst

end Desk

end LiveQuery
