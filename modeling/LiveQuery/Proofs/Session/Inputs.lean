/-
LiveQuery/Proofs/Session/Inputs.lean

What may happen to a session: inputs, and what its host does.

Design.  An input is a command of the session, whatever it answers; one that raises a fault leaves
what it has done before.  The commands that concern a filter end alike: they mint a number, and
then request the keys of the context unless these are shown or awaited (`Desk.fetched`).  As long
as the background takes jobs, each such command is a function on the state.

Main results: the states that the commands leave which concern the filter (`start_eq`,
`setFilter_eq`, `tab_eq`, `accept_eq`, `pickRecent_eq`, `runNow_eq`); what the others may change
(`looks_frame`), which is not the query (`looks_next`); when keys are requested (`fetched_cases`);
and that all which happens to a session is moves of its dispatcher (`Leads.after`).
-/
import LiveQuery.Session.Commands
import LiveQuery.Proofs.Dispatch.Moves

namespace LiveQuery

namespace Desk

open Dispatcher

/-! ### Inputs and what the host does -/

/-- A command of a session. -/
inductive Input
  | start
  | setFilter (text : Text)
  | tab
  | cycle (step : Int)
  | select (i : Int)
  | accept
  | cancel
  | pickRecent (text : Text)
  | runNow (text : Text)
  | commit
  | scroll (dy : Int)
  | scrollAcross (dx : Int)
  | home
  | toEnd
  | resize (width : Int)
  | visibleRows (width : Option Int) (height : Int)

/-- What the host does on its own. -/
inductive HostMove (τ : Type)
  /-- The alarm at a position goes off. -/
  | fire (i : Nat)
  /-- The job at a position ends. -/
  | complete (i : Nat)
  /-- The completion at a position is delivered. -/
  | deliver (i : Nat)
  /-- The clock goes on. -/
  | tick (now : τ)

/-- What happens to a session. -/
inductive Happening (τ : Type)
  | input (i : Input)
  | host (m : HostMove τ)

variable {τ : Type} [Time τ] [Glyphs]

/-- The state that an input leaves. -/
def Input.next : Input → Desk τ → Desk τ
  | start, d => (Desk.start d).2
  | setFilter text, d => (Desk.setFilter text d).2
  | tab, d => (Desk.tab d).2
  | cycle step, d => (Desk.cycle step d).2
  | select i, d => (Desk.select i d).2
  | accept, d => (Desk.accept d).2
  | cancel, d => (Desk.cancelSuggestions d).2
  | pickRecent text, d => (Desk.pickRecent text d).2
  | runNow text, d => (Desk.runNow text d).2
  | commit, d => (Desk.commit d).2
  | scroll dy, d => (Desk.scroll dy d).2
  | scrollAcross dx, d => (Desk.scrollAcross dx d).2
  | home, d => (Desk.home d).2
  | toEnd, d => (Desk.toEnd d).2
  | resize width, d => (Desk.resize width d).2
  | visibleRows width height, d => (Desk.visibleRows width height d).2

omit [Time τ] in
/-- The move of a dispatcher that the host does. -/
def HostMove.move : HostMove τ → Move τ Session
  | fire i => .fire i
  | complete i => .complete i
  | deliver i => .deliver i
  | tick now => .tick now

/-- The state after something the host does. -/
def HostMove.next (m : HostMove τ) (d : Desk τ) : Desk τ := (m.move.act Session.hooks d).2

/-- The state after something has happened. -/
def Happening.next : Happening τ → Desk τ → Desk τ
  | input i, d => i.next d
  | host m, d => m.next d

/-- The state after all that has happened. -/
def after (hs : List (Happening τ)) (d : Desk τ) : Desk τ := hs.foldl (fun d h => h.next d) d

/-- The state after what the host has done. -/
def afterHost (ms : List (HostMove τ)) (d : Desk τ) : Desk τ := ms.foldl (fun d m => m.next d) d

/-! ### Commands as functions -/

/-- The state after the keys at the current path have been requested. -/
def fetched (d : Desk τ) : Desk τ :=
  if d.client.keysPath ≠ some d.client.currentPath ∧ d.awaited ≠ some d.client.currentPath then
    (d.onClient fun s => { s with available := [] }).requested Session.hooks d.client.currentPath
  else d

/-- The state after the filter has been run without a delay. -/
def ran (d : Desk τ) : Desk τ := d.mint.dispatched Session.hooks d.mint.minted

/-- The session while it is completed for the first time. -/
def offered (s : Session) : Session :=
  { Session.offer (drilled s.filter) s with mode := .completing, selected := 0 }

/-- The session after it has been completed. -/
def tabbed (s : Session) : Session :=
  match completed? (offered s) with
  | some text => Session.offer text (offered s)
  | none => offered s

/-- The filter with the selected suggestion, if the selection is among the suggestions. -/
def accepted? (s : Session) : Option Text :=
  if s.suggestions.isEmpty then some s.filter
  else (itemAt? s.suggestions s.selected).map (s.context.accept s.filter)

/-- The session after a text has been accepted. -/
def settled (text : Text) (s : Session) : Session :=
  Session.setText text { s with mode := .normal, suggestions := [], selected := 0 }

variable {d : Desk τ}

omit [Time τ] [Glyphs] in
theorem session_bind {α : Type} (f : Session → Command τ α) :
    (session >>= f) d = f d.client d := rfl

omit [Time τ] [Glyphs] in
theorem edit_bind {α : Type} (f : Session → Session) (g : Unit → Command τ α) :
    (edit f >>= g) d = g () (d.onClient f) := rfl

omit [Time τ] in
theorem fetchKeys_eq (hd : d.shut = false) : fetchKeys d = (.ok (), fetched d) := by
  unfold fetchKeys fetched
  rw [get_bind]
  split
  · exact requestKeys_eq (h := Session.hooks)
      (d := d.onClient fun s => { s with available := [] }) hd d.client.currentPath
  · rfl

theorem executeNow_eq (hd : d.shut = false) : executeNow Session.hooks d = (.ok (), ran d) :=
  Move.act_eq hd .executeNow

theorem start_eq (hd : d.shut = false) : start d = (.ok (), fetched (ran d)) := by
  unfold start
  rw [bind_ok (executeNow_eq hd)]
  exact fetchKeys_eq (d := ran d) hd

omit [Time τ] in
theorem setFilter_eq (hd : d.shut = false) (text : Text) :
    setFilter text d = (.ok (), fetched (d.onClient (Session.setText text)).queue) := by
  unfold setFilter
  rw [edit_bind, act_bind]
  exact fetchKeys_eq (d := (d.onClient (Session.setText text)).queue) hd

theorem runNow_eq (hd : d.shut = false) (text : Text) :
    runNow text d = (.ok (), ran (d.onClient (Session.setText text))) := by
  unfold runNow
  rw [edit_bind]
  exact executeNow_eq (d := d.onClient (Session.setText text)) hd

theorem pickRecent_eq (hd : d.shut = false) (text : Text) :
    pickRecent text d = (.ok (), fetched (ran (d.onClient fun s =>
      { Session.setText text s with mode := .normal }))) := by
  unfold pickRecent
  rw [edit_bind]
  exact start_eq (d := d.onClient fun s => { Session.setText text s with mode := .normal }) hd

/-- The end of completing: if the filter has become another, a run of it is on its way. -/
def tabEnd (before : Text) : Command τ (List Text) := do
  if (← session).filter ≠ before then
    act queue
    fetchKeys
  return (← session).suggestions

omit [Time τ] in
theorem tabEnd_eq (hd : d.shut = false) (before : Text) :
    (tabEnd before d).2 = if d.client.filter ≠ before then fetched d.queue else d := by
  unfold tabEnd
  rw [session_bind]
  split
  · rw [act_bind, bind_ok (fetchKeys_eq (d := d.queue) hd)]
    rfl
  · rfl

omit [Glyphs] in
theorem tabbed_of_some {s : Session} {text : Text} (h : completed? (offered s) = some text) :
    tabbed s = Session.offer text (offered s) := by
  simp [tabbed, h]

omit [Glyphs] in
theorem tabbed_of_none {s : Session} (h : completed? (offered s) = none) :
    tabbed s = offered s := by
  simp [tabbed, h]

omit [Time τ] in
/-- The filter is completed before anything is said of a run. -/
theorem tab_eq_tabEnd (d : Desk τ) : tab d = tabEnd d.client.filter (d.onClient tabbed) := by
  unfold tab
  rw [session_bind, edit_bind, session_bind]
  generalize hd' : d.onClient _ = d'
  have hoffered : d' = { d with client := offered d.client } := hd'.symm
  show _ = tabEnd d.client.filter { d with client := tabbed d.client }
  dsimp only
  rcases hc : completed? d'.client with - | text
  · rw [hoffered] at hc ⊢
    rw [tabbed_of_none hc]
    rfl
  · rw [hoffered] at hc ⊢
    rw [tabbed_of_some hc]
    rfl

omit [Time τ] in
/-- The filter is completed; if it has become another, a run of it is on its way. -/
theorem tab_eq (hd : d.shut = false) :
    (tab d).2 =
      if (tabbed d.client).filter ≠ d.client.filter then fetched (d.onClient tabbed).queue
      else d.onClient tabbed := by
  rw [tab_eq_tabEnd]
  exact tabEnd_eq (d := d.onClient tabbed) hd d.client.filter

/-! ### The request of a command -/

omit [Glyphs] in
theorem orRoot_currentPath (c : Session) : orRoot c.currentPath = c.currentPath := by
  unfold Session.currentPath
  split
  · rfl
  · next h => simp [orRoot, h]

omit [Time τ] in
/-- The keys of the context are requested unless they are shown or awaited, and the list is
emptied then. -/
theorem fetched_cases (d : Desk τ) :
    ((d.client.keysPath = some d.client.currentPath ∨ d.awaited = some d.client.currentPath) ∧
      fetched d = d) ∨
    (d.client.keysPath ≠ some d.client.currentPath ∧ d.awaited ≠ some d.client.currentPath ∧
      fetched d =
        { d with
          client := { d.client with available := [] }
          awaited := some d.client.currentPath
          jobs := d.jobs ++ [Job.mk (.lookUp d.client.currentPath) false false] }) := by
  by_cases h : d.client.keysPath = some d.client.currentPath ∨ d.awaited = some d.client.currentPath
  · exact .inl ⟨h, if_neg fun hn => h.elim hn.1 hn.2⟩
  · obtain ⟨hshown, hawaited⟩ := not_or.mp h
    refine .inr ⟨hshown, hawaited, (if_pos ⟨hshown, hawaited⟩).trans ((if_pos rfl).trans ?_)⟩
    rw [orRoot_currentPath]
    rfl

omit [Time τ] in
@[simp] theorem fetched_minted (d : Desk τ) : (fetched d).minted = d.minted := by
  rcases fetched_cases d with ⟨-, he⟩ | ⟨-, -, he⟩ <;> rw [he]

omit [Time τ] in
@[simp] theorem fetched_active (d : Desk τ) : (fetched d).active = d.active := by
  rcases fetched_cases d with ⟨-, he⟩ | ⟨-, -, he⟩ <;> rw [he]

omit [Time τ] in
@[simp] theorem fetched_filter (d : Desk τ) : (fetched d).client.filter = d.client.filter := by
  rcases fetched_cases d with ⟨-, he⟩ | ⟨-, -, he⟩ <;> rw [he]

omit [Time τ] in
@[simp] theorem fetched_suggestions (d : Desk τ) :
    (fetched d).client.suggestions = d.client.suggestions := by
  rcases fetched_cases d with ⟨-, he⟩ | ⟨-, -, he⟩ <;> rw [he]

/-! ### Accepting -/

/-- The selected suggestion is run at once and answered; a selection outside the suggestions raises
a fault and changes nothing. -/
theorem accept_run (hd : d.shut = false) :
    accept d =
      match accepted? d.client with
      | some text => (.ok text, fetched (ran (d.onClient (settled text))))
      | none => (.error .outOfRange, d) := by
  have hrun (text : Text) : (do
      cancelSuggestions
      edit (Session.setText text)
      executeNow Session.hooks
      fetchKeys
      return (← session).filter : Command τ Text) d =
      (.ok text, fetched (ran (d.onClient (settled text)))) := by
    unfold cancelSuggestions
    rw [edit_bind, edit_bind]
    show (executeNow Session.hooks >>= fun _ => fetchKeys >>= fun _ => session >>= fun s =>
      pure s.filter) (d.onClient (settled text)) = _
    rw [bind_ok (executeNow_eq (d := d.onClient (settled text)) hd),
      bind_ok (fetchKeys_eq (d := ran (d.onClient (settled text))) hd), session_bind]
    have hfilter : (fetched (ran (d.onClient (settled text)))).client.filter = text :=
      fetched_filter _
    exact congrArg (fun t => (Except.ok t, fetched (ran (d.onClient (settled text))))) hfilter
  unfold accept accepted?
  rw [session_bind]
  dsimp only
  split
  · exact hrun d.client.filter
  · rcases itemAt? d.client.suggestions d.client.selected with - | chosen
    · rfl
    · exact hrun (d.client.context.accept d.client.filter chosen)

/-- The selected suggestion is run at once; a selection outside the suggestions changes nothing. -/
theorem accept_eq (hd : d.shut = false) :
    (accept d).2 =
      match accepted? d.client with
      | some text => fetched (ran (d.onClient (settled text)))
      | none => d := by
  rw [accept_run hd]
  split <;> rfl

/-! ### Jobs that end -/

omit [Time τ] in
/-- A job that ends changes the tables of the session. -/
theorem complete_keeps (d : Desk τ) (i : Nat) :
    ∃ memo jobs posted, d.complete Session.hooks i =
      { d with client := { d.client with memo }, jobs, posted } := by
  rcases complete_cases Session.hooks i d with
    ⟨-, he⟩ | ⟨job, seq, t, -, -, -, he⟩ | ⟨job, path, f, -, -, -, hf, he⟩
  · exact ⟨_, _, _, he⟩
  · exact ⟨_, _, _, he⟩
  · obtain rfl := Option.some.inj hf
    exact ⟨_, _, _, he⟩

/-! ### Commands that leave the query alone -/

/-- Sessions that have the same filter, tables and outcome, and differ in what is seen of them. -/
structure SameQuery (s s' : Session) : Prop where
  source : s'.source = s.source
  memo : s'.memo = s.memo
  filter : s'.filter = s.filter
  outcome : s'.outcome = s.outcome
  lines : s'.lines = s.lines

omit [Glyphs] in
theorem SameQuery.refl (s : Session) : SameQuery s s := ⟨rfl, rfl, rfl, rfl, rfl⟩

omit [Glyphs] in
/-- Keys that are taken, if they are, leave the query as it is. -/
theorem SameQuery.takeKeys (taken : Bool) (path : Text) (keys : Option (List Text)) (s : Session) :
    SameQuery s (if taken then Session.takeKeys path keys s else s) := by
  split
  · exact ⟨rfl, rfl, rfl, rfl, rfl⟩
  · exact .refl s

/-- Whether an input changes only what is seen of a session. -/
def Input.looks : Input → Bool
  | start | setFilter _ | tab | accept | pickRecent _ | runNow _ => false
  | _ => true

/-- What an input that only looks may change: the mode, the selection, the recent filters and the
window.  One of them, the end of completing, takes the suggestions back. -/
theorem looks_frame {i : Input} (hi : i.looks = true) :
    ∃ mode suggestions selected recent x y width store,
      (suggestions = d.client.suggestions ∨ i = .cancel ∧ suggestions = []) ∧
      i.next d = d.onClient fun s =>
        { s with mode, suggestions, selected, recent, x, y, width, store } := by
  cases i with
  | start | setFilter _ | tab | accept | pickRecent _ | runNow _ => simp [Input.looks] at hi
  | select _ | scroll _ | scrollAcross _ | home | toEnd | resize _ =>
    exact ⟨_, _, _, _, _, _, _, _, .inl rfl, rfl⟩
  | cancel => exact ⟨_, _, _, _, _, _, _, _, .inr ⟨rfl, rfl⟩, rfl⟩
  | cycle step =>
    simp only [Input.next, Desk.cycle, session_bind]
    split <;> exact ⟨_, _, _, _, _, _, _, _, .inl rfl, rfl⟩
  | commit =>
    simp only [Input.next, Desk.commit, session_bind]
    rcases d.client.outcome with raw | e
    · dsimp only
      split <;> exact ⟨_, _, _, _, _, _, _, _, .inl rfl, rfl⟩
    · exact ⟨_, _, _, _, _, _, _, _, .inl rfl, rfl⟩
  | visibleRows width height =>
    rcases width with - | w
    · exact ⟨_, _, _, _, _, _, _, _, .inl rfl, rfl⟩
    · simp only [Input.next, Desk.visibleRows, session_bind]
      split <;> exact ⟨_, _, _, _, _, _, _, _, .inl rfl, rfl⟩

/-- What only looks at a session does not change its query. -/
theorem looks_next {i : Input} (hi : i.looks = true) :
    ∃ s, i.next d = { d with client := s } ∧ SameQuery d.client s := by
  obtain ⟨mode, suggestions, selected, recent, x, y, width, store, -, he⟩ := looks_frame (d := d) hi
  exact ⟨_, he, rfl, rfl, rfl, rfl, rfl⟩

/-! ### Happenings as moves -/

/-- Moves of the dispatcher lead from one state to the other. -/
def Leads (d d' : Desk τ) : Prop := ∃ ms : List (Move τ Session), d' = d.afterAll Session.hooks ms

namespace Leads

variable {d' : Desk τ}

theorem refl (d : Desk τ) : Leads d d := ⟨[], rfl⟩

theorem move (h : Leads d d') (m : Move τ Session) : Leads d (m.next Session.hooks d') := by
  obtain ⟨ms, rfl⟩ := h
  refine ⟨ms ++ [m], ?_⟩
  unfold afterAll
  rw [List.foldl_append]
  rfl

theorem edit (h : Leads d d') (f : Session → Session) : Leads d (d'.onClient f) := h.move (.edit f)

theorem queue (h : Leads d d') : Leads d d'.queue := h.move .queue

theorem ran (h : Leads d d') : Leads d (ran d') := h.move .executeNow

/-- A request of a command empties the list of keys first. -/
theorem fetched (h : Leads d d') : Leads d (fetched d') := by
  unfold Desk.fetched
  split
  · exact (h.edit _).move (.requestKeys _)
  · exact h

/-- What every move keeps is the same at both ends. -/
theorem keeps (h : Leads d d') {P : Desk τ → Prop}
    (hnext : ∀ d m, P d → P (Move.next Session.hooks m d)) (hP : P d) : P d' := by
  obtain ⟨ms, rfl⟩ := h
  induction ms generalizing d with
  | nil => exact hP
  | cons m rest ih => exact ih (hnext d m hP)

theorem shut (h : Leads d d') (hd : d.shut = false) : d'.shut = false :=
  h.keeps (P := fun d => d.shut = false) (fun _ m hP => (Move.next_shut m).trans hP) hd

/-- An input is some moves: changes of the session, and where it concerns the filter, a number that
is minted and keys that are requested. -/
theorem input (h : Leads d d') (hd : d'.shut = false) (i : Input) : Leads d (i.next d') := by
  rcases hi : i.looks with - | -
  · cases i with
    | start =>
      rw [Input.next, start_eq hd]
      exact h.ran.fetched
    | setFilter text =>
      rw [Input.next, setFilter_eq hd]
      exact (h.edit _).queue.fetched
    | tab =>
      rw [Input.next, tab_eq hd]
      split
      · exact (h.edit _).queue.fetched
      · exact h.edit _
    | accept =>
      rw [Input.next, accept_eq hd]
      split
      · exact (h.edit _).ran.fetched
      · exact h
    | pickRecent text =>
      rw [Input.next, pickRecent_eq hd]
      exact (h.edit _).ran.fetched
    | runNow text =>
      rw [Input.next, runNow_eq hd]
      exact (h.edit _).ran
    | _ => simp [Input.looks] at hi
  · obtain ⟨s, he, -⟩ := looks_next (d := d') hi
    rw [he]
    exact h.edit fun _ => s

theorem next (h : Leads d d') (hd : d'.shut = false) (e : Happening τ) : Leads d (e.next d') := by
  cases e with
  | input i => exact h.input hd i
  | host m =>
    show Leads d (m.move.act Session.hooks d').2
    rw [Move.act_eq hd]
    exact h.move m.move

/-- **As long as the background takes jobs, whatever happens is some moves.** -/
theorem after (h : Leads d d') (hd : d.shut = false) (es : List (Happening τ)) :
    Leads d (after es d') := by
  induction es generalizing d' with
  | nil => exact h
  | cons e rest ih => exact ih (h.next (h.shut hd) e)

end Leads

end Desk

end LiveQuery
