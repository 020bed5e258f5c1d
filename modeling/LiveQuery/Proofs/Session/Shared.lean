/-
LiveQuery/Proofs/Session/Shared.lean

Sessions that share their tables with somebody else.

Who else asks the tables adds entries to them between the commands of a session.  Two sessions that
are the same but for such entries go on alike: whatever happens, both answer the same and stay the
same but for their tables.

Design.  `Alike s c c'` says this of the states of sessions, and `Shares s d d'` of sessions with
their dispatchers; `Blind s op` says that an operation takes it along.  The predicate goes through
sequences and through what is read of a session other than its tables, so that the proofs follow the
text of the commands.  An operation that raises a fault does so in both, so that nothing is asked
here of the background, which may have been ended.

Main result: all that happens to a session is blind (`blind_happening`).
-/
import LiveQuery.Proofs.Memo.Answers
import LiveQuery.Proofs.Session.Inputs

namespace LiveQuery

/-! ### Sessions that differ in their tables -/

/-- Two sessions over the source that are the same but for their tables, and these are coherent. -/
structure Session.Alike (s : Source) (c c' : Session) : Prop where
  source : c.source = s
  coherent : c.memo.Coherent s
  other : ∃ memo : Memo, memo.Coherent s ∧ c' = { c with memo }

namespace Session.Alike

variable {s : Source} {c c' c'' : Session}

theorem refl (hs : c.source = s) (hm : c.memo.Coherent s) : Alike s c c := ⟨hs, hm, c.memo, hm, rfl⟩

theorem symm (h : Alike s c c') : Alike s c' c := by
  obtain ⟨hs, hm, memo, hm', rfl⟩ := h
  exact ⟨hs, hm', c.memo, hm, rfl⟩

theorem trans (h : Alike s c c') (h' : Alike s c' c'') : Alike s c c'' := by
  obtain ⟨hs, hm, memo, -, rfl⟩ := h
  obtain ⟨-, -, memo', hm', rfl⟩ := h'
  exact ⟨hs, hm, memo', hm', rfl⟩

/-- A change of other things than the tables. -/
theorem map (h : Alike s c c') (f : Session → Session)
    (hf : ∀ c memo, f { c with memo } = { f c with memo })
    (hsource : ∀ c, (f c).source = c.source) (hmemo : ∀ c, (f c).memo = c.memo) :
    Alike s (f c) (f c') := by
  obtain ⟨rfl, hm, memo, hm', rfl⟩ := h
  exact ⟨hsource c, (hmemo c).symm ▸ hm, memo, hm', hf c memo⟩

theorem setText (h : Alike s c c') (text : Text) :
    Alike s (c.setText text) (c'.setText text) := by
  obtain ⟨rfl, hm, memo, hm', rfl⟩ := h
  obtain ⟨hc, hcoherent, -⟩ := c.source.context_answers text c.memo hm
  obtain ⟨hc', hcoherent', -⟩ := c.source.context_answers text memo hm'
  refine ⟨rfl, hcoherent, _, hcoherent', ?_⟩
  show ({ c with
    filter := text
    context := (c.source.context text memo).1
    memo := (c.source.context text memo).2 } : Session) =
      { c with
        filter := text
        context := (c.source.context text c.memo).1
        memo := (c.source.context text memo).2 }
  rw [hc, hc']

theorem offer (h : Alike s c c') (text : Text) :
    Alike s (Desk.Session.offer text c) (Desk.Session.offer text c') := by
  obtain ⟨rfl, hm, memo, hm', rfl⟩ := h
  obtain ⟨ha, hcoherent, -⟩ := c.source.suggest_answers text c.memo hm
  obtain ⟨ha', hcoherent', -⟩ := c.source.suggest_answers text memo hm'
  refine ⟨rfl, hcoherent, _, hcoherent', ?_⟩
  show ({ c with
    filter := text
    suggestions := (c.source.suggest text memo).1.1
    context := (c.source.suggest text memo).1.2
    memo := (c.source.suggest text memo).2 } : Session) =
      { c with
        filter := text
        suggestions := (c.source.suggest text c.memo).1.1
        context := (c.source.suggest text c.memo).1.2
        memo := (c.source.suggest text memo).2 }
  rw [ha, ha']

theorem offered (h : Alike s c c') : Alike s (Desk.offered c) (Desk.offered c') := by
  obtain ⟨-, -, memo, -, rfl⟩ := id h
  exact (h.offer (Desk.drilled c.filter)).map
    (fun c => { c with mode := .completing, selected := 0 }) (fun _ _ => rfl) (fun _ => rfl)
    fun _ => rfl

theorem tabbed (h : Alike s c c') : Alike s (Desk.tabbed c) (Desk.tabbed c') := by
  have hcompleted : Desk.completed? (Desk.offered c') = Desk.completed? (Desk.offered c) := by
    obtain ⟨-, -, memo, -, he⟩ := h.offered
    rw [he]
    rfl
  unfold Desk.tabbed
  rw [hcompleted]
  split
  · exact h.offered.offer _
  · exact h.offered

/-- A filter that is run ends in the same way. -/
theorem execute (h : Alike s c c') (text : Text) (cancelled : Bool) :
    (c'.execute text cancelled).1 = (c.execute text cancelled).1 ∧
      Alike s (c.execute text cancelled).2 (c'.execute text cancelled).2 := by
  obtain ⟨rfl, hm, memo, hm', rfl⟩ := h
  have hanswers := c.source.execute_answers text (if cancelled then .cancelled else .live)
  obtain ⟨ha, hcoherent, -⟩ := hanswers c.memo hm
  obtain ⟨ha', hcoherent', -⟩ := hanswers memo hm'
  exact ⟨ha'.trans ha.symm, rfl, hcoherent, _, hcoherent', rfl⟩

/-- The keys at a path are the same. -/
theorem keysAt (h : Alike s c c') (path : Text) :
    (c'.keysAt path).1 = (c.keysAt path).1 ∧ Alike s (c.keysAt path).2 (c'.keysAt path).2 := by
  obtain ⟨rfl, hm, memo, hm', rfl⟩ := h
  obtain ⟨ha, hcoherent, -⟩ := c.source.keysAt_answers path c.memo hm
  obtain ⟨ha', hcoherent', -⟩ := c.source.keysAt_answers path memo hm'
  exact ⟨ha'.trans ha.symm, rfl, hcoherent, _, hcoherent', rfl⟩

end Session.Alike

namespace Desk

open Dispatcher

variable {τ : Type}

/-- Two sessions with their dispatchers that are the same but for their tables. -/
def Shares (s : Source) (d d' : Desk τ) : Prop :=
  ∃ c, d.client.Alike s c ∧ d' = { d with client := c }

namespace Shares

variable {s : Source} {d d' d'' : Desk τ}

theorem refl (hs : d.client.source = s) (hm : d.client.memo.Coherent s) : Shares s d d :=
  ⟨d.client, .refl hs hm, rfl⟩

theorem symm (h : Shares s d d') : Shares s d' d := by
  obtain ⟨c, hc, rfl⟩ := h
  exact ⟨d.client, hc.symm, rfl⟩

theorem trans (h : Shares s d d') (h' : Shares s d' d'') : Shares s d d'' := by
  obtain ⟨c, hc, rfl⟩ := h
  obtain ⟨c', hc', rfl⟩ := h'
  exact ⟨c', hc.trans hc', rfl⟩

end Shares

/-- An operation that does not see the tables: on two sessions that share their source it answers
the same, or raises the same fault, and leaves them so. -/
def Blind {α : Type} (s : Source) (op : Command τ α) : Prop :=
  ∀ d d', Shares s d d' → (op d').1 = (op d).1 ∧ Shares s (op d).2 (op d').2

namespace Blind

variable {α β : Type} {s : Source}

theorem pure (a : α) : Blind s (Pure.pure a : Command τ α) := fun _ _ h => ⟨rfl, h⟩

theorem throw (f : Fault) : Blind s (throw f : Command τ α) := fun _ _ h => ⟨rfl, h⟩

theorem bind {x : Command τ α} {f : α → Command τ β} (hx : Blind s x) (hf : ∀ a, Blind s (f a)) :
    Blind s (x >>= f) := by
  intro d d' h
  obtain ⟨hanswer, hshares⟩ := hx d d' h
  rcases hr : x d with ⟨e | a, d₁⟩ <;> rcases hr' : x d' with ⟨e' | a', d₁'⟩ <;>
    rw [hr, hr'] at hanswer hshares <;> cases hanswer
  · rw [bind_error hr, bind_error hr']
    exact ⟨rfl, hshares⟩
  · rw [bind_ok hr, bind_ok hr']
    exact hf a d₁ d₁' hshares

/-- What is read of a session other than its tables is the same. -/
theorem session {f : Session → Command τ α} (hf : ∀ c, Blind s (f c))
    (hsame : ∀ c memo, f { c with memo } = f c) : Blind s (session >>= f) := by
  intro d d' h
  obtain ⟨c, ⟨-, -, memo, -, rfl⟩, rfl⟩ := id h
  rw [session_bind, session_bind]
  dsimp only
  rw [hsame]
  exact hf d.client d _ h

/-- What is read of a dispatcher, and of its session other than the tables, is the same. -/
theorem get {f : Desk τ → Command τ α} (hf : ∀ d, Blind s (f d))
    (hsame : ∀ d memo, f { d with client := { d.client with memo } } = f d) :
    Blind s (get >>= f) := by
  intro d d' h
  obtain ⟨c, ⟨-, -, memo, -, rfl⟩, rfl⟩ := id h
  rw [get_bind, get_bind, hsame]
  exact hf d d _ h

theorem act {f : Desk τ → Desk τ} (hf : ∀ d d', Shares s d d' → Shares s (f d) (f d')) :
    Blind s (act f : Command τ Unit) := fun d d' h => ⟨rfl, hf d d' h⟩

/-- A change of the dispatcher alone. -/
theorem dispatcher {f : Desk τ → Desk τ}
    (hf : ∀ d c, f { d with client := c } = { f d with client := c })
    (hclient : ∀ d, (f d).client = d.client) : Blind s (Dispatcher.act f : Command τ Unit) := by
  rintro d _ ⟨c, hc, rfl⟩
  exact ⟨rfl, c, (hclient d).symm ▸ hc, hf d c⟩

theorem edit {f : Session → Session}
    (hf : ∀ c c', c.Alike s c' → (f c).Alike s (f c')) : Blind s (edit f : Command τ Unit) := by
  rintro d _ ⟨c, hc, rfl⟩
  exact ⟨rfl, f c, hf _ c hc, rfl⟩

/-- A change of a session that concerns neither its source nor its tables. -/
theorem change {f : Session → Session} (hf : ∀ c memo, f { c with memo } = { f c with memo })
    (hsource : ∀ c, (f c).source = c.source) (hmemo : ∀ c, (f c).memo = c.memo) :
    Blind s (Desk.edit f : Command τ Unit) :=
  .edit fun _ _ h => h.map f hf hsource hmemo

end Blind

/-! ### The dispatcher -/

variable {s : Source}

theorem blind_submit (task : Task) : Blind s (submit task : Command τ Unit) := by
  rintro d _ ⟨c, hc, rfl⟩
  unfold submit
  rw [get_bind, get_bind]
  dsimp only
  split
  · exact ⟨rfl, c, hc, rfl⟩
  · exact ⟨rfl, c, hc, rfl⟩

theorem blind_requestKeys [Glyphs] (path : Text) :
    Blind s (requestKeys Session.hooks path : Command τ Unit) := by
  unfold requestKeys
  split
  · exact .bind (.dispatcher (fun _ _ => rfl) fun _ => rfl) fun _ => blind_submit _
  · exact .pure _

theorem blind_fetchKeys [Glyphs] : Blind s (fetchKeys : Command τ Unit) := by
  unfold fetchKeys
  refine .get (fun d => ?_) fun _ _ => rfl
  dsimp only
  split
  · exact .bind (.change (fun _ _ => rfl) (fun _ => rfl) fun _ => rfl) fun _ => blind_requestKeys _
  · exact .pure _

variable [Time τ] [Glyphs]

theorem blind_dispatch (seq : Int) : Blind s (dispatch Session.hooks seq : Command τ Unit) := by
  have hrelease : Blind s (Dispatcher.act release : Command τ Unit) :=
    .dispatcher (fun d c => by rw [release_eq, release_eq]; rfl) fun d => by rw [release_eq]
  refine hrelease.bind fun _ => .bind (.dispatcher (fun _ _ => rfl) fun _ => rfl) fun _ => ?_
  exact .get (fun _ => blind_submit _) fun _ _ => rfl

omit [Time τ] [Glyphs] in
theorem blind_queue : Blind s (Dispatcher.act queue : Command τ Unit) :=
  .dispatcher (fun _ _ => rfl) fun _ => rfl

theorem blind_executeNow : Blind s (executeNow Session.hooks : Command τ Unit) := by
  refine .bind (.dispatcher (fun _ _ => rfl) fun _ => rfl) fun _ => ?_
  exact .get (fun _ => blind_dispatch _) fun _ _ => rfl

theorem blind_debounced (seq : Int) : Blind s (debounced Session.hooks seq : Command τ Unit) := by
  unfold debounced
  refine .get (fun d => ?_) fun _ _ => rfl
  split
  · exact blind_dispatch seq
  · exact .dispatcher (fun _ _ => rfl) fun _ => rfl

/-- A callback is answered alike. -/
theorem blind_react (c : Callback) : Blind s (react Session.hooks c : Command τ Unit) := by
  cases c with
  | debounce seq => exact blind_debounced seq
  | result seq o =>
    rintro d _ ⟨c, hc, rfl⟩
    refine ⟨rfl, ?_⟩
    show Shares s (d.takeResult Session.hooks seq o)
      (takeResult Session.hooks seq o { d with client := c })
    rw [takeResult_eq, takeResult_eq]
    have hcommits : commits { d with client := c } seq o = d.commits seq o := rfl
    rw [hcommits]
    refine ⟨_, ?_, rfl⟩
    split
    · exact hc.map (Session.present o) (fun _ _ => rfl) (fun _ => rfl) fun _ => rfl
    · exact hc
  | keys path answer =>
    rintro d _ ⟨c, hc, rfl⟩
    refine ⟨rfl, ?_⟩
    show Shares s (d.answerKeys Session.hooks path answer.toOption)
      (answerKeys Session.hooks path answer.toOption { d with client := c })
    rw [answerKeys_eq, answerKeys_eq]
    have hwants : wants Session.hooks { d with client := c } path = d.wants Session.hooks path := by
      obtain ⟨-, -, memo, -, rfl⟩ := hc
      rfl
    rw [hwants]
    refine ⟨_, ?_, rfl⟩
    split
    · exact hc.map (Session.takeKeys path answer.toOption) (fun _ _ => rfl) (fun _ => rfl)
        fun _ => rfl
    · exact hc

/-! ### What the host does -/

omit [Time τ] in
theorem blind_complete (i : Nat) :
    Blind s (Dispatcher.act (complete Session.hooks i) : Command τ Unit) := by
  rintro d _ ⟨c, hc, rfl⟩
  refine ⟨rfl, ?_⟩
  show Shares s (d.complete Session.hooks i) (complete Session.hooks i { d with client := c })
  unfold complete
  dsimp only
  rcases d.jobs[i]? with - | ⟨⟨seq, text⟩ | path, cancelled, - | -⟩
  -- of the jobs that are there, the ones that have not ended yet are told to
  case some.run.false =>
    obtain ⟨hanswer, halike⟩ := hc.execute text cancelled
    exact ⟨_, halike, congrArg (fun r => { d with
      client := (c.execute text cancelled).2
      jobs := d.jobs.set i ⟨.run seq text, r.2, true⟩
      posted := d.posted ++ [Callback.result seq (.ofRun r.1)] }) hanswer⟩
  case some.lookUp.false =>
    obtain ⟨hanswer, halike⟩ := hc.keysAt path
    exact ⟨_, halike, congrArg (fun r => { d with
      client := (c.keysAt path).2
      jobs := d.jobs.set i ⟨.lookUp path, cancelled, true⟩
      posted := d.posted ++ [Callback.keys path (answerOf r)] }) hanswer⟩
  all_goals exact ⟨c, hc, rfl⟩

theorem blind_fire (i : Nat) : Blind s (fire Session.hooks i : Command τ Unit) := by
  rintro d _ ⟨c, hc, rfl⟩
  unfold fire
  rw [get_bind, get_bind]
  dsimp only
  rcases d.alarms[i]? with - | seq
  · exact ⟨rfl, c, hc, rfl⟩
  · exact blind_react (.debounce seq) { d with alarms := d.alarms.eraseIdx i }
      { d with alarms := d.alarms.eraseIdx i, client := c } ⟨c, hc, rfl⟩

theorem blind_deliverAt (i : Nat) : Blind s (deliverAt Session.hooks i : Command τ Unit) := by
  rintro d _ ⟨c, hc, rfl⟩
  unfold deliverAt
  rw [get_bind, get_bind]
  dsimp only
  rcases d.posted[i]? with - | callback
  · exact ⟨rfl, c, hc, rfl⟩
  · exact blind_react callback { d with posted := d.posted.eraseIdx i }
      { d with posted := d.posted.eraseIdx i, client := c } ⟨c, hc, rfl⟩

theorem blind_hostMove (m : HostMove τ) : Blind s (m.move.act Session.hooks) := by
  cases m with
  | fire i => exact blind_fire i
  | complete i => exact blind_complete i
  | deliver i => exact blind_deliverAt i
  | tick now => exact .dispatcher (fun _ _ => rfl) fun _ => rfl

/-! ### Commands -/

theorem blind_start : Blind s (start : Command τ Unit) :=
  blind_executeNow.bind fun _ => blind_fetchKeys

omit [Time τ] [Glyphs] in
theorem blind_setText (text : Text) : Blind s (edit (Session.setText text) : Command τ Unit) :=
  .edit fun _ _ h => h.setText text

omit [Time τ] in
theorem blind_setFilter (text : Text) : Blind s (setFilter text : Command τ Unit) :=
  (blind_setText text).bind fun _ => blind_queue.bind fun _ => blind_fetchKeys

omit [Time τ] in
theorem blind_tab : Blind s (tab : Command τ (List Text)) := by
  rintro d _ ⟨c, hc, rfl⟩
  have hend (before : Text) : Blind s (tabEnd before : Command τ (List Text)) := by
    unfold tabEnd
    refine .session (fun c => ?_) fun _ _ => rfl
    have hlast : Blind s (do return (← session).suggestions : Command τ (List Text)) :=
      .session (fun _ => .pure _) fun _ _ => rfl
    split
    · exact blind_queue.bind fun _ => blind_fetchKeys.bind fun _ => hlast
    · exact hlast
  have hfilter : c.filter = d.client.filter := by
    obtain ⟨-, -, memo, -, rfl⟩ := hc
    rfl
  rw [tab_eq_tabEnd, tab_eq_tabEnd]
  dsimp only
  rw [hfilter]
  exact hend d.client.filter (d.onClient tabbed) { d with client := tabbed c } ⟨_, hc.tabbed, rfl⟩

omit [Time τ] [Glyphs] in
theorem blind_cycle (step : Int) : Blind s (cycle step : Command τ (Option Text)) := by
  refine .session (fun c => ?_) fun _ _ => rfl
  split
  · exact .pure _
  · exact .bind (.change (fun _ _ => rfl) (fun _ => rfl) fun _ => rfl) fun _ => .pure _

omit [Time τ] [Glyphs] in
theorem blind_cancelSuggestions : Blind s (cancelSuggestions : Command τ Unit) :=
  .change (fun _ _ => rfl) (fun _ => rfl) fun _ => rfl

theorem blind_accept : Blind s (accept : Command τ Text) := by
  have hrun (text : Text) : Blind s (do
      cancelSuggestions
      edit (Session.setText text)
      executeNow Session.hooks
      fetchKeys
      return (← session).filter : Command τ Text) :=
    blind_cancelSuggestions.bind fun _ => (blind_setText text).bind fun _ =>
      blind_executeNow.bind fun _ => blind_fetchKeys.bind fun _ =>
        .session (fun _ => .pure _) fun _ _ => rfl
  refine .session (fun c => ?_) fun _ _ => rfl
  dsimp only
  split
  · exact hrun c.filter
  · split
    · exact hrun _
    · exact .bind (.throw _) fun _ => hrun _

theorem blind_pickRecent (text : Text) : Blind s (pickRecent text : Command τ Unit) := by
  refine .bind (.edit fun c c' h => ?_) fun _ => blind_executeNow.bind fun _ => blind_fetchKeys
  exact (h.setText text).map (fun c => { c with mode := .normal }) (fun _ _ => rfl) (fun _ => rfl)
    fun _ => rfl

theorem blind_runNow (text : Text) : Blind s (runNow text : Command τ Unit) :=
  (blind_setText text).bind fun _ => blind_executeNow

omit [Time τ] [Glyphs] in
theorem blind_commit : Blind s (commit : Command τ (Option Text)) := by
  refine .session (fun c => ?_) fun _ _ => rfl
  split
  · exact .pure _
  · split
    · exact .pure _
    · exact .bind (.change (fun _ _ => rfl) (fun _ => rfl) fun _ => rfl) fun _ => .pure _

omit [Time τ] in
theorem blind_visibleRows (width : Option Int) (height : Int) :
    Blind s (visibleRows width height : Command τ (List Text)) := by
  have hrows : Blind s (do
      let c ← session
      let drawn := Display.rows ⟨c.x, c.y, c.width, height⟩ (!c.outcome.isOk) c.store c.lines
      edit fun c => { c with store := drawn.2 }
      return drawn.1 : Command τ (List Text)) := by
    refine .session (fun c => ?_) fun _ _ => rfl
    exact .bind (.change (fun _ _ => rfl) (fun _ => rfl) fun _ => rfl) fun _ => .pure _
  unfold visibleRows
  rcases width with - | w
  · exact hrows
  · dsimp only
    refine .session (fun c => ?_) fun _ _ => rfl
    split
    · exact .bind (.change (fun _ _ => rfl) (fun _ => rfl) fun _ => rfl) fun _ => hrows
    · exact hrows

/-! ### Happenings -/

/-- What a command answers. -/
inductive Reply
  | done
  | text (t : Option Text)
  | texts (ts : List Text)

/-- An input with its answer. -/
def Input.act : Input → Command τ Reply
  | start => do Desk.start; return .done
  | setFilter text => do Desk.setFilter text; return .done
  | tab => return .texts (← Desk.tab)
  | cycle step => return .text (← Desk.cycle step)
  | select i => do Desk.select i; return .done
  | accept => return .text (← Desk.accept)
  | cancel => do Desk.cancelSuggestions; return .done
  | pickRecent text => do Desk.pickRecent text; return .done
  | runNow text => do Desk.runNow text; return .done
  | commit => return .text (← Desk.commit)
  | scroll dy => do Desk.scroll dy; return .done
  | scrollAcross dx => do Desk.scrollAcross dx; return .done
  | home => do Desk.home; return .done
  | toEnd => do Desk.toEnd; return .done
  | resize width => do Desk.resize width; return .done
  | visibleRows width height => return .texts (← Desk.visibleRows width height)

/-- A happening with the answer to it. -/
def Happening.act : Happening τ → Command τ Reply
  | input i => i.act
  | host m => do m.move.act Session.hooks; return .done

theorem blind_input (i : Input) : Blind s (i.act : Command τ Reply) := by
  have hlook {f : Session → Session} (hf : ∀ c memo, f { c with memo } = { f c with memo })
      (hsource : ∀ c, (f c).source = c.source) (hmemo : ∀ c, (f c).memo = c.memo) :
      Blind s (do edit f; return .done : Command τ Reply) :=
    .bind (.change hf hsource hmemo) fun _ => .pure _
  cases i with
  | start => exact blind_start.bind fun _ => .pure _
  | setFilter text => exact (blind_setFilter text).bind fun _ => .pure _
  | tab => exact blind_tab.bind fun _ => .pure _
  | cycle step => exact (blind_cycle step).bind fun _ => .pure _
  | accept => exact blind_accept.bind fun _ => .pure _
  | pickRecent text => exact (blind_pickRecent text).bind fun _ => .pure _
  | runNow text => exact (blind_runNow text).bind fun _ => .pure _
  | commit => exact blind_commit.bind fun _ => .pure _
  | visibleRows width height => exact (blind_visibleRows width height).bind fun _ => .pure _
  | select _ | cancel | scroll _ | scrollAcross _ | home | toEnd | resize _ =>
    exact hlook (fun _ _ => rfl) (fun _ => rfl) fun _ => rfl

/-- **All that happens to a session is blind** to what others add to its tables. -/
theorem blind_happening (h : Happening τ) : Blind s h.act := by
  cases h with
  | input i => exact blind_input i
  | host m => exact (blind_hostMove m).bind fun _ => .pure _

end Desk

end LiveQuery
