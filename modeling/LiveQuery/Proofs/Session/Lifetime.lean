/-
LiveQuery/Proofs/Session/Lifetime.lean

What is true of a session all through its life, the end of its background included.

After the end a command that hands a job over raises a fault and leaves what it has done before:
the filter has been changed then, and a number has been minted for it.  So what is said here is
said of the state that a command leaves, whatever it answers or raises.

Design.  The runs that have been handed over are listed with their texts (`runs`), and none of them
is ever forgotten.  `Accounted s last? d` traces what is displayed, and each result that waits, back
to a run in this list; `last?` is the number of the result that is displayed, which is no part of
the state and is kept beside it (`lastShown`).  A command changes the filter before it mints a
number for it, so that in between the newest number may have a run of another text.  `UpToDate`
adds that it has not: minting restores this, since a number that has just been minted has no run
yet.

Main results: every occurrence keeps a session up to date (`UpToDate.next`), and so a life does
(`upToDate_lived`).
-/
import LiveQuery.Proofs.Dispatch.Ended
import LiveQuery.Proofs.Session.Upkeep

namespace LiveQuery

/-- The number and the text of a run. -/
def Task.run? : Task → Option (Int × Text)
  | run seq text => some (seq, text)
  | lookUp _ => none

namespace Desk

open Dispatcher

variable {τ : Type}

/-! ### Lives -/

/-- What may happen in the life of a session: its background may be ended, too. -/
inductive Occurrence (τ : Type)
  | happens (e : Happening τ)
  | ends

section

variable [Time τ] [Glyphs]

/-- The state after an occurrence. -/
def Occurrence.next : Occurrence τ → Desk τ → Desk τ
  | happens e, d => e.next d
  | ends, d => d.shutDown

/-- The number of the result that is displayed after an occurrence. -/
def Occurrence.shown : Occurrence τ → Desk τ → Option Int → Option Int
  | happens (.host (.deliver i)), d, last? =>
    match d.posted[i]? with
    | some (.result seq o) => if d.commits seq o then some seq else last?
    | _ => last?
  | _, _, last? => last?

/-- The state after a life. -/
def lived (os : List (Occurrence τ)) (d : Desk τ) : Desk τ := os.foldl (fun d o => o.next d) d

/-- The number of the result that is displayed after a life. -/
def lastShown : List (Occurrence τ) → Desk τ → Option Int → Option Int
  | [], _, last? => last?
  | o :: rest, d, last? => lastShown rest (o.next d) (o.shown d last?)

end

/-- The runs that have been handed over, with their numbers. -/
def runs (d : Desk τ) : List (Int × Text) := d.jobs.filterMap fun j => j.task.run?

/-- A job that is cancelled is the run that it was. -/
theorem runs_releasedJobs (d : Desk τ) :
    (d.releasedJobs.filterMap fun j => j.task.run?) = d.runs :=
  filterMap_releasedJobs (fun _ => rfl) d

/-- A job that ends is the run that it was. -/
theorem runs_set {d : Desk τ} {i : Nat} {job job' : Job} (hj : d.jobs[i]? = some job)
    (ht : job'.task = job.task) :
    ((d.jobs.set i job').filterMap fun j => j.task.run?) = d.runs :=
  filterMap_set hj (congrArg Task.run? ht)

/-! ### Commands, whether or not the background takes jobs -/

section

variable {α β : Type} {P : Desk τ → Prop} {d : Desk τ}

/-- What holds after an operation holds in the end if what follows keeps it; a fault leaves out
what follows. -/
theorem kept_bind {x : Command τ α} {f : α → Command τ β} (hx : P (x d).2)
    (hf : ∀ a d, P d → P (f a d).2) : P ((x >>= f) d).2 := by
  rcases hr : x d with ⟨e | a, d'⟩
  · rw [hr] at hx
    rw [bind_error hr]
    exact hx
  · rw [hr] at hx
    rw [bind_ok hr]
    exact hf a d' hx

/-- A request for keys may empty the list of keys, and hands over lookups at most. -/
theorem fetchKeys_frame [Glyphs] (d : Desk τ) :
    ∃ available awaited lookUps, (∀ j ∈ lookUps, j.task.run? = none) ∧
      (fetchKeys d).2 =
        { d with client := { d.client with available }, awaited, jobs := d.jobs ++ lookUps } := by
  have hnone : ∃ available awaited lookUps, (∀ j ∈ lookUps, j.task.run? = none) ∧
      d = { d with client := { d.client with available }, awaited, jobs := d.jobs ++ lookUps } :=
    ⟨d.client.available, d.awaited, [], by simp, by rw [List.append_nil]⟩
  rcases d.shut.eq_false_or_eq_true with hd | hd
  · unfold fetchKeys
    rw [get_bind]
    dsimp only
    split
    · -- the list has been emptied when the lookup is refused
      refine ⟨[], some (orRoot d.client.currentPath), [], by simp, ?_⟩
      rw [edit_bind, requestKeys_ended (d := d.onClient _) hd, List.append_nil]
      rfl
    · exact hnone
  · rw [fetchKeys_eq hd]
    rcases fetched_cases d with ⟨-, he⟩ | ⟨-, -, he⟩
    · exact he.symm ▸ hnone
    · exact ⟨[], _, [Job.mk (.lookUp d.client.currentPath) false false], by simp [Task.run?], he⟩

variable [Time τ] [Glyphs]

/-- A run is handed over, or refused. -/
theorem dispatch_cases (seq : Int) (d : Desk τ) :
    (dispatch Session.hooks seq d).2 = d.dispatched Session.hooks seq ∨
      (dispatch Session.hooks seq d).2 = d.refused seq := by
  rcases hd : d.shut with - | -
  · exact .inl (congrArg Prod.snd (dispatch_eq hd seq))
  · exact .inr (congrArg Prod.snd (dispatch_ended hd seq))

/-- An alarm that goes off dispatches the newest number, if it is its own. -/
theorem fire_frame (i : Nat) (d : Desk τ) :
    ∃ alarms latency, (fire Session.hooks i d).2 = { d with alarms, latency } ∨
      (fire Session.hooks i d).2 =
        (dispatch Session.hooks d.minted { d with alarms, latency }).2 := by
  unfold fire
  rw [get_bind]
  rcases d.alarms[i]? with - | seq
  · exact ⟨_, _, .inl rfl⟩
  · dsimp only
    rw [set_bind]
    show ∃ alarms latency, (debounced Session.hooks seq _).2 = _ ∨
      (debounced Session.hooks seq _).2 = _
    unfold debounced
    rw [get_bind]
    split
    · next hseq =>
      rw [hseq]
      exact ⟨_, _, .inr rfl⟩
    · exact ⟨_, _, .inl rfl⟩

theorem deliverAt_state (hd : ∀ seq, .debounce seq ∉ d.posted) (i : Nat) :
    (deliverAt Session.hooks i d).2 = d.delivered Session.hooks i := by
  rcases hs : d.shut with - | -
  · rw [deliverAt_eq hs]
  · rw [deliverAt_ended ⟨hs, hd⟩]

/-- What only looks at a session keeps as many recent filters as before. -/
theorem looks_limit {i : Input} (hi : i.looks = true) :
    (i.next d).client.recent.limit = d.client.recent.limit := by
  cases i with
  | start | setFilter _ | tab | accept | pickRecent _ | runNow _ => simp [Input.looks] at hi
  | select _ | scroll _ | scrollAcross _ | home | toEnd | resize _ | cancel => rfl
  | cycle step =>
    simp only [Input.next, Desk.cycle, session_bind]
    split <;> rfl
  | commit =>
    simp only [Input.next, Desk.commit, session_bind]
    rcases d.client.outcome with raw | e
    · dsimp only
      split
      · rfl
      · exact d.client.recent.limit_add d.client.filter
    · rfl
  | visibleRows width height =>
    rcases width with - | w
    · rfl
    · simp only [Input.next, Desk.visibleRows, session_bind]
      split <;> rfl

end

/-- What completing changes of a session. -/
theorem tabbed_frame (c : Session) :
    ∃ filter suggestions context memo, tabbed c =
      { c with filter, suggestions, context, memo, mode := .completing, selected := 0 } := by
  unfold tabbed
  split <;> exact ⟨_, _, _, _, rfl⟩

/-! ### What the runs account for -/

/-- What is displayed, and what waits to be, are the outcomes of runs that were handed over.  Each
number has been minted before its run was, and has one text. -/
structure Accounted (s : Source) (last? : Option Int) (d : Desk τ) : Prop where
  fits : d.client.Fits s
  limit_pos : 0 < d.client.recent.limit
  no_debounce : ∀ seq, .debounce seq ∉ d.posted
  run_le : ∀ seq text, (seq, text) ∈ d.runs → seq ≤ d.minted
  run_inj : ∀ seq text text', (seq, text) ∈ d.runs → (seq, text') ∈ d.runs → text' = text
  posted : ∀ seq o, .result seq o ∈ d.posted → o.isCancelled = false →
    ∃ text, (seq, text) ∈ d.runs ∧ o = .ofRun (s.ending text .live).1
  unshown : last? = none → d.client.outcome = .output []
  shown : ∀ seq, last? = some seq →
    ∃ text, (seq, text) ∈ d.runs ∧ d.client.outcome = .ofRun (s.ending text .live).1

/-- A run of the newest number, if there is one, is of the filter as it stands. -/
structure UpToDate (s : Source) (last? : Option Int) (d : Desk τ) : Prop
    extends Accounted s last? d where
  newest : ∀ text, (d.minted, text) ∈ d.runs → text = d.client.filter

theorem upToDate_ofSession [Time τ] (source : Source) (name : Text) (capacity : Int)
    (recording : Bool) :
    UpToDate source none
      (ofSession (Session.ofSource source name capacity) recording : Desk τ) where
  fits := .ofSource source name capacity
  limit_pos := show (0 : Int) < 50 by decide
  no_debounce := by simp [ofSession]
  run_le := by simp [ofSession, runs]
  run_inj := by simp [ofSession, runs]
  posted := by simp [ofSession]
  unshown := fun _ => rfl
  shown := by simp
  newest := by simp [ofSession, runs]

variable {s : Source} {last? : Option Int} {d : Desk τ}

namespace Accounted

/-- The client alone is changed, and displays what it did. -/
theorem edit (h : Accounted s last? d) {c : Session} (hfits : c.Fits s)
    (hlimit : c.recent.limit = d.client.recent.limit) (houtcome : c.outcome = d.client.outcome) :
    Accounted s last? { d with client := c } :=
  { h with
    fits := hfits
    limit_pos := hlimit ▸ h.limit_pos
    unshown := fun hn => houtcome.trans (h.unshown hn)
    shown := fun seq hs => houtcome ▸ h.shown seq hs }

theorem setText (h : Accounted s last? d) (text : Text) :
    Accounted s last? (d.onClient (Session.setText text)) :=
  h.edit (h.fits.setText text) rfl rfl

theorem settled (h : Accounted s last? d) (text : Text) :
    Accounted s last? (d.onClient (settled text)) :=
  h.edit (h.fits.settled text) rfl rfl

theorem tabbed (h : Accounted s last? d) : Accounted s last? (d.onClient tabbed) := by
  obtain ⟨filter, suggestions, context, memo, he⟩ := tabbed_frame d.client
  exact h.edit h.fits.tabbed (by rw [he]) (by rw [he])

/-- The runs stay what they were, and nothing new is posted. -/
theorem same (h : Accounted s last? d) {d' : Desk τ} (hclient : d'.client = d.client)
    (hminted : d.minted ≤ d'.minted) (hposted : d'.posted = d.posted) (hruns : d'.runs = d.runs) :
    Accounted s last? d' where
  fits := hclient ▸ h.fits
  limit_pos := hclient ▸ h.limit_pos
  no_debounce := hposted ▸ h.no_debounce
  run_le := fun seq text hr => Int.le_trans (h.run_le seq text (hruns ▸ hr)) hminted
  run_inj := hruns ▸ h.run_inj
  posted := hruns ▸ hposted ▸ h.posted
  unshown := hclient ▸ h.unshown
  shown := hruns ▸ hclient ▸ h.shown

/-- A number that is minted has no run yet. -/
theorem of_minted (h : Accounted s last? d) {d' : Desk τ} (hclient : d'.client = d.client)
    (hminted : d'.minted = d.minted + 1) (hposted : d'.posted = d.posted)
    (hruns : d'.runs = d.runs) : UpToDate s last? d' :=
  { h.same hclient (by omega) hposted hruns with
    newest := fun text hr => by
      have hle := h.run_le _ text (hruns ▸ hr)
      omega }

theorem mint (h : Accounted s last? d) : UpToDate s last? d.mint := h.of_minted rfl rfl rfl rfl

theorem queue (h : Accounted s last? d) : UpToDate s last? d.queue := h.of_minted rfl rfl rfl rfl

end Accounted

namespace UpToDate

/-- The client alone is changed; it displays what it did, and has the filter that it had. -/
theorem edit (h : UpToDate s last? d) {c : Session} (hfits : c.Fits s)
    (hlimit : c.recent.limit = d.client.recent.limit) (houtcome : c.outcome = d.client.outcome)
    (hfilter : c.filter = d.client.filter) : UpToDate s last? { d with client := c } :=
  { h.toAccounted.edit hfits hlimit houtcome with
    newest := fun text hr => (h.newest text hr).trans hfilter.symm }

/-- The runs stay what they were, and nothing new is posted. -/
theorem same (h : UpToDate s last? d) {d' : Desk τ} (hclient : d'.client = d.client)
    (hminted : d'.minted = d.minted) (hposted : d'.posted = d.posted) (hruns : d'.runs = d.runs) :
    UpToDate s last? d' :=
  { h.toAccounted.same hclient (Int.le_of_eq hminted.symm) hposted hruns with
    newest := hruns ▸ hminted ▸ hclient ▸ h.newest }

theorem fetchKeys [Glyphs] (h : UpToDate s last? d) : UpToDate s last? (fetchKeys d).2 := by
  obtain ⟨available, awaited, lookUps, hnone, he⟩ := fetchKeys_frame d
  have hruns : runs (Desk.fetchKeys d).2 = d.runs := by
    rw [he]
    refine List.filterMap_append.trans ?_
    rw [List.filterMap_eq_nil_iff.mpr hnone, List.append_nil]
    rfl
  have hcleared := h.edit (c := { d.client with available }) { h.fits with } rfl rfl rfl
  exact hcleared.same (by rw [he]) (by rw [he]) (by rw [he]) hruns

variable [Time τ] [Glyphs]

/-- A run of the filter joins those that are accounted for. -/
theorem dispatched (h : UpToDate s last? d) :
    UpToDate s last? (d.dispatched Session.hooks d.minted) := by
  have hruns : runs (d.dispatched Session.hooks d.minted) =
      d.runs ++ [(d.minted, d.client.filter)] :=
    List.filterMap_append.trans (congrArg (· ++ _) (runs_releasedJobs d))
  have hmem (seq : Int) (text : Text)
      (hr : (seq, text) ∈ runs (d.dispatched Session.hooks d.minted)) :
      (seq, text) ∈ d.runs ∨ seq = d.minted ∧ text = d.client.filter := by
    simpa [hruns] using hr
  have hold (seq : Int) (text : Text) (hr : (seq, text) ∈ d.runs) :
      (seq, text) ∈ runs (d.dispatched Session.hooks d.minted) := by
    rw [hruns]
    exact List.mem_append_left _ hr
  -- a run that the newest number had before is one of the filter, too
  have hnewest (text : Text) (hr : (d.minted, text) ∈ runs (d.dispatched Session.hooks d.minted)) :
      text = d.client.filter :=
    (hmem d.minted text hr).elim (h.newest text) And.right
  refine
    { fits := h.fits
      limit_pos := h.limit_pos
      no_debounce := h.no_debounce
      run_le := ?_
      run_inj := ?_
      posted := ?_
      unshown := h.unshown
      shown := ?_
      newest := hnewest }
  · intro seq text hr
    rcases hmem seq text hr with hr | ⟨rfl, -⟩
    · exact h.run_le seq text hr
    · exact Int.le_refl _
  · intro seq text text' hr hr'
    by_cases hseq : seq = d.minted
    · subst hseq
      rw [hnewest text hr, hnewest text' hr']
    · -- the new run has another number
      have hr := (hmem seq text hr).resolve_right fun hn => hseq hn.1
      have hr' := (hmem seq text' hr').resolve_right fun hn => hseq hn.1
      exact h.run_inj seq text text' hr hr'
  · intro seq o ho hc
    obtain ⟨text, hr, he⟩ := h.posted seq o ho hc
    exact ⟨text, hold seq text hr, he⟩
  · intro seq hs
    obtain ⟨text, hr, he⟩ := h.shown seq hs
    exact ⟨text, hold seq text hr, he⟩

/-- A run that is refused is none. -/
theorem dispatch (h : UpToDate s last? d) :
    UpToDate s last? (dispatch Session.hooks d.minted d).2 := by
  rcases dispatch_cases d.minted d with he | he
  · rw [he]
    exact h.dispatched
  · rw [he]
    exact h.same rfl rfl rfl (runs_releasedJobs d)

/-! ### What the host does -/

theorem fire (h : UpToDate s last? d) (i : Nat) : UpToDate s last? (fire Session.hooks i d).2 := by
  obtain ⟨alarms, latency, he | he⟩ := fire_frame i d
  · rw [he]
    exact h.same rfl rfl rfl rfl
  · rw [he]
    exact dispatch (d := { d with alarms, latency }) (h.same rfl rfl rfl rfl)

omit [Time τ] [Glyphs] in
/-- A completion is posted; if it is a result, its run accounts for it. -/
theorem post (h : UpToDate s last? d) {completion : Callback}
    (hdebounce : ∀ seq, completion ≠ .debounce seq)
    (hresult : ∀ seq o, completion = .result seq o → o.isCancelled = false →
      ∃ text, (seq, text) ∈ d.runs ∧ o = .ofRun (s.ending text .live).1) :
    UpToDate s last? { d with posted := d.posted ++ [completion] } :=
  { h with
    no_debounce := by
      intro seq hc
      rcases List.mem_append.mp hc with hc | hc
      · exact h.no_debounce seq hc
      · exact hdebounce seq (List.mem_singleton.mp hc).symm
    posted := by
      intro seq o ho hc
      rcases List.mem_append.mp ho with ho | ho
      · exact h.posted seq o ho hc
      · exact hresult seq o (List.mem_singleton.mp ho).symm hc }

omit [Time τ] in
/-- The result of a job is the outcome of its run. -/
theorem complete (h : UpToDate s last? d) (i : Nat) :
    UpToDate s last? (d.complete Session.hooks i) := by
  rcases complete_cases Session.hooks i d with
    ⟨-, he⟩ | ⟨job, seq, text, hj, -, ht, he⟩ | ⟨job, path, f, hj, -, -, hf, he⟩
  · rw [he]
    exact h
  · obtain ⟨hanswer, hfits⟩ := h.fits.execute text job.cancelled
    have hi : i < d.jobs.length := (List.getElem?_eq_some_iff.mp hj).1
    have hended : UpToDate s last?
        { d with
          client := (Session.execute text job.cancelled d.client).2
          jobs := d.jobs.set i { job with
            cancelled := (Session.execute text job.cancelled d.client).1.2, ended := true } } :=
      (h.edit hfits rfl rfl rfl).same rfl rfl rfl (runs_set hj rfl)
    rw [he]
    refine hended.post nofun ?_
    intro seq' o hresult hc
    obtain ⟨rfl, rfl⟩ := Callback.result.inj hresult
    refine ⟨text, List.mem_filterMap.mpr ⟨_, List.mem_set hi _, congrArg Task.run? ht⟩, ?_⟩
    -- the run was live, or its outcome would be a cancellation
    change (Outcome.ofRun (Session.execute text job.cancelled d.client).1.1).isCancelled = false
      at hc
    show Outcome.ofRun (Session.execute text job.cancelled d.client).1.1 = _
    rw [hanswer] at hc ⊢
    cases hlive : job.cancelled with
    | false => rfl
    | true =>
      rw [hlive] at hc
      cases hc
  · obtain rfl := Option.some.inj hf
    have hended : UpToDate s last?
        { d with
          client := (Session.keysAt path d.client).2
          jobs := d.jobs.set i { job with ended := true } } :=
      (h.edit (h.fits.keysAt path).2 rfl rfl rfl).same rfl rfl rfl (runs_set hj rfl)
    rw [he]
    exact hended.post nofun nofun

/-- A result that is committed is displayed from now on. -/
theorem deliver (h : UpToDate s last? d) (i : Nat) :
    UpToDate s (Occurrence.shown (.happens (.host (.deliver i))) d last?)
      (deliverAt Session.hooks i d).2 := by
  rw [deliverAt_state h.no_debounce]
  have hrest : UpToDate s last? { d with posted := d.posted.eraseIdx i } :=
    { h with
      no_debounce := no_debounce_eraseIdx h.no_debounce i
      posted := fun seq o ho => h.posted seq o (List.mem_of_mem_eraseIdx ho) }
  rcases delivered_cases Session.hooks i d with
    ⟨hi, he⟩ | ⟨seq, hi, -⟩ | ⟨seq, o, hi, he⟩ | ⟨path, answer, hi, he⟩
  · rw [he, Occurrence.shown, hi]
    exact h
  · exact absurd (List.mem_of_getElem? hi) (h.no_debounce seq)
  · rw [he, Occurrence.shown, hi]
    dsimp only
    split
    · next hc =>
      have hlive : o.isCancelled = false := by
        rw [commits, Bool.and_eq_true, Bool.not_eq_true'] at hc
        exact hc.2
      obtain ⟨text, hr, ho⟩ := h.posted seq o (List.mem_of_getElem? hi) hlive
      exact
        { hrest with
          fits := { h.fits with }
          unshown := nofun
          shown := by
            intro seq' hs
            obtain rfl := Option.some.inj hs
            exact ⟨text, hr, ho⟩ }
    · exact { hrest with }
  · rw [he, Occurrence.shown, hi]
    dsimp only
    split
    · exact { hrest with fits := { h.fits with } }
    · exact { hrest with }

theorem hostNext (h : UpToDate s last? d) (m : HostMove τ) :
    UpToDate s (Occurrence.shown (.happens (.host m)) d last?) (m.next d) := by
  cases m with
  | fire i => exact h.fire i
  | complete i => exact h.complete i
  | deliver i => exact h.deliver i
  | tick now => exact { h with }

end UpToDate

/-! ### What the inputs do -/

section

variable [Time τ] [Glyphs]

theorem Accounted.executeNow (h : Accounted s last? d) :
    UpToDate s last? (executeNow Session.hooks d).2 := h.mint.dispatch

/-- A filter that has been changed is run at once. -/
theorem Accounted.start (h : Accounted s last? d) : UpToDate s last? (start d).2 :=
  kept_bind h.executeNow fun _ _ h => h.fetchKeys

omit [Time τ] in
/-- A filter that has become another one has a number of its own; one that has not needs none. -/
theorem UpToDate.tab (h : UpToDate s last? d) : UpToDate s last? (tab d).2 := by
  rw [tab_eq_tabEnd, tabEnd, session_bind]
  split
  · rw [act_bind]
    exact kept_bind h.toAccounted.tabbed.queue.fetchKeys fun _ _ h => h
  · -- no number is minted, and none is missing
    next hsame =>
    exact { h.toAccounted.tabbed with
      newest := fun text hr => (h.newest text hr).trans (not_not.mp hsame).symm }

theorem UpToDate.accept (h : UpToDate s last? d) : UpToDate s last? (accept d).2 := by
  have hrun (text : Text) : UpToDate s last? ((do
      cancelSuggestions
      Desk.edit (Session.setText text)
      executeNow Session.hooks
      Desk.fetchKeys
      return (← session).filter : Command τ Text) d).2 := by
    unfold cancelSuggestions
    rw [edit_bind, edit_bind]
    refine kept_bind (h.toAccounted.settled text).executeNow fun _ _ h => ?_
    exact kept_bind h.fetchKeys fun _ _ h => h
  unfold Desk.accept
  rw [session_bind]
  dsimp only
  split
  · exact hrun d.client.filter
  · rcases itemAt? d.client.suggestions d.client.selected with - | chosen
    · exact h
    · exact hrun (d.client.context.accept d.client.filter chosen)

theorem UpToDate.inputNext (h : UpToDate s last? d) (i : Input) :
    UpToDate s last? (i.next d) := by
  rcases hi : i.looks with - | -
  · cases i with
    | start => exact h.toAccounted.start
    | setFilter text => exact (h.toAccounted.setText text).queue.fetchKeys
    | tab => exact h.tab
    | accept => exact h.accept
    | pickRecent text =>
      exact (h.toAccounted.edit (c := { Session.setText text d.client with mode := .normal })
        { h.fits.setText text with } rfl rfl).start
    | runNow text => exact (h.toAccounted.setText text).executeNow
    | _ => cases hi
  · obtain ⟨mode, suggestions, selected, recent, x, y, width, store, -, he⟩ :=
      looks_frame (d := d) hi
    have hlimit := looks_limit (d := d) hi
    rw [he] at hlimit ⊢
    exact h.edit { h.fits with } hlimit rfl rfl

/-- **Every occurrence keeps a session up to date.** -/
theorem UpToDate.next (h : UpToDate s last? d) (o : Occurrence τ) :
    UpToDate s (o.shown d last?) (o.next d) := by
  cases o with
  | happens e =>
    cases e with
    | input i => exact h.inputNext i
    | host m => exact h.hostNext m
  | ends =>
    show UpToDate s last? d.shutDown
    rw [shutDown_eq]
    exact h.same rfl rfl rfl (runs_releasedJobs d)

/-- **A session is up to date all through its life.** -/
theorem upToDate_lived (h : UpToDate s last? d) (os : List (Occurrence τ)) :
    UpToDate s (lastShown os d last?) (lived os d) := by
  induction os generalizing d last? with
  | nil => exact h
  | cons o rest ih => exact ih (h.next o)

end

end Desk

end LiveQuery
