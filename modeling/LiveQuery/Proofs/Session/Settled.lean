/-
LiveQuery/Proofs/Session/Settled.lean

No update is lost: a session at rest shows the outcome of its filter.

Design.  The run of the active number is followed from its dispatch.  `Tracks s text d` says that
it is a run of `text`: its job has this text and a token that is not cancelled, its result is the
answer for this text, and once it is no longer awaited the session shows that answer.  Whatever
the host does keeps this, until an alarm dispatches a newer number.  `InSync s d` adds that the
text is the filter as it stands, unless a newer number has been minted: a command that changes the
filter mints one in the same step, so that every happening keeps it.

An evaluator may cancel the token of its own run, or say that a run was cancelled which was not.
It is ruled out here (`Source.NeverCancels`), since a run that ends so leaves the outcome of another
filter for good.

Main results: every happening keeps a session in sync (`InSync.next`), and one at rest shows what
its filter gives on empty tables, whatever the host still does (`outcome_at_rest`).
-/
import LiveQuery.Display.Wide
import LiveQuery.Proofs.Dispatch.Sound
import LiveQuery.Proofs.Memo.Endings
import LiveQuery.Proofs.Session.Inputs

namespace LiveQuery

/-! ### Runs that nothing cancels -/

/-- Whether a stream cancels its run with the event, or says with it that the run was cancelled. -/
def Event.cancels : Event → Bool
  | .value _ => false
  | .error e | .crash e => e.toQueryError = .cancelled
  | .cancel => true

namespace Source

/-- No program of the evaluator cancels its run on the document, or says that it was cancelled. -/
def NeverCancels (s : Source) : Prop :=
  ∀ text program, s.evaluator.compile text = .ok program →
    ∀ e ∈ program s.document, e.cancels = false

/-- The outcome of a filter. -/
def answer (s : Source) (text : Text) : Outcome := .ofRun (s.ending text .none).1

variable {s : Source}

/-- The outcome of a filter is that of its run on empty tables. -/
theorem answer_eq_execute (s : Source) (text : Text) :
    s.answer text = .ofRun (s.execute text .none {}).1.1 := by
  rw [(s.execute_answers text .none).eq_fresh]
  rfl

theorem isCancelled_failed {e : QueryError} :
    (Outcome.failed e).isCancelled = false ↔ e ≠ .cancelled := by
  simp [Outcome.isCancelled, Outcome.error?]

/-- An error that breaks off a background run counts as it does at the end of a stream. -/
theorem toQueryError_toFault (e : StreamError) : e.toFault.toQueryError = e.toQueryError := by
  cases e with
  | query e => rfl
  | foreign m => rfl

/-- A stream of which no event cancels anything does not end as cancelled, whatever values its
consumer has got before. -/
theorem isCancelled_played {es : List Event} (hes : ∀ e ∈ es, e.cancels = false)
    (vs : List Value) (count : Nat) :
    let p := playFrom none false count es
    (Outcome.ofRun (outcomeOf { p with elements := vs.map .value ++ p.elements })).isCancelled =
      false := by
  induction es generalizing vs count with
  | nil =>
    intro p
    show (Outcome.ofRun (outcomeOf ⟨vs.map .value ++ [], false, none⟩)).isCancelled = false
    rw [List.append_nil, outcomeOf_values]
    rfl
  | cons e rest ih =>
    intro p
    have he : e.cancels = false := hes e List.mem_cons_self
    cases e with
    | value v =>
      have hrest := ih (fun e he => hes e (List.mem_cons_of_mem _ he)) (vs ++ [v]) (count + 1)
      dsimp only at hrest
      rwa [List.map_append, List.append_assoc] at hrest
    | error e =>
      show (Outcome.ofRun (outcomeOf ⟨vs.map .value ++ [.error e], false, none⟩)).isCancelled = _
      rw [outcomeOf_error]
      exact isCancelled_failed.mpr (by simpa [Event.cancels] using he)
    | crash e =>
      show (Outcome.failed e.toFault.toQueryError).isCancelled = false
      rw [toQueryError_toFault]
      exact isCancelled_failed.mpr (by simpa [Event.cancels] using he)
    | cancel => cases he

theorem isCancelled_answer (hs : s.NeverCancels) (text : Text) :
    (s.answer text).isCancelled = false := by
  unfold answer ending Evaluator.program
  rcases hp : s.evaluator.compile text with m | program
  · rfl
  · exact isCancelled_played (hs text program hp) [] 0

end Source

namespace Desk

open Dispatcher

variable {τ : Type}

/-! ### Sessions that keep their outcome -/

/-- A session over the source, with coherent tables and the outcome of the given one. -/
structure GoesOn (s : Source) (c c' : Session) : Prop where
  source : c'.source = s
  memo : c'.memo.Coherent s
  outcome : c'.outcome = c.outcome

namespace GoesOn

variable {s : Source} {c c' : Session}

theorem look (h : GoesOn s c c') {c'' : Session} (hc : SameQuery c' c'') : GoesOn s c c'' :=
  ⟨hc.source.trans h.source, hc.memo ▸ h.memo, hc.outcome.trans h.outcome⟩

theorem setText (h : GoesOn s c c') (text : Text) : GoesOn s c (Session.setText text c') := by
  obtain ⟨rfl, hmemo, houtcome⟩ := h
  exact ⟨rfl, (c'.source.context_answers text c'.memo hmemo).2.1, houtcome⟩

theorem offer (h : GoesOn s c c') (text : Text) : GoesOn s c (Session.offer text c') := by
  obtain ⟨rfl, hmemo, houtcome⟩ := h
  exact ⟨rfl, (c'.source.suggest_answers text c'.memo hmemo).2.1, houtcome⟩

theorem tabbed (h : GoesOn s c c') : GoesOn s c (tabbed c') := by
  have hfirst : GoesOn s c (offered c') := { h.offer (drilled c'.filter) with }
  unfold Desk.tabbed
  split
  · next text _ => exact hfirst.offer text
  · exact hfirst

end GoesOn

/-! ### The run of the active number -/

/-- The run of the active number is one of the given text. -/
structure Tracks (s : Source) (text : Text) (d : Desk τ) : Prop where
  sound : d.Sound
  shut : d.shut = false
  source : d.client.source = s
  memo : d.client.memo.Coherent s
  job : ∀ j ∈ d.jobs, ∀ t, j.task = .run d.active t → j.ended = false →
    t = text ∧ j.cancelled = false
  posted : ∀ o, .result d.active o ∈ d.posted → o = s.answer text
  shown : 0 < d.active → d.running = false → d.client.outcome = s.answer text

/-- The run of the active number is one of the filter, unless a newer number has been minted. -/
def InSync (s : Source) (d : Desk τ) : Prop :=
  ∃ text, Tracks s text d ∧ (d.minted = d.active → d.client.filter = text)

theorem inSync_ofSession [Time τ] (source : Source) (name : Text) (capacity : Int)
    (recording : Bool) :
    InSync source (ofSession (Session.ofSource source name capacity) recording : Desk τ) := by
  refine ⟨['.'], ?_, fun _ => rfl⟩
  exact
    { sound := sound_ofClient _ _ _
      shut := rfl
      source := rfl
      memo := (source.context_answers ['.'] {} (Memo.coherent_empty source)).2.1
      job := by simp [ofSession]
      posted := by simp [ofSession]
      shown := by simp [ofSession] }

variable {s : Source} {text : Text} {d : Desk τ}

namespace Tracks

theorem goesOn (ht : Tracks s text d) : GoesOn s d.client d.client := ⟨ht.source, ht.memo, rfl⟩

/-- A run is followed on as long as the session keeps its outcome. -/
theorem edit (ht : Tracks s text d) {c : Session} (hc : GoesOn s d.client c) :
    Tracks s text { d with client := c } where
  sound := { ht.sound with }
  shut := ht.shut
  source := hc.source
  memo := hc.memo
  job := ht.job
  posted := ht.posted
  shown := fun hpos hrun => hc.outcome.trans (ht.shown hpos hrun)

theorem queue (ht : Tracks s text d) : Tracks s text d.queue :=
  { ht with sound := ht.sound.queue }

theorem requested [Glyphs] (ht : Tracks s text d) (path : Text) :
    Tracks s text (d.requested Session.hooks path) := by
  refine { ht with sound := ht.sound.requested path, job := ?_ }
  intro j hj t htask hended
  rcases List.mem_append.mp hj with hj | hj
  · exact ht.job j hj t htask hended
  · rw [List.mem_singleton.mp hj] at htask
    cases htask

variable [Time τ] [Glyphs]

/-- A dispatch begins a run of the filter as it stands. -/
theorem dispatched (ht : Tracks s text d) {seq : Int} (hnew : d.active < seq)
    (hs : (d.dispatched Session.hooks seq).Sound) :
    Tracks s d.client.filter (d.dispatched Session.hooks seq) where
  sound := hs
  shut := ht.shut
  source := ht.source
  memo := ht.memo
  job := by
    intro j hj t htask hended
    rcases List.mem_append.mp hj with hj | hj
    · -- an older job does not run the new number
      have hseq : j.open? = some seq := by
        simp [Job.open?, hended, htask, Task.seq?, Dispatcher.dispatched]
      have hopen := List.mem_filterMap.mpr ⟨j, hj, hseq⟩
      rw [open?_releasedJobs] at hopen
      have hle := ht.sound.outstanding_le seq (List.mem_append_left _ hopen)
      omega
    · rw [List.mem_singleton.mp hj] at htask ⊢
      exact ⟨(Task.run.inj htask).2.symm, rfl⟩
  posted := by
    -- nor is one of its results posted
    intro o ho
    have hle := ht.sound.outstanding_le seq
      (List.mem_append_right _ (List.mem_filterMap.mpr ⟨_, ho, rfl⟩))
    omega
  shown := by
    intro _ hrun
    cases hrun

theorem ran (ht : Tracks s text d) : Tracks s d.client.filter (ran d) := by
  have hm : Tracks s text d.mint := { ht with sound := ht.sound.mint }
  exact hm.dispatched (Int.lt_add_one_of_le ht.sound.active_le) ht.sound.executeNow

omit [Time τ] in
theorem fetched (ht : Tracks s text d) : Tracks s text (fetched d) := by
  unfold Desk.fetched
  split
  · have hcleared := ht.edit (c := { d.client with available := [] }) { ht.goesOn with }
    exact hcleared.requested d.client.currentPath
  · exact ht

omit [Time τ] in
/-- A job of the active number gives the answer for the text; every job leaves coherent tables. -/
theorem complete (ht : Tracks s text d) (i : Nat) :
    Tracks s text (d.complete Session.hooks i) := by
  have hsound := ht.sound.complete (h := Session.hooks) i
  have hjobs (job' : Job) (hended : job'.ended = true) :
      ∀ j ∈ d.jobs.set i job', ∀ t, j.task = .run d.active t → j.ended = false →
        t = text ∧ j.cancelled = false := by
    intro j hj t htask hopen
    rcases List.mem_or_eq_of_mem_set hj with hj | rfl
    · exact ht.job j hj t htask hopen
    · simp [hended] at hopen
  rcases complete_cases Session.hooks i d with
    ⟨-, he⟩ | ⟨job, seq, t, hj, hended, htask, he⟩ | ⟨job, path, f, hj, hended, htask, hf, he⟩
  · rw [he]
    exact ht
  · -- whatever token the job has, its run leaves coherent tables
    rw [he] at hsound ⊢
    obtain ⟨hanswer, hmemo, -⟩ := d.client.source.execute_answers t
      (if job.cancelled then .cancelled else .live) d.client.memo (ht.source ▸ ht.memo)
    refine
      { sound := hsound, shut := ht.shut, source := ht.source, memo := ht.source ▸ hmemo
        job := hjobs _ rfl, posted := ?_, shown := ht.shown }
    intro o ho
    rcases List.mem_append.mp ho with ho | ho
    · exact ht.posted o ho
    · -- the job of the active number still has its token
      obtain ⟨hseq, rfl⟩ := Callback.result.inj (List.mem_singleton.mp ho)
      obtain ⟨rfl, hlive⟩ := ht.job job (List.mem_of_getElem? hj) t (hseq ▸ htask) hended
      have hrun : (Session.hooks.execute t job.cancelled d.client).1 =
          d.client.source.ending t (if job.cancelled then .cancelled else .live) := hanswer
      rw [hrun, hlive, ht.source]
      rfl
  · rw [he] at hsound ⊢
    obtain rfl := Option.some.inj hf
    obtain ⟨-, hmemo, -⟩ := d.client.source.keysAt_answers path d.client.memo (ht.source ▸ ht.memo)
    refine
      { sound := hsound, shut := ht.shut, source := ht.source, memo := ht.source ▸ hmemo
        job := hjobs _ rfl, posted := ?_, shown := ht.shown }
    intro o ho
    exact ht.posted o (by simpa using ho)

/-- The result of the active number is taken, and shows the answer for the text. -/
theorem delivered (hs : s.NeverCancels) (ht : Tracks s text d) (i : Nat) :
    Tracks s text (d.delivered Session.hooks i) := by
  have hsound := ht.sound.delivered (h := Session.hooks) i
  have hposted (o) (ho : .result d.active o ∈ d.posted.eraseIdx i) : o = s.answer text :=
    ht.posted o (List.mem_of_mem_eraseIdx ho)
  rcases delivered_cases Session.hooks i d with
    ⟨-, he⟩ | ⟨seq, hi, -⟩ | ⟨seq, o, hi, he⟩ | ⟨path, answer, hi, he⟩
  · rw [he]
    exact ht
  · exact absurd (List.mem_of_getElem? hi) (ht.sound.no_debounce seq)
  · rw [he] at hsound ⊢
    refine
      { sound := hsound, shut := ht.shut, source := ?_, memo := ?_, job := ht.job
        posted := hposted, shown := ?_ }
    · show (if d.commits seq o then Session.present o d.client else d.client).source = s
      split <;> exact ht.source
    · show (if d.commits seq o then Session.present o d.client else d.client).memo.Coherent s
      split <;> exact ht.memo
    · intro hpos hrun
      show (if d.commits seq o then Session.present o d.client else d.client).outcome = _
      by_cases hseq : seq = d.active
      · -- accepted, and committed since an answer is never a cancellation
        subst hseq
        have ho : o = s.answer text := ht.posted o (List.mem_of_getElem? hi)
        have hcommits : d.commits d.active o = true := by
          simp [commits, accepts, ho, Source.isCancelled_answer hs text]
        rw [if_pos hcommits]
        exact ho
      · -- too old: nothing was awaited before either
        have hkept : d.running = false := by simpa [accepts, hseq] using hrun
        rw [if_neg (by simp [commits, accepts, hseq])]
        exact ht.shown hpos hkept
  · rw [he] at hsound ⊢
    have hquiet : Tracks s text { d with
        posted := d.posted.eraseIdx i
        awaited := if d.awaited = some path then none else d.awaited } :=
      { ht with sound := { hsound with }, posted := hposted }
    have hkept : SameQuery d.client _ :=
      .takeKeys (d.wants Session.hooks path) path answer.toOption d.client
    exact hquiet.edit (ht.goesOn.look hkept)

end Tracks

section

/-! ### Everything that happens keeps a session in sync -/

variable [Time τ] [Glyphs]

/-- A delivery changes neither the filter nor the numbers. -/
theorem delivered_keeps (hd : d.Sound) (i : Nat) :
    (d.delivered Session.hooks i).minted = d.minted ∧
      (d.delivered Session.hooks i).active = d.active ∧
      (d.delivered Session.hooks i).client.filter = d.client.filter := by
  rcases delivered_cases Session.hooks i d with
    ⟨-, he⟩ | ⟨seq, hi, -⟩ | ⟨seq, o, -, he⟩ | ⟨path, answer, -, he⟩
  · rw [he]
    exact ⟨rfl, rfl, rfl⟩
  · exact absurd (List.mem_of_getElem? hi) (hd.no_debounce seq)
  · rw [he]
    refine ⟨rfl, rfl, ?_⟩
    show (if d.commits seq o then Session.present o d.client else d.client).filter = _
    split <;> rfl
  · rw [he]
    exact ⟨rfl, rfl, (SameQuery.takeKeys (d.wants Session.hooks path) path _ d.client).filter⟩

namespace InSync

omit [Time τ] in
/-- A command that changes the filter and sets an alarm. -/
theorem of_queue (ht : Tracks s text d) : InSync s (fetched d.queue) := by
  refine ⟨text, ht.queue.fetched, fun hnewest => ?_⟩
  have hle := ht.sound.active_le
  rw [fetched_minted, fetched_active] at hnewest
  have heq : d.minted + 1 = d.active := hnewest
  omega

/-- A command that changes the filter and runs it at once. -/
theorem of_ran (ht : Tracks s text d) : InSync s (fetched (ran d)) :=
  ⟨d.client.filter, ht.ran.fetched, fun _ => fetched_filter (ran d)⟩

theorem fired (h : InSync s d) (i : Nat) : InSync s (d.fired Session.hooks i) := by
  obtain ⟨text, ht, hfilter⟩ := h
  have hsound := ht.sound.fired (h := Session.hooks) i
  have hquiet : Tracks s text { d with alarms := d.alarms.eraseIdx i } :=
    { ht with sound := ht.sound.eraseAlarm i }
  rcases fired_cases Session.hooks i d with ⟨-, he⟩ | ⟨hi, he⟩ | ⟨seq, -, -, he⟩
  · rw [he]
    exact ⟨text, ht, hfilter⟩
  · rw [he] at hsound ⊢
    have hnew : d.active < d.minted := ht.sound.active_lt (List.mem_of_getElem? hi)
    exact ⟨d.client.filter, hquiet.dispatched hnew hsound, fun _ => rfl⟩
  · rw [he] at hsound ⊢
    exact ⟨text, { hquiet with sound := hsound }, hfilter⟩

theorem hostNext (hs : s.NeverCancels) (h : InSync s d) (m : HostMove τ) :
    InSync s (m.next d) := by
  obtain ⟨text, ht, hfilter⟩ := h
  rw [HostMove.next, Move.act_eq ht.shut]
  cases m with
  | fire i => exact InSync.fired ⟨text, ht, hfilter⟩ i
  | complete i =>
    refine ⟨text, ht.complete i, ?_⟩
    obtain ⟨memo, jobs, posted, he⟩ := complete_keeps d i
    show (d.complete Session.hooks i).minted = (d.complete Session.hooks i).active →
      (d.complete Session.hooks i).client.filter = text
    rw [he]
    exact hfilter
  | deliver i =>
    refine ⟨text, ht.delivered hs i, ?_⟩
    obtain ⟨hminted, hactive, hkept⟩ := delivered_keeps ht.sound i
    show (d.delivered Session.hooks i).minted = (d.delivered Session.hooks i).active →
      (d.delivered Session.hooks i).client.filter = text
    rw [hminted, hactive, hkept]
    exact hfilter
  | tick now => exact ⟨text, { ht with sound := { ht.sound with } }, hfilter⟩

theorem inputNext (h : InSync s d) (i : Input) : InSync s (i.next d) := by
  obtain ⟨text, ht, hfilter⟩ := h
  rcases hi : i.looks with - | -
  · cases i with
    | start =>
      rw [Input.next, start_eq ht.shut]
      exact of_ran ht
    | setFilter t =>
      rw [Input.next, setFilter_eq ht.shut]
      exact of_queue (ht.edit (ht.goesOn.setText t))
    | tab =>
      rw [Input.next, tab_eq ht.shut]
      have htab := ht.edit ht.goesOn.tabbed
      split
      · exact of_queue htab
      · -- the filter has stayed what it was, and needs no new run
        next hsame => exact ⟨text, htab, fun hm => (not_not.mp hsame).trans (hfilter hm)⟩
    | accept =>
      rw [Input.next, accept_eq ht.shut]
      split
      · next t _ =>
        have hnormal : GoesOn s d.client
            { d.client with mode := .normal, suggestions := [], selected := 0 } :=
          { ht.goesOn with }
        exact of_ran (ht.edit (hnormal.setText t))
      · exact ⟨text, ht, hfilter⟩
    | pickRecent t =>
      rw [Input.next, pickRecent_eq ht.shut]
      exact of_ran (ht.edit (c := { Session.setText t d.client with mode := .normal })
        { ht.goesOn.setText t with })
    | runNow t =>
      rw [Input.next, runNow_eq ht.shut]
      exact ⟨t, (ht.edit (ht.goesOn.setText t)).ran, fun _ => rfl⟩
    | _ => cases hi
  · obtain ⟨c, he, hc⟩ := looks_next (d := d) hi
    rw [he]
    exact ⟨text, ht.edit (ht.goesOn.look hc), fun hm => hc.filter.trans (hfilter hm)⟩

/-- **Every happening keeps a session in sync.** -/
theorem next (hs : s.NeverCancels) (h : InSync s d) (e : Happening τ) : InSync s (e.next d) := by
  cases e with
  | input i => exact h.inputNext i
  | host m => exact h.hostNext hs m

theorem after (hs : s.NeverCancels) (h : InSync s d) (es : List (Happening τ)) :
    InSync s (after es d) := by
  induction es generalizing d with
  | nil => exact h
  | cons e rest ih => exact ih (h.next hs e)

end InSync

/-! ### At rest -/

/-- No run is on its way, and what is shown is what the given session shows. -/
structure AtRest (c : Session) (d : Desk τ) : Prop where
  sound : d.Sound
  shut : d.shut = false
  newest : d.minted = d.active
  running : d.running = false
  filter : d.client.filter = c.filter
  outcome : d.client.outcome = c.outcome
  lines : d.client.lines = c.lines

namespace AtRest

variable {c : Session}

/-- No alarm is set for the newest number, so that none dispatches. -/
theorem fired (h : AtRest c d) (i : Nat) : AtRest c (d.fired Session.hooks i) := by
  have hsound := h.sound.fired (h := Session.hooks) i
  rcases fired_cases Session.hooks i d with ⟨-, he⟩ | ⟨hi, -⟩ | ⟨seq, -, -, he⟩
  · rw [he]
    exact h
  · have hlt : d.active < d.minted := h.sound.active_lt (List.mem_of_getElem? hi)
    exact absurd h.newest (by omega)
  · rw [he] at hsound ⊢
    exact { h with sound := hsound }

/-- No result of the active number is left, so that none is committed. -/
theorem delivered (h : AtRest c d) (i : Nat) : AtRest c (d.delivered Session.hooks i) := by
  have hsound := h.sound.delivered (h := Session.hooks) i
  rcases delivered_cases Session.hooks i d with
    ⟨-, he⟩ | ⟨seq, hi, -⟩ | ⟨seq, o, hi, he⟩ | ⟨path, answer, -, he⟩
  · rw [he]
    exact h
  · exact absurd (List.mem_of_getElem? hi) (h.sound.no_debounce seq)
  · -- a result of the active number would be outstanding, and so awaited
    have hne : seq ≠ d.active := by
      rintro rfl
      have hout : d.active ∈ d.outstanding := List.mem_append_right _
        (List.mem_filterMap.mpr ⟨_, List.mem_of_getElem? hi, rfl⟩)
      exact absurd (h.sound.running_iff.mpr hout) (by simp [h.running])
    have haccepts : d.accepts seq = false := by simpa [accepts] using hne
    simp only [commits, haccepts] at he
    rw [he] at hsound ⊢
    exact { h with sound := hsound }
  · have hkept : SameQuery d.client _ :=
      .takeKeys (d.wants Session.hooks path) path answer.toOption d.client
    rw [he] at hsound ⊢
    exact
      { h with
        sound := hsound
        filter := hkept.filter.trans h.filter
        outcome := hkept.outcome.trans h.outcome
        lines := hkept.lines.trans h.lines }

theorem hostNext (h : AtRest c d) (m : HostMove τ) : AtRest c (m.next d) := by
  rw [HostMove.next, Move.act_eq h.shut]
  cases m with
  | fire i => exact h.fired i
  | complete i =>
    have hsound := h.sound.complete (h := Session.hooks) i
    obtain ⟨memo, jobs, posted, he⟩ := complete_keeps d i
    show AtRest c (d.complete Session.hooks i)
    rw [he] at hsound ⊢
    exact { h with sound := hsound }
  | deliver i => exact h.delivered i
  | tick now => exact { h with sound := { h.sound with } }

theorem afterHost (h : AtRest c d) (ms : List (HostMove τ)) : AtRest c (afterHost ms d) := by
  induction ms generalizing d with
  | nil => exact h
  | cons m rest ih => exact ih (h.hostNext m)

end AtRest

/-- **No update is lost.**  A session at rest, in which something has been run, shows what its
filter gives on empty tables, and nothing that the host still does changes what it shows. -/
theorem outcome_at_rest (source : Source) (name : Text) (capacity : Int) (recording : Bool)
    (hs : source.NeverCancels) (es : List (Happening τ)) (ms : List (HostMove τ)) :
    let d := after es (ofSession (Session.ofSource source name capacity) recording)
    let d' := afterHost ms d
    d.idle = true → 1 ≤ d.minted →
      d.client.outcome = .ofRun (source.execute d.client.filter .none {}).1.1 ∧
      d'.client.outcome = d.client.outcome ∧
      d'.client.lines = d.client.lines ∧
      d'.client.filter = d.client.filter := by
  intro d d' hidle hminted
  obtain ⟨text, ht, hfilter⟩ :=
    (inSync_ofSession (τ := τ) source name capacity recording).after hs es
  change Tracks source text d at ht
  change d.minted = d.active → d.client.filter = text at hfilter
  obtain ⟨hnewest, hrunning⟩ : d.minted = d.active ∧ d.running = false := by
    simp only [idle, Bool.and_eq_true, beq_iff_eq, Bool.not_eq_true'] at hidle
    exact hidle.1
  have hrest : AtRest d.client d' :=
    AtRest.afterHost ⟨ht.sound, ht.shut, hnewest, hrunning, rfl, rfl, rfl⟩ ms
  refine ⟨?_, hrest.outcome, hrest.lines, hrest.filter⟩
  rw [hfilter hnewest, ← Source.answer_eq_execute]
  exact ht.shown (by omega) hrunning

end

/-- An evaluator whose programs all yield the document, over a number. -/
def echo : Source := ⟨⟨fun _ => .ok (.onValue fun v => [.value v])⟩, .int 7, 0⟩

/-- A filter is typed while that of the start still runs, and its run ends first. -/
theorem outcome_at_rest_echo :
    let es : List (Happening Float) :=
      [.input .start, .input (.setFilter ['.', 'a']), .host (.fire 0), .host (.complete 2),
        .host (.complete 0), .host (.complete 1), .host (.deliver 0), .host (.deliver 0),
        .host (.deliver 0)]
    let d := after es (ofSession (Session.ofSource echo [] 16) false)
    (echo.NeverCancels ∧ d.idle = true ∧ 1 ≤ d.minted) ∧
      d.client.filter = ['.', 'a'] ∧
      d.client.outcome = .ofRun (echo.execute ['.', 'a'] .none {}).1.1 := by
  intro es d
  have hs : echo.NeverCancels := by
    rintro text program h e he
    cases h
    rw [List.mem_singleton.mp he]
    rfl
  have hidle : d.idle = true := rfl
  have hminted : 1 ≤ d.minted := by decide
  have hrest := outcome_at_rest echo [] 16 false hs es [] hidle hminted
  exact ⟨⟨hs, hidle, hminted⟩, rfl, hrest.1⟩

end Desk

end LiveQuery
