/-
LiveQuery/Proofs/Dispatch/Moves.lean

The moves of a dispatcher before its end, in any order.

A move is an input, a change of the client, or something the host does: an alarm goes off, a job
ends, a completion is delivered, the clock goes on.  The host may take any alarm, any job and any
completion, so that a list of moves stands for one interleaving.

Design.  The operations of the dispatcher are actions that may raise a fault.  As long as the
background takes jobs none of them does, and each is then a function on the state: `Move.next`
puts these functions together.

Main results: all that an alarm, the end of a job and a delivery can do (`fired_cases`,
`complete_cases`, `delivered_cases`); a move raises nothing and does what `Move.next` says
(`Move.act_eq`), and so does a list of moves (`perform_eq`).
-/
import LiveQuery.Session.Dispatcher

namespace LiveQuery

/-! ### Operations that may raise something -/

section Bind

variable {ε σ α β : Type} {s s' : σ}

/-- What follows an operation that raises nothing goes on from its state. -/
theorem bind_ok {x : ExceptT ε (StateM σ) α} {f : α → ExceptT ε (StateM σ) β} {a : α}
    (hx : x s = (.ok a, s')) : (x >>= f) s = f a s' := by
  show ExceptT.bindCont f (x s).1 (x s).2 = f a s'
  rw [hx]
  rfl

/-- Nothing follows an operation that raises something. -/
theorem bind_error {x : ExceptT ε (StateM σ) α} {f : α → ExceptT ε (StateM σ) β} {e : ε}
    (hx : x s = (.error e, s')) : (x >>= f) s = (.error e, s') := by
  show ExceptT.bindCont f (x s).1 (x s).2 = _
  rw [hx]
  rfl

theorem get_bind (f : σ → ExceptT ε (StateM σ) β) : (get >>= f) s = f s s := rfl

theorem set_bind (f : PUnit → ExceptT ε (StateM σ) β) : (set s' >>= f) s = f ⟨⟩ s' := rfl

end Bind

namespace Dispatcher

variable {τ χ : Type} [Time τ]

/-! ### Deliveries in any order -/

/-- Delivers the completion at a position. -/
def deliverAt (h : Hooks χ) (i : Nat) : Act τ χ Unit := do
  let d ← get
  match d.posted[i]? with
  | some c =>
    set { d with posted := d.posted.eraseIdx i }
    react h c
  | none => pure ()

/-! ### Moves -/

/-- What may happen to a dispatcher. -/
inductive Move (τ χ : Type)
  /-- The filter was changed. -/
  | queue
  /-- The filter is to run at once. -/
  | executeNow
  /-- The client changes its state, the text of the filter with it. -/
  | edit (f : χ → χ)
  /-- The keys at a path are wanted. -/
  | requestKeys (path : Text)
  /-- The alarm at a position goes off. -/
  | fire (i : Nat)
  /-- The job at a position ends. -/
  | complete (i : Nat)
  /-- The completion at a position is delivered. -/
  | deliver (i : Nat)
  /-- The clock goes on. -/
  | tick (now : τ)

/-- Does a move. -/
def Move.act (h : Hooks χ) : Move τ χ → Act τ χ Unit
  | .queue => Dispatcher.act Dispatcher.queue
  | .executeNow => Dispatcher.executeNow h
  | .edit f => Dispatcher.act (onClient f)
  | .requestKeys path => Dispatcher.requestKeys h path
  | .fire i => Dispatcher.fire h i
  | .complete i => Dispatcher.act (Dispatcher.complete h i)
  | .deliver i => deliverAt h i
  | .tick now => Dispatcher.act fun d => { d with now }

/-! ### Operations as functions -/

/-- The jobs, with the token that is held cancelled. -/
def releasedJobs (d : Dispatcher τ χ) : List Job :=
  match d.held with
  | some i => d.jobs.modify i fun j => { j with cancelled := true }
  | none => d.jobs

/-- The state after a dispatch. -/
def dispatched (h : Hooks χ) (seq : Int) (d : Dispatcher τ χ) : Dispatcher τ χ :=
  { d with
    active := seq
    running := true
    latency := Id.run (d.latency.dispatched (m := Id) d.now seq)
    held := some d.jobs.length
    jobs := d.releasedJobs ++ [Job.mk (.run seq (h.filter d.client)) false false] }

/-- The state after the delay of a sequence number. -/
def elapsed (h : Hooks χ) (seq : Int) (d : Dispatcher τ χ) : Dispatcher τ χ :=
  if seq = d.minted then d.dispatched h seq else { d with latency := d.latency.drop seq }

/-- The path that stands for a text: the empty one is that of the document. -/
def orRoot (path : Text) : Text := if path.isEmpty then ['.'] else path

/-- The state after a request for keys. -/
def requested (h : Hooks χ) (path : Text) (d : Dispatcher τ χ) : Dispatcher τ χ :=
  if h.keysAt.isSome then
    { d with
      awaited := some (orRoot path)
      jobs := d.jobs ++ [Job.mk (.lookUp (orRoot path)) false false] }
  else d

/-- The state after a callback. -/
def reacted (h : Hooks χ) (d : Dispatcher τ χ) : Callback → Dispatcher τ χ
  | .debounce seq => d.elapsed h seq
  | .result seq o => d.takeResult h seq o
  | .keys path answer => d.answerKeys h path answer.toOption

/-- A result is taken in three ways: committed, without a commit, or not at all. -/
theorem takeResult_eq {h : Hooks χ} {d : Dispatcher τ χ} {seq : Int} {o : Outcome} :
    d.takeResult h seq o =
      { d with
        latency := Id.run
          (d.latency.ended (m := Id) d.now seq o.isCancelled (d.accepts seq))
        running := if d.accepts seq then false else d.running
        held := if d.accepts seq then none else d.held
        client := if d.commits seq o then h.commit o d.client else d.client } := by
  unfold takeResult commits accepts onClient
  dsimp only
  generalize (seq == d.active) = accepted
  generalize o.isCancelled = cancelled
  cases accepted <;> cases cancelled <;> rfl

omit [Time τ] in
/-- The answer of a lookup is taken if it is still wanted. -/
theorem answerKeys_eq {h : Hooks χ} {d : Dispatcher τ χ} {path : Text} {keys : Option (List Text)} :
    d.answerKeys h path keys =
      { d with
        awaited := if d.awaited = some path then none else d.awaited
        client := if d.wants h path then h.takeKeys path keys d.client else d.client } := by
  unfold answerKeys wants onClient
  dsimp only
  by_cases ha : d.awaited = some path
  · rw [if_pos ha, if_pos ha]
    split <;> rfl
  · rw [if_neg ha, if_neg ha]
    split <;> rfl

omit [Time τ] in
/-- A job that is told to end has ended already or cannot do its task, runs, or looks up keys. -/
theorem complete_cases (h : Hooks χ) (i : Nat) (d : Dispatcher τ χ) :
    ((∀ job, d.jobs[i]? = some job → job.ended = false →
        h.keysAt = none ∧ ∃ path, job.task = .lookUp path) ∧
      d.complete h i = d) ∨
    (∃ job seq text, d.jobs[i]? = some job ∧ job.ended = false ∧ job.task = .run seq text ∧
      d.complete h i =
        { d with
          client := (h.execute text job.cancelled d.client).2
          jobs := d.jobs.set i
            { job with cancelled := (h.execute text job.cancelled d.client).1.2, ended := true }
          posted := d.posted ++
            [.result seq (.ofRun (h.execute text job.cancelled d.client).1.1)] }) ∨
    (∃ job path f, d.jobs[i]? = some job ∧ job.ended = false ∧ job.task = .lookUp path ∧
      h.keysAt = some f ∧
      d.complete h i =
        { d with
          client := (f path d.client).2
          jobs := d.jobs.set i { job with ended := true }
          posted := d.posted ++ [.keys path (answerOf (f path d.client).1)] }) := by
  rcases hj : d.jobs[i]? with - | job
  · exact .inl ⟨by simp, by simp [complete, hj]⟩
  · rcases he : job.ended with - | -
    · rcases ht : job.task with ⟨seq, text⟩ | path
      · exact .inr (.inl ⟨job, seq, text, rfl, he, ht, by simp [complete, hj, he, ht]⟩)
      · rcases hk : h.keysAt with - | f
        · refine .inl ⟨?_, by simp [complete, hj, he, ht, hk]⟩
          rintro job' hjob -
          obtain rfl := Option.some.inj hjob
          exact ⟨rfl, path, ht⟩
        · exact .inr (.inr ⟨job, path, f, rfl, he, ht, rfl, by simp [complete, hj, he, ht, hk]⟩)
    · refine .inl ⟨?_, by simp [complete, hj, he]⟩
      intro job' hjob hopen
      obtain rfl := Option.some.inj hjob
      simp [he] at hopen

/-- The state after an alarm has gone off. -/
def fired (h : Hooks χ) (i : Nat) (d : Dispatcher τ χ) : Dispatcher τ χ :=
  match d.alarms[i]? with
  | some seq => { d with alarms := d.alarms.eraseIdx i }.elapsed h seq
  | none => d

/-- The state after a delivery. -/
def delivered (h : Hooks χ) (i : Nat) (d : Dispatcher τ χ) : Dispatcher τ χ :=
  match d.posted[i]? with
  | some c => { d with posted := d.posted.eraseIdx i }.reacted h c
  | none => d

/-- An alarm that goes off dispatches the newest number, and no other. -/
theorem fired_cases (h : Hooks χ) (i : Nat) (d : Dispatcher τ χ) :
    (d.alarms[i]? = none ∧ d.fired h i = d) ∨
    (d.alarms[i]? = some d.minted ∧
      d.fired h i = { d with alarms := d.alarms.eraseIdx i }.dispatched h d.minted) ∨
    (∃ seq, d.alarms[i]? = some seq ∧ seq ≠ d.minted ∧
      d.fired h i =
        { d with alarms := d.alarms.eraseIdx i, latency := d.latency.drop seq }) := by
  unfold fired
  rcases d.alarms[i]? with - | seq
  · exact .inl ⟨rfl, rfl⟩
  · by_cases hseq : seq = d.minted
    · subst hseq
      exact .inr (.inl ⟨rfl, if_pos rfl⟩)
    · exact .inr (.inr ⟨seq, rfl, hseq, if_neg hseq⟩)

/-- A delivery ends a delay, takes a result, or takes keys. -/
theorem delivered_cases (h : Hooks χ) (i : Nat) (d : Dispatcher τ χ) :
    (d.posted[i]? = none ∧ d.delivered h i = d) ∨
    (∃ seq, d.posted[i]? = some (.debounce seq) ∧
      d.delivered h i = { d with posted := d.posted.eraseIdx i }.elapsed h seq) ∨
    (∃ seq o, d.posted[i]? = some (.result seq o) ∧
      d.delivered h i =
        { d with
          posted := d.posted.eraseIdx i
          latency := Id.run
            (d.latency.ended (m := Id) d.now seq o.isCancelled (d.accepts seq))
          running := if d.accepts seq then false else d.running
          held := if d.accepts seq then none else d.held
          client := if d.commits seq o then h.commit o d.client else d.client }) ∨
    (∃ path answer, d.posted[i]? = some (.keys path answer) ∧
      d.delivered h i =
        { d with
          posted := d.posted.eraseIdx i
          awaited := if d.awaited = some path then none else d.awaited
          client :=
            if d.wants h path then h.takeKeys path answer.toOption d.client else d.client }) := by
  unfold delivered
  rcases d.posted[i]? with - | c
  · exact .inl ⟨rfl, rfl⟩
  · cases c with
    | debounce seq => exact .inr (.inl ⟨seq, rfl, rfl⟩)
    | result seq o => exact .inr (.inr (.inl ⟨seq, o, rfl, takeResult_eq⟩))
    | keys path answer => exact .inr (.inr (.inr ⟨path, answer, rfl, answerKeys_eq⟩))

/-- The state after a move. -/
def Move.next (h : Hooks χ) : Move τ χ → Dispatcher τ χ → Dispatcher τ χ
  | .queue, d => d.queue
  | .executeNow, d => d.mint.dispatched h d.mint.minted
  | .edit f, d => d.onClient f
  | .requestKeys path, d => d.requested h path
  | .fire i, d => d.fired h i
  | .complete i, d => d.complete h i
  | .deliver i, d => d.delivered h i
  | .tick now, d => { d with now }

variable {h : Hooks χ} {d : Dispatcher τ χ}

omit [Time τ] in
theorem act_bind {α : Type} (f : Dispatcher τ χ → Dispatcher τ χ) (g : Unit → Act τ χ α) :
    (act f >>= g) d = g () (f d) := rfl

omit [Time τ] in
/-- The background takes a job. -/
theorem submit_eq (hd : d.shut = false) (task : Task) :
    submit task d = (.ok (), { d with jobs := d.jobs ++ [Job.mk task false false] }) := by
  unfold submit
  rw [get_bind, hd]
  rfl

omit [Time τ] in
@[simp] theorem length_releasedJobs (d : Dispatcher τ χ) :
    d.releasedJobs.length = d.jobs.length := by
  unfold releasedJobs
  split
  · exact List.length_modify ..
  · rfl

omit [Time τ] in
theorem release_eq (d : Dispatcher τ χ) :
    d.release = { d with jobs := d.releasedJobs, held := none } := by
  obtain ⟨_, _, _, _, _, held, _, _, _, _, _, _⟩ := d
  cases held <;> rfl

theorem dispatch_eq (hd : d.shut = false) (seq : Int) :
    dispatch h seq d = (.ok (), d.dispatched h seq) := by
  have hs := submit_eq (d := { d.release with
    active := seq
    running := true
    latency := Id.run (d.release.latency.dispatched (m := Id) d.release.now seq)
    held := some d.release.jobs.length }) (by rw [release_eq]; exact hd)
    (.run seq (h.filter d.release.client))
  refine Eq.trans (b := _) hs ?_
  rw [release_eq, dispatched, length_releasedJobs]

theorem debounced_eq (hd : d.shut = false) (seq : Int) :
    debounced h seq d = (.ok (), d.elapsed h seq) := by
  unfold debounced elapsed
  rw [get_bind]
  split
  · exact dispatch_eq hd seq
  · rfl

omit [Time τ] in
theorem requestKeys_eq (hd : d.shut = false) (path : Text) :
    requestKeys h path d = (.ok (), d.requested h path) := by
  unfold requestKeys requested
  split
  · exact submit_eq (d := { d with awaited := some (orRoot path) }) hd _
  · rfl

theorem react_eq (hd : d.shut = false) (c : Callback) : react h c d = (.ok (), d.reacted h c) := by
  cases c with
  | debounce seq => exact debounced_eq hd seq
  | result seq o => rfl
  | keys path answer => rfl

theorem fire_eq (hd : d.shut = false) (i : Nat) : fire h i d = (.ok (), d.fired h i) := by
  unfold fire fired
  rw [get_bind]
  rcases d.alarms[i]? with - | seq
  · rfl
  · exact debounced_eq (d := { d with alarms := d.alarms.eraseIdx i }) hd seq

theorem deliverAt_eq (hd : d.shut = false) (i : Nat) :
    deliverAt h i d = (.ok (), d.delivered h i) := by
  unfold deliverAt delivered
  rw [get_bind]
  rcases d.posted[i]? with - | c
  · rfl
  · exact react_eq (d := { d with posted := d.posted.eraseIdx i }) hd c

/-! ### Moves raise nothing -/

theorem Move.act_eq (hd : d.shut = false) (m : Move τ χ) : m.act h d = (.ok (), m.next h d) := by
  cases m with
  | queue => rfl
  | executeNow => exact dispatch_eq (d := d.mint) hd _
  | edit f => rfl
  | requestKeys path => exact requestKeys_eq hd path
  | fire i => exact fire_eq hd i
  | complete i => rfl
  | deliver i => exact deliverAt_eq hd i
  | tick now => rfl

theorem elapsed_shut (seq : Int) : (d.elapsed h seq).shut = d.shut := by
  unfold elapsed
  split <;> rfl

theorem reacted_shut (c : Callback) : (d.reacted h c).shut = d.shut := by
  cases c with
  | debounce seq => exact elapsed_shut seq
  | result seq o =>
    show (d.takeResult h seq o).shut = _
    rw [takeResult_eq]
  | keys path answer =>
    show (d.answerKeys h path answer.toOption).shut = _
    rw [answerKeys_eq]

theorem fired_shut (i : Nat) : (d.fired h i).shut = d.shut := by
  unfold fired
  split
  · exact elapsed_shut _
  · rfl

theorem delivered_shut (i : Nat) : (d.delivered h i).shut = d.shut := by
  unfold delivered
  split
  · exact reacted_shut _
  · rfl

omit [Time τ] in
theorem requested_shut (path : Text) : (d.requested h path).shut = d.shut := by
  unfold requested
  split <;> rfl

omit [Time τ] in
theorem complete_shut (i : Nat) : (d.complete h i).shut = d.shut := by
  rcases complete_cases h i d with
    ⟨-, he⟩ | ⟨j, seq, text, -, -, -, he⟩ | ⟨j, path, f, -, -, -, -, he⟩
  all_goals rw [he]

/-- A move does not end the background. -/
theorem Move.next_shut (m : Move τ χ) : (m.next h d).shut = d.shut := by
  cases m with
  | queue => rfl
  | executeNow => rfl
  | edit f => rfl
  | requestKeys path => exact requested_shut path
  | fire i => exact fired_shut i
  | complete i => exact complete_shut i
  | deliver i => exact delivered_shut i
  | tick now => rfl

/-- Does moves one after the other. -/
def perform (h : Hooks χ) (ms : List (Move τ χ)) : Act τ χ Unit := ms.forM (Move.act h)

/-- The state after moves. -/
def afterAll (h : Hooks χ) (ms : List (Move τ χ)) (d : Dispatcher τ χ) : Dispatcher τ χ :=
  ms.foldl (fun d m => m.next h d) d

theorem perform_eq (ms : List (Move τ χ)) (hd : d.shut = false) :
    perform h ms d = (.ok (), d.afterAll h ms) := by
  induction ms generalizing d with
  | nil => rfl
  | cons m rest ih =>
    have hm := Move.act_eq (h := h) hd m
    have hrest := ih (d := m.next h d) ((Move.next_shut m).trans hd)
    exact (bind_ok (x := m.act h) (f := fun _ => perform h rest) hm).trans hrest

end Dispatcher

end LiveQuery
