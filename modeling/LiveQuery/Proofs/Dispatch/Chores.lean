/-
LiveQuery/Proofs/Dispatch/Chores.lean

What a dispatcher still waits for, where some of its callbacks are with the host.

A host may take the alarms and the completions of a dispatcher into a queue of its own, and answer
them from there.  So what is to come is in four places: the alarms that are set, the jobs that have
not ended, the completions that are posted, and the callbacks that the host holds (the pool).  A
chore is what any of them is about: a delay, a run or a lookup (`Dispatcher.chores`).

Design.  Up to the order, a job that ends leaves the chores as they are, and each move adds at most
one.  So it can be said once, for all places together, that a dispatcher which is not idle has a
chore on its way (`Served`), and that a callback which is answered leaves less to do (`load`).

Main results: every move keeps a dispatcher served (`Served.next`), and so does a callback that is
taken out of the pool (`Served.reacted`), which makes the load less (`load_reacted`).
-/
import LiveQuery.Proofs.Dispatch.Sound

namespace LiveQuery

/-! ### Chores -/

/-- What is to come. -/
inductive Chore
  /-- The delay of a sequence number ends. -/
  | delay (seq : Int)
  /-- The run for a sequence number is answered. -/
  | run (seq : Int)
  /-- The lookup at a path is answered. -/
  | lookUp (path : Text)
  deriving DecidableEq

/-- The number of callbacks that a chore may take: the end of a delay may start a run. -/
def Chore.weight : Chore → Nat
  | delay _ => 2
  | run _ => 1
  | lookUp _ => 1

/-- The number of callbacks that some chores may take. -/
def Chore.total : List Chore → Nat
  | [] => 0
  | c :: rest => c.weight + total rest

theorem Chore.total_perm {cs cs' : List Chore} (h : cs.Perm cs') : total cs = total cs' := by
  induction h with
  | nil => rfl
  | cons c _ ih => exact congrArg (c.weight + ·) ih
  | swap c c' rest => exact Nat.add_left_comm ..
  | trans _ _ ih ih' => exact ih.trans ih'

theorem Chore.total_le (cs : List Chore) : total cs ≤ 2 * cs.length := by
  induction cs with
  | nil => exact Nat.le_refl 0
  | cons c rest ih =>
    have hweight : c.weight ≤ 2 := by cases c <;> simp [weight]
    rw [total, List.length_cons]
    omega

/-- The chore of a task. -/
def Task.chore : Task → Chore
  | run seq _ => .run seq
  | lookUp path => .lookUp path

/-- The chore of a job that has not ended. -/
def Job.chore? (j : Job) : Option Chore := if j.ended then none else some j.task.chore

/-- The chore of a callback. -/
def Callback.chore : Callback → Chore
  | debounce seq => .delay seq
  | result seq _ => .run seq
  | keys path _ => .lookUp path

namespace Dispatcher

variable {τ χ : Type}

/-- All that is to come, where the host holds the callbacks of the pool. -/
def chores (pool : List Callback) (d : Dispatcher τ χ) : List Chore :=
  d.alarms.map .delay ++ d.jobs.filterMap Job.chore? ++ (d.posted ++ pool).map Callback.chore

/-- A number that the callbacks to come do not exceed. -/
def load (pool : List Callback) (d : Dispatcher τ χ) : Nat :=
  Chore.total (d.chores pool)

/-- What a dispatcher waits for is on its way. -/
structure Served (es : List Chore) (d : Dispatcher τ χ) : Prop where
  newest : d.minted = d.active ∨ .delay d.minted ∈ es
  running : d.running = true → .run d.active ∈ es
  awaited : ∀ path, d.awaited = some path → .lookUp path ∈ es

variable {es es' : List Chore} {pool : List Callback} {h : Hooks χ} {d : Dispatcher τ χ}

theorem Served.mono (hs : Served es d) (hes : es ⊆ es') : Served es' d where
  newest := hs.newest.imp_right fun hm => hes hm
  running hr := hes (hs.running hr)
  awaited path hp := hes (hs.awaited path hp)

/-- Without chores a dispatcher is idle. -/
theorem Served.idle (hs : Served [] d) : d.idle = true := by
  have hnewest : d.minted = d.active := by simpa using hs.newest
  have hrunning : d.running = false := by
    rcases hr : d.running with - | -
    · rfl
    · exact absurd (hs.running hr) List.not_mem_nil
  have hawaited : d.awaited = none := by
    rcases ha : d.awaited with - | path
    · rfl
    · exact absurd (hs.awaited path ha) List.not_mem_nil
  simp [Dispatcher.idle, hnewest, hrunning, hawaited]

/-! ### How operations change the chores -/

/-- A job that ends takes its chore to what is posted. -/
theorem chores_set {i : Nat} {job ended : Job} {c : Callback} {client : χ}
    (hj : d.jobs[i]? = some job) (ho : job.ended = false) (he : ended.ended = true)
    (hc : c.chore = job.task.chore) :
    ({ d with client, jobs := d.jobs.set i ended, posted := d.posted ++ [c] }.chores pool).Perm
      (d.chores pool) := by
  have hset := filterMap_set_perm Job.chore? ended hj
  have herase := filterMap_eraseIdx_perm Job.chore? hj
  -- the chore is counted once less among the jobs, and once more among what is posted
  refine List.perm_iff_count.mpr fun e => ?_
  have h₁ := hset.count_eq e
  have h₂ := herase.count_eq e
  simp [chores, Job.chore?, ho, he, hc, List.count_cons] at h₁ h₂ ⊢
  omega

theorem chores_complete (pool : List Callback) (h : Hooks χ) (i : Nat) (d : Dispatcher τ χ) :
    ((d.complete h i).chores pool).Perm (d.chores pool) := by
  rcases complete_cases h i d with
    ⟨-, he⟩ | ⟨job, seq, text, hj, ho, ht, he⟩ | ⟨job, path, f, hj, ho, ht, -, he⟩
  · rw [he]
  · rw [he]
    exact chores_set hj ho rfl (by rw [ht]; rfl)
  · rw [he]
    exact chores_set hj ho rfl (by rw [ht]; rfl)

/-- What is taken off the alarms or what is posted is no chore of the others any more. -/
theorem chores_of_alarm {i : Nat} {seq : Int} (hi : d.alarms[i]? = some seq) :
    (d.chores pool).Perm (.delay seq :: { d with alarms := d.alarms.eraseIdx i }.chores pool) := by
  have hperm := (perm_cons_eraseIdx hi).map Chore.delay
  exact (hperm.append_right _).append_right _

theorem chores_of_posted {i : Nat} {c : Callback} (hi : d.posted[i]? = some c) :
    (d.chores pool).Perm (c.chore :: { d with posted := d.posted.eraseIdx i }.chores pool) := by
  have hperm := ((perm_cons_eraseIdx hi).append_right pool).map Callback.chore
  exact (hperm.append_left _).trans List.perm_middle

theorem chores_of_pool {pool' : List Callback} {c : Callback} (h : (c :: pool').Perm pool) :
    (d.chores pool).Perm (c.chore :: d.chores pool') := by
  have hperm := (h.symm.append_left d.posted).map Callback.chore
  refine (hperm.append_left _).trans ?_
  rw [List.map_append, List.map_cons, ← List.append_assoc, chores, List.map_append,
    ← List.append_assoc]
  exact List.perm_middle

/-- What the host takes over goes from the dispatcher to the pool. -/
theorem chores_handed {pool' : List Callback}
    (h : pool'.Perm (pool ++ (d.alarms.map .debounce ++ d.posted))) :
    ({ d with alarms := [], posted := [] }.chores pool').Perm (d.chores pool) := by
  refine List.perm_iff_count.mpr fun e => ?_
  have hcount := (h.map Callback.chore).count_eq e
  have halarms : (d.alarms.map Callback.debounce).map Callback.chore = d.alarms.map .delay :=
    List.map_map
  simp only [List.map_append, List.count_append, halarms] at hcount
  simp only [chores, List.map_nil, List.nil_append, List.map_append, List.count_append]
  omega

variable [Time τ]

omit [Time τ] in
theorem chores_queue (pool : List Callback) (d : Dispatcher τ χ) :
    (d.queue.chores pool).Perm (.delay (d.minted + 1) :: d.chores pool) := by
  have halarms : d.queue.alarms.map Chore.delay =
      d.alarms.map Chore.delay ++ [.delay (d.minted + 1)] := List.map_append
  unfold chores
  rw [halarms]
  simp only [List.append_assoc]
  exact List.perm_middle

omit [Time τ] in
/-- A job that is submitted brings in a chore. -/
theorem chores_submitted {d' : Dispatcher τ χ} {e : Chore} (halarms : d'.alarms = d.alarms)
    (hposted : d'.posted = d.posted)
    (hjobs : d'.jobs.filterMap Job.chore? = d.jobs.filterMap Job.chore? ++ [e]) :
    (d'.chores pool).Perm (e :: d.chores pool) := by
  unfold chores
  rw [halarms, hposted, hjobs, ← List.append_assoc]
  exact (List.perm_append_singleton e _).append_right _

theorem chores_dispatched (pool : List Callback) (seq : Int) (d : Dispatcher τ χ) :
    ((d.dispatched h seq).chores pool).Perm (.run seq :: d.chores pool) := by
  refine chores_submitted rfl rfl ?_
  show (d.releasedJobs ++ [_]).filterMap Job.chore? = _
  rw [List.filterMap_append, filterMap_releasedJobs fun _ => rfl]
  rfl

omit [Time τ] in
theorem chores_requested (pool : List Callback) (hk : h.keysAt.isSome = true) (path : Text)
    (d : Dispatcher τ χ) :
    ((d.requested h path).chores pool).Perm (.lookUp (orRoot path) :: d.chores pool) := by
  rw [requested, if_pos hk]
  exact chores_submitted rfl rfl List.filterMap_append

/-! ### What keeps a dispatcher served -/

namespace Served

omit [Time τ] in
theorem queue (hs : Served (d.chores pool) d) : Served (d.queue.chores pool) d.queue := by
  have hadd := (chores_queue pool d).symm.subset
  have hold : d.chores pool ⊆ d.queue.chores pool := fun e he => hadd (List.mem_cons_of_mem _ he)
  exact ⟨.inr (hadd List.mem_cons_self), fun hr => hold (hs.running hr),
    fun path hp => hold (hs.awaited path hp)⟩

/-- A dispatch of the newest number needs nothing of the chores of the numbers before. -/
theorem dispatched {seq : Int} (hseq : d.minted = seq)
    (hs : ∀ path, d.awaited = some path → .lookUp path ∈ d.chores pool) :
    Served ((d.dispatched h seq).chores pool) (d.dispatched h seq) := by
  have hadd := (chores_dispatched (h := h) pool seq d).symm.subset
  exact ⟨.inl hseq, fun _ => hadd List.mem_cons_self,
    fun path hp => hadd (List.mem_cons_of_mem _ (hs path hp))⟩

omit [Time τ] in
theorem requested (hs : Served (d.chores pool) d) (path : Text) :
    Served ((d.requested h path).chores pool) (d.requested h path) := by
  by_cases hk : h.keysAt.isSome = true
  · have hadd := (chores_requested pool hk path d).symm.subset
    have hold : d.chores pool ⊆ (d.requested h path).chores pool :=
      fun e he => hadd (List.mem_cons_of_mem _ he)
    have he : d.requested h path =
        { d with
          awaited := some (orRoot path)
          jobs := d.jobs ++ [Job.mk (.lookUp (orRoot path)) false false] } := if_pos hk
    rw [he] at hadd hold ⊢
    refine ⟨hs.newest.imp_right fun hm => hold hm, fun hr => hold (hs.running hr), fun p hp => ?_⟩
    obtain rfl : orRoot path = p := Option.some.inj hp
    exact hadd List.mem_cons_self
  · rw [Dispatcher.requested, if_neg hk]
    exact hs

omit [Time τ] in
theorem complete (hs : Served (d.chores pool) d) (i : Nat) :
    Served ((d.complete h i).chores pool) (d.complete h i) := by
  have hs := hs.mono (chores_complete pool h i d).symm.subset
  rcases complete_cases h i d with
    ⟨-, he⟩ | ⟨job, seq, text, -, -, -, he⟩ | ⟨job, path, f, -, -, -, -, he⟩
  all_goals
    rw [he] at hs ⊢
    exact ⟨hs.newest, hs.running, hs.awaited⟩

/-- At the end of a delay the newest number is dispatched, and no other is needed. -/
theorem elapsed {seq : Int} (hs : Served (.delay seq :: d.chores pool) d) :
    Served ((d.elapsed h seq).chores pool) (d.elapsed h seq) := by
  have hawaited (path : Text) (hp : d.awaited = some path) : .lookUp path ∈ d.chores pool := by
    simpa using hs.awaited path hp
  unfold Dispatcher.elapsed
  split
  · next hseq => exact dispatched hseq.symm hawaited
  · next hseq =>
    show Served (d.chores pool) _
    refine ⟨?_, fun hr => ?_, hawaited⟩
    · simpa [Ne.symm hseq] using hs.newest
    · simpa using hs.running hr

/-- **A callback that is answered leaves nothing waiting for it.** -/
theorem reacted {c : Callback} (hs : Served (c.chore :: d.chores pool) d) :
    Served ((d.reacted h c).chores pool) (d.reacted h c) := by
  cases c with
  | debounce seq => exact elapsed hs
  | result seq o =>
    rw [Dispatcher.reacted, takeResult_eq]
    show Served (d.chores pool) _
    refine ⟨by simpa [Callback.chore] using hs.newest, fun hr => ?_,
      fun path hp => by simpa [Callback.chore] using hs.awaited path hp⟩
    -- the run goes on only if the result is another one's
    rcases haccepts : d.accepts seq with - | -
    · have hseq : d.active ≠ seq := fun he => by simp [accepts, he] at haccepts
      have hrun : d.running = true := by simpa [haccepts] using hr
      simpa [Callback.chore, hseq] using hs.running hrun
    · simp [haccepts] at hr
  | keys path answer =>
    rw [Dispatcher.reacted, answerKeys_eq]
    show Served (d.chores pool) _
    refine ⟨by simpa [Callback.chore] using hs.newest,
      fun hr => by simpa [Callback.chore] using hs.running hr, fun p hp => ?_⟩
    have hp : (if d.awaited = some path then none else d.awaited) = some p := hp
    split at hp
    · cases hp
    · next hne =>
      have hpath : p ≠ path := fun he => hne (he ▸ hp)
      simpa [Callback.chore, hpath] using hs.awaited p hp

theorem fired (hs : Served (d.chores pool) d) (i : Nat) :
    Served ((d.fired h i).chores pool) (d.fired h i) := by
  unfold Dispatcher.fired
  split
  · next seq hi =>
    have hs := hs.mono (chores_of_alarm hi).subset
    exact elapsed ⟨hs.newest, hs.running, hs.awaited⟩
  · exact hs

theorem delivered (hs : Served (d.chores pool) d) (i : Nat) :
    Served ((d.delivered h i).chores pool) (d.delivered h i) := by
  unfold Dispatcher.delivered
  split
  · next c hi =>
    have hs := hs.mono (chores_of_posted hi).subset
    exact reacted ⟨hs.newest, hs.running, hs.awaited⟩
  · exact hs

/-- **Every move keeps a dispatcher served.** -/
theorem next (hs : Served (d.chores pool) d) (m : Move τ χ) :
    Served ((m.next h d).chores pool) (m.next h d) := by
  cases m with
  | queue => exact hs.queue
  | executeNow => exact dispatched (d := d.mint) rfl hs.awaited
  | edit f => exact ⟨hs.newest, hs.running, hs.awaited⟩
  | requestKeys path => exact hs.requested path
  | fire i => exact hs.fired i
  | complete i => exact hs.complete i
  | deliver i => exact hs.delivered i
  | tick now => exact ⟨hs.newest, hs.running, hs.awaited⟩

end Served

/-! ### How much is left to do -/

omit [Time τ] in
theorem load_of_perm {d' : Dispatcher τ χ} {pool' : List Callback} {e : Chore}
    (h : (d'.chores pool').Perm (e :: d.chores pool)) :
    d'.load pool' = e.weight + d.load pool :=
  Chore.total_perm h

/-- **A callback that is answered leaves less to do than before.** -/
theorem load_reacted (c : Callback) :
    (d.reacted h c).load pool + 1 ≤ c.chore.weight + d.load pool := by
  cases c with
  | debounce seq =>
    show (d.elapsed h seq).load pool + 1 ≤ 2 + d.load pool
    unfold elapsed
    split
    · rw [load_of_perm (chores_dispatched pool seq d), Chore.weight]
      omega
    · show d.load pool + 1 ≤ 2 + d.load pool
      omega
  | result seq o =>
    rw [reacted, takeResult_eq]
    show d.load pool + 1 ≤ 1 + d.load pool
    omega
  | keys path answer =>
    rw [reacted, answerKeys_eq]
    show d.load pool + 1 ≤ 1 + d.load pool
    omega

/-- A callback sets no alarm. -/
theorem reacted_alarms (c : Callback) : (d.reacted h c).alarms = d.alarms := by
  cases c with
  | debounce seq =>
    show (d.elapsed h seq).alarms = d.alarms
    unfold elapsed
    split <;> rfl
  | result seq o => rw [reacted, takeResult_eq]
  | keys path answer => rw [reacted, answerKeys_eq]

end Dispatcher

end LiveQuery
